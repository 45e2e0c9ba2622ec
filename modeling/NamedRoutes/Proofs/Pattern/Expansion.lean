import NamedRoutes.Proofs.Pattern.Opening

/-!
Shortcuts are written out once and for all. What is written out holds no further shortcut, so that a
path whose shortcuts were written out is compiled to the same pattern.
-/

namespace NamedRoutes

namespace Shortcut

/-- The letter of a shortcut as it stands between a colon and a closing brace. -/
def mark (s : Shortcut) : List Char := [':', s.letter, '}']

theorem mark_prefix_iff (s : Shortcut) {text : List Char} :
    s.mark <+: text ↔ ∃ rest, text = ':' :: s.letter :: '}' :: rest := by
  constructor
  · rintro ⟨rest, rfl⟩
    exact ⟨rest, rfl⟩
  · rintro ⟨rest, rfl⟩
    exact ⟨rest, rfl⟩

/-- The text that a shortcut stands for holds no mark, whatever comes after it. -/
theorem mark_infix_expression (s written : Shortcut) {rest : List Char}
    (h : s.mark <:+: ':' :: (written.expression.toList ++ '}' :: rest)) : s.mark <:+: rest := by
  revert h
  cases s <;> cases written <;>
    simp [mark, letter, expression, List.infix_cons_iff]

/-- A mark that is left after a shortcut was written out was there before, and is that of another
one. -/
theorem mark_infix_expandIn {s written : Shortcut} {text : List Char}
    (h : s.mark <:+: written.expandIn text) : s.mark <:+: text ∧ s ≠ written := by
  fun_induction expandIn written text with
  | case1 rest ih =>
      obtain ⟨hmark, hne⟩ := ih (mark_infix_expression s written h)
      exact ⟨hmark.trans ⟨[':', written.letter, '}'], [], by simp⟩, hne⟩
  | case2 c rest hc ih =>
      rcases List.infix_cons_iff.mp h with hprefix | hinfix
      · obtain ⟨more, hmore⟩ := s.mark_prefix_iff.mp hprefix
        have hhead := (written.ends_expandIn (c :: '}' :: rest)).1
        rw [(List.cons.inj hmore).2] at hhead
        obtain rfl : s.letter = c := Option.some.inj hhead
        exact ⟨⟨[], rest, rfl⟩, fun hs => hc (congrArg letter hs)⟩
      · obtain ⟨hmark, hne⟩ := ih hinfix
        exact ⟨hmark.trans (List.infix_cons List.infix_rfl), hne⟩
  | case3 c rest hshape ih =>
      rcases List.infix_cons_iff.mp h with hprefix | hinfix
      · -- The next two characters were there before, and then a letter stood between a colon and a
        -- brace.
        exfalso
        obtain ⟨more, hmore⟩ := s.mark_prefix_iff.mp hprefix
        obtain ⟨rfl, hout⟩ := List.cons.inj hmore
        cases rest with
        | nil => cases hout
        | cons d tail =>
            have hd : d = s.letter := by
              have hhead := (written.ends_expandIn (d :: tail)).1
              rw [hout] at hhead
              exact (Option.some.inj hhead).symm
            have hcolon : d ≠ ':' := by
              rw [hd]
              cases s <;> decide
            rw [expandIn_cons written hcolon] at hout
            have htail := (written.ends_expandIn tail).1
            rw [(List.cons.inj hout).2] at htail
            obtain ⟨rest, rfl⟩ := List.head?_eq_some_iff.mp htail.symm
            exact hshape d rest rfl rfl
      · obtain ⟨hmark, hne⟩ := ih hinfix
        exact ⟨hmark.trans (List.infix_cons List.infix_rfl), hne⟩
  | case4 =>
      cases List.infix_nil.mp h

/-- A text without marks of a shortcut stays as it is. -/
theorem expandIn_of_not_infix {s : Shortcut} {text : List Char} (h : ¬ s.mark <:+: text) :
    s.expandIn text = text := by
  fun_induction expandIn s text with
  | case1 rest ih => exact absurd ⟨[], rest, rfl⟩ h
  | case2 c rest hc ih =>
      rw [ih fun hmark => h (hmark.trans (List.infix_cons List.infix_rfl))]
  | case3 c rest hshape ih =>
      rw [ih fun hmark => h (hmark.trans (List.infix_cons List.infix_rfl))]
  | case4 => rfl

/-- Nothing is left to be written out. -/
theorem expand_expand (path : String) : expand (expand path) = expand path := by
  have hnone : ∀ s : Shortcut, ¬ s.mark <:+: (expand path).toList := fun s hmark => by
    unfold expand all at hmark
    rw [String.toList_ofList, List.foldl_cons, List.foldl_cons, List.foldl_cons, List.foldl_nil]
      at hmark
    obtain ⟨hmark, hslug⟩ := mark_infix_expandIn hmark
    obtain ⟨hmark, halphanumerics⟩ := mark_infix_expandIn hmark
    obtain ⟨_, hdigits⟩ := mark_infix_expandIn hmark
    cases s with
    | digits => exact hdigits rfl
    | alphanumerics => exact halphanumerics rfl
    | slug => exact hslug rfl
  generalize expand path = expanded at hnone
  unfold expand all
  rw [List.foldl_cons, List.foldl_cons, List.foldl_cons, List.foldl_nil,
    expandIn_of_not_infix (hnone .digits), expandIn_of_not_infix (hnone .alphanumerics),
    expandIn_of_not_infix (hnone .slug), String.ofList_toList]

end Shortcut

namespace RoutePattern

/-- A path whose shortcuts are written out is compiled to the same pattern. -/
theorem compile_expand (path space : String) :
    compile (Shortcut.expand path) space = compile path space := by
  unfold compile
  simp only [Shortcut.expand_expand]

end RoutePattern

end NamedRoutes
