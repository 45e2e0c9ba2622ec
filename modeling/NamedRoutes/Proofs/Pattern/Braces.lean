import NamedRoutes.Proofs.Pattern.Fragments

/-!
Where the braces of a path lead. A path with braces that is accepted has a placeholder, and the text
of its expression has a parenthesis.
-/

namespace NamedRoutes

/-- Writing out shortcuts leaves the braces of a path. -/
theorem Shortcut.mem_expandIn {shortcut : Shortcut} {brace : Char}
    (hbrace : brace = '{' ∨ brace = '}') {text : List Char}
    (h : brace ∈ text) : brace ∈ shortcut.expandIn text := by
  have hletter : brace ≠ shortcut.letter := by
    rcases hbrace with rfl | rfl <;> cases shortcut <;> decide
  fun_induction expandIn shortcut text with
  | case1 rest ih =>
      rcases List.mem_cons.mp h with rfl | h
      · exact List.mem_cons_self
      rcases List.mem_cons.mp h with hc | h
      · exact absurd hc hletter
      refine List.mem_cons_of_mem _ (List.mem_append_right _ ?_)
      rcases List.mem_cons.mp h with rfl | h
      · exact List.mem_cons_self
      · exact List.mem_cons_of_mem _ (ih h)
  | case2 c rest hc ih =>
      rcases List.mem_cons.mp h with rfl | h
      · exact List.mem_cons_self
      · exact List.mem_cons_of_mem _ (ih h)
  | case3 c rest hc ih =>
      rcases List.mem_cons.mp h with rfl | h
      · exact List.mem_cons_self
      · exact List.mem_cons_of_mem _ (ih h)
  | case4 => cases h

theorem Shortcut.mem_expand {brace : Char} (hbrace : brace = '{' ∨ brace = '}') {path : String}
    (h : brace ∈ path.toList) : brace ∈ (Shortcut.expand path).toList := by
  unfold Shortcut.expand all
  rw [String.toList_ofList, List.foldl_cons, List.foldl_cons, List.foldl_cons, List.foldl_nil]
  exact mem_expandIn hbrace (mem_expandIn hbrace (mem_expandIn hbrace h))

/-- A path that is cut into no slots has no braces. -/
theorem CutPath.not_mem_of_slots {text : List Char} {cut : CutPath} (h : ofText? text = some cut)
    (hslots : cut.slots = []) {brace : Char}
    (hbrace : brace = '{' ∨ brace = '}') : brace ∉ text := by
  induction text generalizing cut with
  | nil => exact List.not_mem_nil
  | cons c rest ih =>
      unfold ofText? at h
      by_cases hopen : c = '{'
      · rw [if_pos hopen] at h
        obtain ⟨_, _, rfl⟩ := Option.map_eq_some_iff.mp h
        cases hslots
      rw [if_neg hopen] at h
      by_cases hclose : c = '}'
      · rw [if_pos hclose] at h
        cases h
      rw [if_neg hclose] at h
      obtain ⟨own, hown, rfl⟩ := Option.map_eq_some_iff.mp h
      intro hmem
      rcases List.mem_cons.mp hmem with rfl | hmem
      · exact hbrace.elim hopen hclose
      · exact ih hown hslots hmem

/-- What is known of a path that is read without an error. -/
theorem Template.parse_eq_ok {path : String} {t : Template} (h : parse path = .ok t) :
    ∃ cut, CutPath.ofText? path.toList = some cut ∧ Path.isStaticText cut.outline = true ∧
      t = ⟨cut.before, cut.placeholders⟩ ∧ cut.slots.length ≤ t.placeholders.length ∧
      firstRepeated? [] t.names = none := by
  unfold parse at h
  cases hcut : CutPath.ofText? path.toList with
  | none =>
      rw [hcut] at h
      cases h
  | some cut =>
      simp only [hcut, bind, Except.bind] at h
      cases houtline : Path.isStaticText cut.outline with
      | false =>
          simp only [houtline] at h
          cases h
      | true =>
          simp only [houtline, Bool.not_true, Bool.false_eq_true, if_false, pure, Except.pure] at h
          by_cases hcount : cut.slots.length - cut.placeholders.length = 0
          · simp only [hcount, bne_self_eq_false, Bool.false_eq_true, if_false] at h
            cases hrepeated : firstRepeated? [] (Template.mk cut.before cut.placeholders).names with
            | some name =>
                simp only [hrepeated] at h
                cases h
            | none =>
                simp only [hrepeated] at h
                cases h
                exact ⟨cut, rfl, houtline, rfl, Nat.sub_eq_zero_iff_le.mp hcount, hrepeated⟩
          · have hsome : (cut.slots.length - cut.placeholders.length != 0) = true := by
              simp [hcount]
            simp only [hsome, if_true] at h
            cases h

/-- A path with braces has a placeholder if it is read without an error. -/
theorem Template.placeholders_ne_nil {path : String} {t : Template} (h : parse path = .ok t)
    {brace : Char} (hbrace : brace = '{' ∨ brace = '}') (hmem : brace ∈ path.toList) :
    t.placeholders ≠ [] := by
  obtain ⟨cut, hcut, _, _, hlength, _⟩ := parse_eq_ok h
  intro hnil
  rw [hnil, List.length_nil] at hlength
  have hslots := List.eq_nil_of_length_eq_zero (Nat.le_zero.mp hlength)
  exact CutPath.not_mem_of_slots hcut hslots hbrace hmem

theorem Fragment.mem_source_of_expression? {f : Fragment} {e : List Char}
    (h : f.expression? = some e) : '(' ∈ f.source := by
  cases f with
  | literal text => cases h
  | _ => simp [source, group]

/-- The text of a pattern that was compiled from a path with braces has a parenthesis. -/
theorem RoutePattern.mem_regex_of_compile {path space : String} {p : RoutePattern}
    (h : compile path space = .ok p) (hstatic : Path.isStatic path = false) :
    '(' ∈ p.regex.toList := by
  have hbrace : ∃ brace, (brace = '{' ∨ brace = '}') ∧ brace ∈ path.toList := by
    simp only [Path.isStatic, Bool.and_eq_false_iff, Bool.not_eq_false', List.contains_eq_mem,
      decide_eq_true_eq] at hstatic
    rcases hstatic with hmem | hmem
    · exact ⟨'{', Or.inl rfl, hmem⟩
    · exact ⟨'}', Or.inr rfl, hmem⟩
  obtain ⟨brace, hbrace, hmem⟩ := hbrace
  rcases compile_cases path space with
    ⟨_, _, herror⟩ | ⟨t, ht, ⟨_, _, herror⟩ | ⟨_, fragments, _, hexpressions, ⟨_, _, herror⟩ |
      ⟨q, hq, hpasted⟩⟩⟩
  · rw [herror] at h
    cases h
  · rw [herror] at h
    cases h
  · rw [herror] at h
    cases h
  · obtain rfl := Except.ok.inj (hq.symm.trans h)
    have hsome := Template.placeholders_ne_nil ht hbrace (Shortcut.mem_expand hbrace hmem)
    obtain ⟨next, hnext⟩ := List.exists_mem_of_ne_nil _ hsome
    have hexpression : next.1.expression.toList ∈ fragments.filterMap Fragment.expression? := by
      rw [hexpressions, List.mem_reverse]
      exact List.mem_map_of_mem hnext
    obtain ⟨f, hf, hfexpression⟩ := List.mem_filterMap.mp hexpression
    rw [hpasted.text]
    exact List.mem_flatMap.mpr ⟨f, List.mem_reverse.mpr hf,
      Fragment.mem_source_of_expression? hfexpression⟩

end NamedRoutes
