import NamedRoutes.Proofs.Pattern.Braces
import NamedRoutes.Proofs.Pattern.Layout
import NamedRoutes.Proofs.Trim

/-!
The slashes of an accepted path. A path is trimmed before it is read, so that its pieces start and
end with no slash, and its form is checked, so that no two slashes stand side by side and no blank
stands anywhere.
-/

namespace NamedRoutes

namespace Shortcut

/-- Writing out a shortcut keeps the first and the last character. -/
theorem ends_expandIn (shortcut : Shortcut) (text : List Char) :
    (shortcut.expandIn text).head? = text.head? ∧
      (shortcut.expandIn text).getLast? = text.getLast? := by
  fun_induction expandIn shortcut text with
  | case1 rest ih => simp [List.getLast?_cons, List.getLast?_append, ih.2]
  | case2 c rest hc ih => simp [List.getLast?_cons, ih.2]
  | case3 c rest hc ih => simp [List.getLast?_cons, ih.2]
  | case4 => exact ⟨rfl, rfl⟩

theorem ends_expand (path : String) :
    (expand path).toList.head? = path.toList.head? ∧
      (expand path).toList.getLast? = path.toList.getLast? := by
  unfold expand all
  rw [String.toList_ofList, List.foldl_cons, List.foldl_cons, List.foldl_cons, List.foldl_nil]
  exact ⟨by rw [(ends_expandIn ..).1, (ends_expandIn ..).1, (ends_expandIn ..).1],
    by rw [(ends_expandIn ..).2, (ends_expandIn ..).2, (ends_expandIn ..).2]⟩

end Shortcut

def Slot.source (slot : Slot) : List Char :=
  '{' :: (slot.content ++ '}' :: ((if slot.optional then ['?'] else []) ++ slot.after))

namespace CutPath

def source (cut : CutPath) : List Char := cut.before ++ cut.slots.flatMap Slot.source

theorem splitOptional_append (text rest : List Char) :
    (if (splitOptional text).1 then ['?'] else []) ++ ((splitOptional text).2 ++ rest) =
      text ++ rest := by
  unfold splitOptional
  split <;> rfl

/-- How a path is cut, character by character: outside of braces, and inside of them up to the
closing one. -/
theorem cut_induction (outside : List Char → CutPath → Prop)
    (inside : List Char → List Char → CutPath → Prop) (nil : outside [] ⟨[], []⟩)
    (opening : ∀ rest content after, inside rest content after → outside ('{' :: rest)
      ⟨[],
        ⟨content, (splitOptional after.before).1, (splitOptional after.before).2⟩ :: after.slots⟩)
    (char : ∀ c rest after, c ≠ '{' ∧ c ≠ '}' → outside rest after →
      outside (c :: rest) { after with before := c :: after.before })
    (closing : ∀ rest after, outside rest after → inside ('}' :: rest) [] after)
    (inner : ∀ c rest content after, c ≠ '{' ∧ c ≠ '}' → inside rest content after →
      inside (c :: rest) (c :: content) after) (text : List Char) :
    (∀ cut, ofText? text = some cut → outside text cut) ∧
      ∀ content cut, ofBraces? text = some (content, cut) → inside text content cut := by
  induction text with
  | nil =>
      refine ⟨fun cut h => ?_, fun content cut h => ?_⟩
      · cases h
        exact nil
      · cases h
  | cons c rest ih =>
      obtain ⟨htext, hbraces⟩ := ih
      refine ⟨fun cut h => ?_, fun content cut h => ?_⟩
      · rw [ofText?] at h
        by_cases hopen : c = '{'
        · rw [if_pos hopen] at h
          obtain ⟨⟨content, after⟩, hafter, rfl⟩ := Option.map_eq_some_iff.mp h
          rw [hopen]
          exact opening rest content after (hbraces content after hafter)
        rw [if_neg hopen] at h
        by_cases hclose : c = '}'
        · rw [if_pos hclose] at h
          cases h
        · rw [if_neg hclose] at h
          obtain ⟨after, hafter, rfl⟩ := Option.map_eq_some_iff.mp h
          exact char c rest after ⟨hopen, hclose⟩ (htext after hafter)
      · rw [ofBraces?] at h
        by_cases hclose : c = '}'
        · rw [if_pos hclose] at h
          obtain ⟨after, hafter, heq⟩ := Option.map_eq_some_iff.mp h
          obtain ⟨rfl, rfl⟩ := Prod.mk.inj heq
          rw [hclose]
          exact closing rest after (htext after hafter)
        rw [if_neg hclose] at h
        by_cases hopen : c = '{'
        · rw [if_pos hopen] at h
          cases h
        · rw [if_neg hopen] at h
          obtain ⟨⟨more, after⟩, hafter, heq⟩ := Option.map_eq_some_iff.mp h
          obtain ⟨rfl, rfl⟩ := Prod.mk.inj heq
          exact inner c rest more after ⟨hopen, hclose⟩ (hbraces more after hafter)

theorem source_of_cut (text : List Char) :
    (∀ cut, ofText? text = some cut → cut.source = text) ∧
      ∀ content cut, ofBraces? text = some (content, cut) →
        content ++ '}' :: cut.source = text := by
  refine cut_induction (fun text cut => cut.source = text)
    (fun text content cut => content ++ '}' :: cut.source = text) rfl ?_ ?_ ?_ ?_ text
  · intro rest content after h
    rw [← h]
    simp only [source, List.flatMap_cons, Slot.source, List.nil_append, List.cons_append,
      List.append_assoc]
    rw [splitOptional_append]
  · exact fun c _ _ _ h => congrArg (c :: ·) h
  · exact fun _ _ h => congrArg ('}' :: ·) h
  · exact fun c _ _ _ _ h => congrArg (c :: ·) h

/-- The outline of a path starts and ends with a slash only if the path does. -/
theorem ends_outline (cut : CutPath) :
    (cut.outline.head? = some '/' → cut.source.head? = some '/') ∧
      (cut.outline.getLast? = some '/' → cut.source.getLast? = some '/') := by
  obtain ⟨before, slots⟩ := cut
  constructor
  · intro h
    cases before with
    | nil =>
        cases slots with
        | nil => cases h
        | cons slot rest => exact absurd (Option.some.inj h) (by decide)
    | cons c rest => exact h
  · intro h
    rcases List.eq_nil_or_concat slots with rfl | ⟨others, ⟨content, optional, after⟩, rfl⟩
    · exact h
    · rcases List.eq_nil_or_concat after with rfl | ⟨more, c, rfl⟩
      · simp [outline] at h
      · obtain rfl : c = '/' := by simpa [outline, List.getLast?_cons] using h
        simp [source, Slot.source, List.getLast?_cons]

/-- If every slot is a placeholder, the texts after the placeholders are those after the slots. -/
theorem placeholders_after (cut : CutPath) (h : cut.slots.length ≤ cut.placeholders.length) :
    cut.placeholders.map (·.2) = cut.slots.map (·.after) := by
  obtain ⟨before, slots⟩ := cut
  unfold placeholders at h ⊢
  simp only at h ⊢
  induction slots with
  | nil => rfl
  | cons slot rest ih =>
      cases hread : Placeholder.read? slot.content slot.optional with
      | none =>
          rw [List.filterMap_cons_none (by rw [hread]; rfl), List.length_cons] at h
          exact absurd (Nat.lt_of_succ_le h) (Nat.not_lt.mpr (List.length_filterMap_le _ _))
      | some p =>
          simp only [List.filterMap_cons, hread, Option.map_some, List.length_cons] at h ⊢
          rw [List.map_cons, List.map_cons, ih (Nat.le_of_succ_le_succ h)]

end CutPath

namespace Path

/-- Whether a text has no blanks, and slashes neither at its ends nor side by side. -/
structure IsTidy (text : List Char) : Prop where
  blank : ' ' ∉ text
  first : text.head? ≠ some '/'
  last : text.getLast? ≠ some '/'
  single : hasDoubleSlash text = false

/-- A tidy text behind another one and a slash. -/
theorem IsTidy.join {text rest : List Char} (htext : IsTidy text) (hrest : IsTidy rest)
    (hne : text ≠ []) (hrestNe : rest ≠ []) : IsTidy (text ++ '/' :: rest) where
  blank := by simp [htext.blank, hrest.blank]
  first := by
    cases text with
    | nil => exact absurd rfl hne
    | cons c more => exact htext.first
  last := by
    cases hlast : rest.getLast? with
    | none => exact absurd (List.getLast?_eq_none_iff.mp hlast) hrestNe
    | some c =>
        rw [List.getLast?_append, List.getLast?_cons, hlast]
        exact fun heq => hrest.last (hlast.trans heq)
  single := hasDoubleSlash_between htext.single htext.last hrest.first hrest.single

end Path

namespace Piece

/-- The text in place of a piece where the form of a path is checked. -/
def outline : Piece → List Char
  | slash => ['/']
  | text t => t
  | required _ | optional _ => "param".toList

/-- What the pieces of an accepted path are: words between single slashes, none of them at either
end. -/
structure IsProper (pieces : List Piece) : Prop where
  nonempty : pieces ≠ []
  word : ∀ t, .text t ∈ pieces → t ≠ [] ∧ '/' ∉ t ∧ ' ' ∉ t
  first : pieces.head? ≠ some .slash
  last : pieces.getLast? ≠ some .slash
  single : ¬ [.slash, .slash] <:+: pieces

theorem outline_ofText (text : List Char) : (ofText text).outline = text := by
  by_cases hslash : text = ['/']
  · rw [ofText, if_pos hslash, hslash]
    rfl
  · rw [ofText, if_neg hslash]
    rfl

theorem outline_ofExpression (e : List Char) (optional : Bool) :
    (ofExpression e optional).outline = "param".toList := by
  cases optional <;> rfl

theorem outline_pieces (text : List Char) :
    ((Path.pieces text).map ofText).flatMap outline = text := by
  rw [List.flatMap_map]
  simp only [outline_ofText, List.flatMap_id', Path.flatten_pieces]

theorem word_of_mem_pieces {t text : List Char} (h : Piece.text t ∈ (Path.pieces text).map ofText) :
    t ≠ [] ∧ '/' ∉ t := by
  obtain ⟨piece, hpiece, heq⟩ := List.mem_map.mp h
  by_cases hslash : piece = ['/']
  · rw [ofText, if_pos hslash] at heq
    cases heq
  · rw [ofText, if_neg hslash] at heq
    cases heq
    exact (Path.slash_or_word_of_mem hpiece).resolve_left hslash

theorem isProper_of_outline {pieces : List Piece} (hne : pieces.flatMap outline ≠ [])
    (hword : ∀ t, .text t ∈ pieces → t ≠ [] ∧ '/' ∉ t)
    (htidy : Path.IsTidy (pieces.flatMap outline)) : IsProper pieces := by
  refine ⟨fun hnil => ?_, fun t ht => ?_, fun hhead => ?_, fun hend => ?_, fun hdouble => ?_⟩
  · exact hne (by rw [hnil]; rfl)
  · obtain ⟨hne, hslash⟩ := hword t ht
    exact ⟨hne, hslash, fun hmem => htidy.blank (List.mem_flatMap.mpr ⟨_, ht, hmem⟩)⟩
  · obtain ⟨rest, rfl⟩ := List.head?_eq_some_iff.mp hhead
    exact htidy.first rfl
  · obtain ⟨rest, rfl⟩ := List.getLast?_eq_some_iff.mp hend
    exact htidy.last (by simp [outline])
  · obtain ⟨before, after, rfl⟩ := hdouble
    have hsingle := htidy.single
    rw [List.flatMap_append, List.flatMap_append, List.append_assoc] at hsingle
    cases Path.hasDoubleSlash_right hsingle

end Piece

/-- What is known of a namespace. -/
theorem Path.parseNamespace_eq_ok {text space : String} (h : parseNamespace text = .ok space) :
    IsTidy space.toList := by
  unfold parseNamespace at h
  split at h
  · rename_i hchars
    obtain rfl := Except.ok.inj h
    obtain ⟨hall, hsingle⟩ := Bool.and_eq_true_iff.mp hchars
    obtain ⟨before, after, htext⟩ := Text.trim_infix isMargin text.toList
    have htrim : (trim text).toList = Text.trim isMargin text.toList := String.toList_ofList
    rw [← htrim] at htext
    refine ⟨fun hmem => ?_, head?_trim text, getLast?_trim text, ?_⟩
    · have hblank : ' ' ∈ text.toList := by
        rw [← htext]
        exact List.mem_append_left _ (List.mem_append_right _ hmem)
      exact absurd (List.all_eq_true.mp hall _ hblank) (by decide)
    · rw [Bool.not_eq_true', ← htext] at hsingle
      exact hasDoubleSlash_right (hasDoubleSlash_left hsingle)
  · cases h

namespace RoutePattern

variable {p : RoutePattern} {space path text : String} {t : Template}

theorem Assembled.word (h : p.Assembled space path t) {word : List Char}
    (hmem : .text word ∈ p.pieces) :
    word ≠ [] ∧ '/' ∉ word := by
  rw [h.pieces, Template.pieces, List.mem_append, List.mem_append] at hmem
  rcases hmem with hmem | hmem | hmem
  · split at hmem
    · cases hmem
    · exact Piece.word_of_mem_pieces hmem
  · exact Piece.word_of_mem_pieces hmem
  · obtain ⟨next, _, hmem⟩ := List.mem_flatMap.mp hmem
    rcases List.mem_cons.mp hmem with heq | hmem
    · unfold Piece.ofExpression at heq
      split at heq <;> cases heq
    · exact Piece.word_of_mem_pieces hmem

/-- The outline of the pieces of a path is that of the path, after its namespace. -/
theorem outline_pieces {cut : CutPath} (hcount : cut.slots.length ≤ cut.placeholders.length) :
    (Template.pieces space ⟨cut.before, cut.placeholders⟩).flatMap Piece.outline =
      (if space == "" then [] else space.toList ++ ['/']) ++ cut.outline := by
  have hspace : (if space == "" then [] else
      (Path.pieces (space.toList ++ ['/'])).map Piece.ofText).flatMap Piece.outline =
        if space == "" then [] else space.toList ++ ['/'] := by
    split
    · rfl
    · exact Piece.outline_pieces _
  have hslots : (cut.placeholders.flatMap fun next =>
      Piece.ofExpression next.1.expression.toList next.1.optional ::
        (Path.pieces next.2).map Piece.ofText).flatMap Piece.outline =
          cut.slots.flatMap fun slot => "param".toList ++ slot.after := by
    have hafter := congrArg (List.flatMap fun after => "param".toList ++ after)
      (cut.placeholders_after hcount)
    rw [List.flatMap_map, List.flatMap_map] at hafter
    rw [List.flatMap_assoc, ← hafter]
    simp only [List.flatMap_cons, Piece.outline_ofExpression, Piece.outline_pieces]
  rw [Template.pieces, List.flatMap_append, List.flatMap_append, hspace, hslots,
    Piece.outline_pieces]
  rfl

/-- The outline of an accepted path is tidy if the path is trimmed, and only the root has none. -/
theorem outline_isTidy {cut : CutPath}
    (hcut : CutPath.ofText? (Shortcut.expand path).toList = some cut)
    (hstatic : Path.isStaticText cut.outline = true) (hne : path.toList ≠ [])
    (hfirst : path.toList.head? ≠ some '/') (hlast : path.toList.getLast? ≠ some '/') :
    cut.outline ≠ [] ∧ Path.IsTidy cut.outline := by
  obtain ⟨hchars, hsingle⟩ := Bool.and_eq_true_iff.mp hstatic
  have hsource := (CutPath.source_of_cut _).1 cut hcut
  refine ⟨fun hnil => ?_, ?_⟩
  · have hexpanded : (Shortcut.expand path).toList = [] := by
      rw [← hsource]
      obtain ⟨before, slots⟩ := cut
      obtain ⟨rfl, hslots⟩ := List.append_eq_nil_iff.mp hnil
      cases slots with
      | nil => rfl
      | cons slot rest => cases hslots
    have hends := (Shortcut.ends_expand path).1
    rw [hexpanded] at hends
    exact hne (List.head?_eq_none_iff.mp hends.symm)
  · exact
      { blank := fun hmem => absurd (List.all_eq_true.mp hchars _ hmem) (by decide)
        first := fun heq =>
          hfirst (by rw [← (Shortcut.ends_expand path).1, ← hsource]; exact cut.ends_outline.1 heq)
        last := fun heq =>
          hlast (by rw [← (Shortcut.ends_expand path).2, ← hsource]; exact cut.ends_outline.2 heq)
        single := (Bool.not_eq_true' _).mp hsingle }

/-- The pieces of a trimmed path in a namespace are words between single slashes. -/
theorem Assembled.isProper (h : p.Assembled space path t)
    (hspace : Path.parseNamespace text = .ok space) (hne : path.toList ≠ [])
    (hfirst : path.toList.head? ≠ some '/') (hlast : path.toList.getLast? ≠ some '/') :
    Piece.IsProper p.pieces := by
  obtain ⟨cut, hcut, hstatic, rfl, hcount, _⟩ := Template.parse_eq_ok h.template
  obtain ⟨houtlineNe, htidy⟩ := outline_isTidy hcut hstatic hne hfirst hlast
  have houtline := @outline_pieces space cut hcount
  rw [← h.pieces] at houtline
  refine Piece.isProper_of_outline ?_ (fun word hword => h.word hword) ?_
  all_goals rw [houtline]
  · exact List.append_ne_nil_of_right_ne_nil _ houtlineNe
  · by_cases hempty : (space == "") = true
    · simpa only [hempty, if_true, List.nil_append] using htidy
    · simp only [hempty, Bool.false_eq_true, if_false]
      rw [List.append_assoc]
      have hspaceNe : space.toList ≠ [] := fun hnil =>
        hempty (beq_iff_eq.mpr (String.toList_eq_nil_iff.mp hnil))
      exact (Path.parseNamespace_eq_ok hspace).join htidy hspaceNe houtlineNe

end RoutePattern

end NamedRoutes
