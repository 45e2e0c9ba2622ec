import NamedRoutes.Proofs.Pattern.Filling
import NamedRoutes.Proofs.Pattern.Margins

/-!
The text of a built path. If the values leave no slash to disagree about, it is a text that the
fragments of the pattern spell, it is trimmed, and it starts with the namespace.
-/

namespace NamedRoutes

open Fragment

namespace Piece

variable {pieces : List Piece} {values : List (Option (List Char))} {text : List Char}

theorem literal_mem_layout {word : List Char} (h : .literal word ∈ layout pieces) :
    word = ['/'] ∨ .text word ∈ pieces := by
  fun_induction layout pieces with
  | case1 e rest ih => simpa using ih (by simpa using h)
  | case2 e rest ih => simpa using ih (by simpa using h)
  | case3 e rest _ ih => simpa using ih (by simpa using h)
  | case4 e rest ih => simpa using ih (by simpa using h)
  | case5 rest _ ih =>
      rcases List.mem_cons.mp h with heq | h
      · exact Or.inl (Fragment.literal.inj heq)
      · exact (ih h).imp_right (List.mem_cons_of_mem _)
  | case6 t rest ih =>
      rcases List.mem_cons.mp h with heq | h
      · exact Or.inr (Fragment.literal.inj heq ▸ List.mem_cons_self)
      · exact (ih h).imp_right (List.mem_cons_of_mem _)
  | case7 => cases h

theorem isClean_of_mem_layout (hword : ∀ t, .text t ∈ pieces → t ≠ [] ∧ '/' ∉ t) {f : Fragment}
    (h : f ∈ layout pieces) : f.IsClean := by
  cases f with
  | literal word => exact (literal_mem_layout h).imp_right (hword word)
  | _ => trivial

/-- The pieces after some piece hold no two slashes in a row if the whole does not, and do not start
with a slash if that piece is one. -/
theorem single_tail {piece : Piece} (h : ¬ [.slash, .slash] <:+: piece :: pieces) :
    ¬ [.slash, .slash] <:+: pieces ∧ (piece = .slash → pieces.head? ≠ some .slash) := by
  refine ⟨fun hpart => h (hpart.trans (List.suffix_cons _ _).isInfix), ?_⟩
  rintro rfl hhead
  obtain ⟨rest, rfl⟩ := List.head?_eq_some_iff.mp hhead
  exact h ⟨[], rest, rfl⟩

theorem head?_word {word : List Char} (hne : word ≠ []) (hslash : '/' ∉ word) (rest : List Char) :
    (word ++ rest).head? ≠ some '/' := by
  cases word with
  | nil => exact absurd rfl hne
  | cons c more =>
      intro hhead
      exact hslash (Option.some.inj hhead ▸ List.mem_cons_self)

/-- What pieces spell that do not start with a slash does not start with one either, whatever is
left out. -/
theorem head?_spelled (hword : ∀ t, .text t ∈ pieces → t ≠ [] ∧ '/' ∉ t)
    (hfirst : pieces.head? ≠ some .slash) (hsingle : ¬ [.slash, .slash] <:+: pieces)
    (hstock : AllStock (layout pieces)) (h : Spells (layout pieces) values text) :
    text.head? ≠ some '/' := by
  have hvalue : ∀ {e v : List Char}, IsStock e → Admits e v →
      ∀ rest, (v ++ rest).head? ≠ some '/' :=
    fun he hv => head?_word hv.1 (slash_not_mem_of_admits he hv)
  fun_induction layout pieces generalizing values text with
  | case1 e rest ih => exact absurd rfl hfirst
  | case2 e rest ih =>
      obtain ⟨hsingle', _⟩ := single_tail hsingle
      obtain ⟨hsingle'', hhead⟩ := single_tail hsingle'
      obtain ⟨_, _, _, _, htakes, hrest, _, rfl⟩ := h
      rcases htakes with ⟨_, rfl⟩ | ⟨v, hv, _, rfl⟩
      · exact ih (fun t ht => hword t (by simp [ht])) (hhead rfl) hsingle'' hstock.tail hrest
      · rw [List.append_assoc]
        exact hvalue (hstock.head rfl) hv _
  | case3 e rest hnext ih =>
      obtain ⟨_, _, _, _, htakes, hrest, _, rfl⟩ := h
      rcases htakes with ⟨_, rfl⟩ | ⟨v, hv, _, rfl⟩
      · refine ih (fun t ht => hword t (by simp [ht])) (fun hhead => ?_) (single_tail hsingle).1
          hstock.tail hrest
        obtain ⟨more, rfl⟩ := List.head?_eq_some_iff.mp hhead
        exact hnext more rfl
      · exact hvalue (hstock.head rfl) hv _
  | case4 e rest ih =>
      obtain ⟨_, _, _, _, ⟨v, hv, _, rfl⟩, _, _, rfl⟩ := h
      exact hvalue (hstock.head rfl) hv _
  | case5 rest _ ih => exact absurd rfl hfirst
  | case6 t rest ih =>
      obtain ⟨_, _, _, _, ⟨_, rfl⟩, _, _, rfl⟩ := h
      obtain ⟨hne, hslash⟩ := hword _ List.mem_cons_self
      exact head?_word hne hslash _
  | case7 =>
      obtain ⟨_, rfl⟩ := h
      intro hhead
      cases hhead

end Piece

namespace Seam

variable {pieces : List Piece} {s : Seam}

theorem next_eq_spent {f : Fragment} {given : Bool} (h : s.next f given = some .spent) :
    f = .literal ['/'] ∨ ∃ e, f = .beforeSlash e := by
  cases f with
  | literal word =>
      by_cases hslash : word = ['/']
      · exact Or.inl (congrArg Fragment.literal hslash)
      · simp [next, hslash] at h
  | beforeSlash e => exact Or.inr ⟨e, rfl⟩
  | _ => cases s <;> cases given <;> cases h

/-- A slash comes last after some fragments if it does after the last of them. -/
theorem through_cons_spent {α : Type} {values : List (Option α)} {f : Fragment} {rest : List Piece}
    (h : s.through (f :: Piece.layout rest) values = some .spent)
    (ih : ∀ {t : Seam} {values : List (Option α)},
      t.through (Piece.layout rest) values = some .spent →
      rest = [] ∧ t = .spent ∨ rest.getLast? = some .slash) :
    rest = [] ∧ (f = .literal ['/'] ∨ ∃ e, f = .beforeSlash e) ∨
      ∀ before, (before ++ rest).getLast? = some .slash := by
  obtain ⟨t, hnext, hmore⟩ := Option.bind_eq_some_iff.mp h
  rcases ih hmore with ⟨hnil, rfl⟩ | hlast
  · exact Or.inl ⟨hnil, next_eq_spent hnext⟩
  · exact Or.inr fun before => by rw [List.getLast?_append, hlast, Option.some_or]

/-- A slash can only come last if it comes last among the pieces. -/
theorem getLast?_of_through_spent {α : Type} {values : List (Option α)}
    (hword : ∀ t, .text t ∈ pieces → t ≠ [] ∧ '/' ∉ t)
    (h : s.through (Piece.layout pieces) values = some .spent) :
    pieces = [] ∧ s = .spent ∨ pieces.getLast? = some .slash := by
  fun_induction Piece.layout pieces generalizing s values with
  | case1 e rest ih =>
      rcases through_cons_spent h (ih fun t ht => hword t (by simp [ht])) with ⟨_, hf⟩ | hlast
      · rcases hf with heq | ⟨_, heq⟩ <;> cases heq
      · exact Or.inr (hlast [.slash, .optional e])
  | case2 e rest ih =>
      rcases through_cons_spent h (ih fun t ht => hword t (by simp [ht])) with ⟨rfl, _⟩ | hlast
      · exact Or.inr rfl
      · exact Or.inr (hlast [.optional e, .slash])
  | case3 e rest _ ih =>
      rcases through_cons_spent h (ih fun t ht => hword t (by simp [ht])) with ⟨_, hf⟩ | hlast
      · rcases hf with heq | ⟨_, heq⟩ <;> cases heq
      · exact Or.inr (hlast [.optional e])
  | case4 e rest ih =>
      rcases through_cons_spent h (ih fun t ht => hword t (by simp [ht])) with ⟨_, hf⟩ | hlast
      · rcases hf with heq | ⟨_, heq⟩ <;> cases heq
      · exact Or.inr (hlast [.required e])
  | case5 rest _ ih =>
      rcases through_cons_spent h (ih fun t ht => hword t (by simp [ht])) with ⟨rfl, _⟩ | hlast
      · exact Or.inr rfl
      · exact Or.inr (hlast [.slash])
  | case6 t rest ih =>
      rcases through_cons_spent h (ih fun t ht => hword t (by simp [ht])) with ⟨_, hf⟩ | hlast
      · rcases hf with heq | ⟨_, heq⟩
        · have hslash := (hword t List.mem_cons_self).2
          rw [Fragment.literal.inj heq] at hslash
          exact absurd List.mem_cons_self hslash
        · cases heq
      · exact Or.inr (hlast [.text t])
  | case7 => exact Or.inl ⟨rfl, Option.some.inj h⟩

end Seam

namespace Fragment

/-- Each character that is spelled comes from literal text, from a value, or is a slash. -/
theorem Spells.mem {fragments : List Fragment} {values : List (Option (List Char))}
    {text : List Char} (h : Spells fragments values text) {c : Char} (hc : c ∈ text) :
    c = '/' ∨ (∃ word, .literal word ∈ fragments ∧ c ∈ word) ∨ ∃ v, some v ∈ values ∧ c ∈ v := by
  induction fragments generalizing values text with
  | nil =>
      obtain ⟨_, rfl⟩ := h
      cases hc
  | cons f rest ih =>
      obtain ⟨first, word, more, tail, htakes, hrest, rfl, rfl⟩ := h
      have hgiven : ∀ v, first = [some v] → c ∈ v →
          c = '/' ∨ (∃ word, .literal word ∈ f :: rest ∧ c ∈ word) ∨
            ∃ v, some v ∈ first ++ more ∧ c ∈ v := by
        rintro v rfl hv
        exact Or.inr (Or.inr ⟨v, List.mem_cons_self, hv⟩)
      rcases List.mem_append.mp hc with hc | hc
      · cases f with
        | literal word =>
            obtain ⟨_, rfl⟩ := htakes
            exact Or.inr (Or.inl ⟨_, List.mem_cons_self, hc⟩)
        | required e =>
            obtain ⟨v, _, hfirst, rfl⟩ := htakes
            exact hgiven _ hfirst hc
        | optional e =>
            rcases htakes with ⟨_, rfl⟩ | ⟨v, _, hfirst, rfl⟩
            · cases hc
            · exact hgiven _ hfirst hc
        | afterSlash e =>
            rcases htakes with ⟨_, rfl⟩ | ⟨v, _, hfirst, rfl⟩
            · cases hc
            · exact (List.mem_cons.mp hc).elim Or.inl (hgiven _ hfirst)
        | beforeSlash e =>
            rcases htakes with ⟨_, rfl⟩ | ⟨v, _, hfirst, rfl⟩
            · cases hc
            · rcases List.mem_append.mp hc with hc | hc
              · exact hgiven _ hfirst hc
              · exact Or.inl (List.mem_singleton.mp hc)
      · rcases ih hrest hc with hslash | ⟨word, hword, hmem⟩ | ⟨v, hv, hmem⟩
        · exact Or.inl hslash
        · exact Or.inr (Or.inl ⟨word, List.mem_cons_of_mem _ hword, hmem⟩)
        · exact Or.inr (Or.inr ⟨v, List.mem_append_right _ hv, hmem⟩)

end Fragment

namespace RoutePattern

variable {p : RoutePattern} {space path : String} {t : Template}

/-- Whether values leave path and pattern nothing to disagree about: each parameter that is left out
takes the same slash along on both sides. -/
def IsAligned (p : RoutePattern) (values : List (Option Value)) : Prop :=
  (Seam.plain.through (Piece.layout p.pieces) values).isSome = true

instance (p : RoutePattern) (values : List (Option Value)) : Decidable (p.IsAligned values) :=
  inferInstanceAs (Decidable (_ = true))

/-- The namespace stays literal text. Only the slash behind it may be taken along. -/
theorem Assembled.layout_eq (h : p.Assembled space path t) (hspace : space ≠ "") :
    ∃ rest, p.pieces = (Path.pieces space.toList).map .ofText ++ .slash :: rest ∧
      Piece.layout p.pieces =
        (Path.pieces space.toList).map .literal ++ Piece.layout (.slash :: rest) := by
  have hpieces : ∃ rest, p.pieces = (Path.pieces space.toList).map .ofText ++ .slash :: rest := by
    rw [h.pieces, Template.pieces, if_neg (by simpa using hspace), Path.pieces_append_slash,
      List.map_append, List.append_assoc]
    exact ⟨_, rfl⟩
  obtain ⟨rest, hrest⟩ := hpieces
  have hslash : ∀ e, (Piece.slash :: rest).head? ≠ some (.optional e) := fun e => by simp
  exact ⟨rest, hrest, by rw [hrest, Piece.layout_texts hslash]⟩

/-- What is spelled starts with the namespace. -/
theorem Assembled.starts_with_space (h : p.Assembled space path t)
    {values : List (Option (List Char))} {text : List Char}
    (hspells : Spells (Piece.layout p.pieces) values text) :
    space.toList <+: text := by
  by_cases hempty : space = ""
  · rw [hempty]
    exact List.nil_prefix
  · obtain ⟨rest, _, hlayout⟩ := h.layout_eq hempty
    rw [hlayout] at hspells
    obtain ⟨tail, _, rfl⟩ := (spells_literals _).mp hspells
    rw [Path.flatten_pieces]
    exact List.prefix_append _ _

/-- A path is built of what the fragments spell, as long as there is a seam. -/
theorem Assembled.drafted (h : p.Assembled space path t) (hstock : AllStock (Piece.layout p.pieces))
    {given : List (Option (List Char))} {text : List Char} {s : Seam}
    (hspells : Spells (Piece.layout p.pieces) given text)
    (hthrough : Seam.plain.through (Piece.layout p.pieces) given = some s) :
    s.At (({} : PathDraft).addFragments (Piece.layout p.pieces) given) ∧
      (({} : PathDraft).addFragments (Piece.layout p.pieces) given).path.toList = text := by
  have hclean : ∀ f ∈ Piece.layout p.pieces, f.IsClean := fun f hf =>
    Piece.isClean_of_mem_layout (fun _ hmem => h.word hmem) hf
  obtain ⟨hat, htext⟩ := Seam.at_start.addFragments hclean hstock hspells hthrough
  exact ⟨hat, (PathDraft.toList_path _).trans htext⟩

theorem Assembled.fillsAs (h : p.Assembled space path t) (hstock : AllStock (Piece.layout p.pieces))
    (name : String) (values : List (Option Value)) :
    Route.FillsAs name p.segments {} values (Piece.layout p.pieces) :=
  Route.fillsAs_layout name p.segments {} values h.anchored hstock

/-- The text of a built path, as long as the values are aligned. -/
theorem Assembled.built_text (h : p.Assembled space path t)
    (hstock : AllStock (Piece.layout p.pieces)) {name : String}
    {values unused : List (Option Value)} {d : PathDraft}
    (hfill : Route.fill name p.segments {} values = .ok (d, unused))
    (haligned : p.IsAligned values) :
    ∃ given s, Spells (Piece.layout p.pieces) given d.path.toList ∧
      (∀ v, some v ∈ given → ∃ x, some x ∈ values ∧ v = x.display.toList) ∧
      Seam.plain.through (Piece.layout p.pieces) values = some s ∧ s.At d := by
  obtain ⟨⟨text, hspells⟩, rfl, _⟩ := (h.fillsAs hstock name values d unused).mp hfill
  obtain ⟨s, hthrough⟩ := Option.isSome_iff_exists.mp haligned
  have hgiven := Seam.plain.through_givenTexts (Piece.layout p.pieces) values
  obtain ⟨hat, htext⟩ := h.drafted hstock hspells (hgiven.trans hthrough)
  exact ⟨_, s, htext ▸ hspells, fun v hv => mem_givenTexts _ hv, hthrough, hat⟩

/-- A built path without blanks in its values is trimmed. -/
theorem Assembled.built_trimmed (h : p.Assembled space path t) (hproper : Piece.IsProper p.pieces)
    (hstock : AllStock (Piece.layout p.pieces)) {name : String}
    {values unused : List (Option Value)} {d : PathDraft}
    (hfill : Route.fill name p.segments {} values = .ok (d, unused)) (haligned : p.IsAligned values)
    (hblank : ∀ v, some v ∈ values → ' ' ∉ v.display.toList) :
    Path.trim (Path.wrap d.path) = d.path := by
  obtain ⟨given, s, hspells, hvalues, hthrough, hat⟩ := h.built_text hstock hfill haligned
  have hword : ∀ t, .text t ∈ p.pieces → t ≠ [] ∧ '/' ∉ t := fun _ hmem => h.word hmem
  have hnone : ' ' ∉ d.path.toList := by
    intro hmem
    rcases hspells.mem hmem with hslash | ⟨word, hliteral, hc⟩ | ⟨v, hv, hc⟩
    · cases hslash
    · rcases Piece.literal_mem_layout hliteral with rfl | htext
      · exact absurd (List.mem_singleton.mp hc) (by decide)
      · exact (hproper.word word htext).2.2 hc
    · obtain ⟨x, hx, rfl⟩ := hvalues v hv
      exact hblank x hx hc
  have hmargin : ∀ c ∈ d.path.toList, c ≠ '/' → Path.isMargin c = false := by
    intro c hc hslash
    have hspace : c ≠ ' ' := fun heq => hnone (heq ▸ hc)
    simp [Path.isMargin, hslash, hspace]
  refine Path.trim_wrap (fun c hc => ?_) fun c hc => ?_
  · refine hmargin c (List.mem_of_mem_head? hc) fun heq => ?_
    exact Piece.head?_spelled hword hproper.first hproper.single hstock hspells (heq ▸ hc)
  · refine hmargin c (List.mem_of_getLast? hc) fun heq => ?_
    rw [PathDraft.toList_path, heq] at hc
    rw [hat.last hc] at hthrough
    rcases Seam.getLast?_of_through_spent hword hthrough with ⟨hnil, _⟩ | hlast
    · exact hproper.nonempty hnil
    · exact hproper.last hlast

end RoutePattern

end NamedRoutes
