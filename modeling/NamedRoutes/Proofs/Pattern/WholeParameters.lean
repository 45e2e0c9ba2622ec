import NamedRoutes.Proofs.Pattern.BuiltText
import NamedRoutes.Proofs.Pattern.ComponentLanguage

/-!
Patterns whose parameters fill everything between two slashes, or between a slash and an end. The
values found in a trimmed path that such a pattern matches leave no slash to disagree about, so that
the same path is built of them again.
-/

namespace NamedRoutes

open Fragment

def Segment.isSlash : Segment → Bool
  | literal text => text == "/"
  | parameter _ => false

/-- Whether two segments may stand side by side where parameters have slashes around them only. -/
def Segment.MayPrecede (a b : Segment) : Prop :=
  (a.parameter?.isSome = true → b.isSlash = true) ∧ (b.parameter?.isSome = true → a.isSlash = true)

instance (a b : Segment) : Decidable (a.MayPrecede b) := inferInstanceAs (Decidable (_ ∧ _))

/-- Whether each parameter of a pattern, with its mark if it is optional, fills everything between
two slashes, or between a slash and an end. -/
def RoutePattern.HasWholeParameters (p : RoutePattern) : Prop :=
  ∀ pair ∈ p.segments.zip p.segments.tail, pair.1.MayPrecede pair.2

instance (p : RoutePattern) : Decidable p.HasWholeParameters :=
  inferInstanceAs (Decidable (∀ _ ∈ _, _))

namespace Piece

/-- Whether optional parameters have only slashes after them, and slashes stand alone. -/
structure IsOrderly (pieces : List Piece) : Prop where
  word : ∀ t, .text t ∈ pieces → '/' ∉ t
  closed : ∀ pair ∈ pieces.zip pieces.tail, ∀ e, pair.1 = .optional e → pair.2 = .slash
  single : ¬ [.slash, .slash] <:+: pieces

variable {piece : Piece} {pieces : List Piece}

theorem IsOrderly.tail (h : IsOrderly (piece :: pieces)) : IsOrderly pieces := by
  refine ⟨fun t ht => h.word t (List.mem_cons_of_mem _ ht), ?_, (single_tail h.single).1⟩
  cases pieces with
  | nil => exact List.forall_mem_nil _
  | cons next rest => exact (List.forall_mem_cons.mp h.closed).2

theorem IsOrderly.head? (h : IsOrderly (.slash :: pieces)) : pieces.head? ≠ some .slash :=
  (single_tail h.single).2 rfl

end Piece

theorem Segment.isSlash_of_piece {s : Segment} (h : s.piece = .slash) : s.isSlash = true := by
  have hsegment := s.eq_of_piece
  rw [h] at hsegment
  obtain rfl : s = .literal "/" := hsegment
  rfl

theorem Segment.MayPrecede.slash_of_optional {a b : Segment} (h : a.MayPrecede b) {e : List Char}
    (ha : a.piece = .optional e) : b.piece = .slash := by
  have hsegment := a.eq_of_piece
  rw [ha] at hsegment
  obtain ⟨q, rfl, _⟩ := hsegment
  have hslash := h.1 rfl
  cases b with
  | literal text =>
      obtain rfl := beq_iff_eq.mp hslash
      rfl
  | parameter q => cases hslash

theorem RoutePattern.HasWholeParameters.isOrderly {p : RoutePattern} (h : p.HasWholeParameters)
    (hproper : Piece.IsProper p.pieces) : Piece.IsOrderly p.pieces := by
  refine ⟨fun t ht => (hproper.word t ht).2.1, ?_, hproper.single⟩
  unfold RoutePattern.pieces
  rw [← List.map_tail, List.zip_map]
  intro pair hpair e he
  obtain ⟨segments, hsegments, rfl⟩ := List.mem_map.mp hpair
  exact (h segments hsegments).slash_of_optional he

namespace Seam

variable {pieces : List Piece} {s : Seam} {values : List (Option (List Char))} {text : List Char}

/-- What comes after a first part ends as the whole does. -/
theorem getLast?_tail {word tail : List Char} (h : (word ++ tail).getLast? ≠ some '/') :
    tail.getLast? ≠ some '/' := by
  intro htail
  rw [List.getLast?_append, htail] at h
  exact h rfl

/-- The seam after a first fragment and some more. -/
theorem through_cons {t : Seam} {f : Fragment} {rest : List Fragment}
    {first more : List (Option (List Char))} {word : List Char} (htakes : f.Takes first word)
    (hnext : s.next f (first ++ more).head?.join.isSome = some t) :
    s.through (f :: rest) (first ++ more) = t.through rest more := by
  rw [through, hnext, Option.bind_some, ← htakes.length, List.drop_left]

/-- Whether there is a seam to go on with: a slash comes last only if neither another slash nor the
end of the text comes next. -/
def GoesOn (s : Seam) (pieces : List Piece) (text : List Char) : Prop :=
  s = .plain ∨ s = .spent ∧ pieces.head? ≠ some .slash ∧ text ≠ []

/-- A text that does not end with a slash keeps path and pattern together, if only slashes come
after optional parameters. -/
theorem exists_through (horderly : Piece.IsOrderly pieces)
    (hspells : Spells (Piece.layout pieces) values text) (hlast : text.getLast? ≠ some '/')
    (hs : s.GoesOn pieces text) : ∃ t, s.through (Piece.layout pieces) values = some t := by
  fun_induction Piece.layout pieces generalizing s values text with
  | case1 e rest ih =>
      obtain ⟨_, _, _, _, htakes, hrest, rfl, rfl⟩ := hspells
      obtain rfl : s = .plain := hs.resolve_right fun hspent => hspent.2.1 rfl
      rw [through_cons htakes rfl]
      exact ih horderly.tail.tail hrest (getLast?_tail hlast) (Or.inl rfl)
  | case2 e rest ih =>
      obtain ⟨_, _, _, _, htakes, hrest, rfl, rfl⟩ := hspells
      have hmore := fun {s} => @ih s _ _ horderly.tail.tail hrest (getLast?_tail hlast)
      have hhead := horderly.tail.head?
      have htakes' := htakes
      rcases htakes with ⟨rfl, rfl⟩ | ⟨v, hv, rfl, rfl⟩
      · -- Left out with the slash after it, so the seam is as before.
        have hsame : s.next (.beforeSlash e) false = some s := by
          rcases hs with rfl | ⟨rfl, _⟩ <;> rfl
        rw [through_cons htakes' hsame]
        exact hmore (hs.imp_right fun hspent => ⟨hspent.1, hhead, hspent.2.2⟩)
      · have hspent : s.next (.beforeSlash e) true = some .spent := by
          rcases hs with rfl | ⟨rfl, _⟩ <;> rfl
        rw [through_cons htakes' hspent]
        -- Its slash comes last now, so there must be more of the text.
        refine hmore (Or.inr ⟨rfl, hhead, fun hnil => hlast ?_⟩)
        simp [hnil]
  | case3 e rest hnext ih =>
      -- Nothing can come after it, since only a slash could.
      obtain rfl : rest = [] := by
        cases rest with
        | nil => rfl
        | cons piece more =>
            obtain rfl : piece = .slash := horderly.closed _ List.mem_cons_self e rfl
            exact absurd rfl (hnext more)
      obtain ⟨_, _, _, _, htakes, ⟨rfl, rfl⟩, rfl, rfl⟩ := hspells
      have htakes' := htakes
      rcases htakes with ⟨rfl, rfl⟩ | ⟨v, hv, rfl, rfl⟩
      · obtain rfl : s = .plain := hs.resolve_right fun hspent => hspent.2.2 rfl
        exact ⟨.lost, through_cons htakes' rfl⟩
      · refine ⟨.plain, through_cons htakes' ?_⟩
        rcases hs with rfl | ⟨rfl, _⟩ <;> rfl
  | case4 e rest ih =>
      obtain ⟨_, _, _, _, htakes, hrest, rfl, rfl⟩ := hspells
      have hplain : ∀ given, s.next (.required e) given = some .plain := fun given => by
        rcases hs with rfl | ⟨rfl, _⟩ <;> cases given <;> rfl
      rw [through_cons htakes (hplain _)]
      exact ih horderly.tail hrest (getLast?_tail hlast) (Or.inl rfl)
  | case5 rest _ ih =>
      obtain ⟨_, _, _, _, htakes, hrest, rfl, rfl⟩ := hspells
      obtain ⟨rfl, rfl⟩ := id htakes
      obtain rfl : s = .plain := hs.resolve_right fun hspent => hspent.2.1 rfl
      rw [through_cons htakes rfl]
      refine ih horderly.tail hrest (getLast?_tail hlast)
        (Or.inr ⟨rfl, horderly.head?, fun hnil => hlast ?_⟩)
      simp [hnil]
  | case6 word rest ih =>
      obtain ⟨_, _, _, _, htakes, hrest, rfl, rfl⟩ := hspells
      have hslash : word ≠ ['/'] := by
        rintro rfl
        exact horderly.word _ List.mem_cons_self List.mem_cons_self
      have hplain : ∀ given, s.next (.literal word) given = some .plain := fun given => by
        rw [next, if_neg hslash]
      rw [through_cons htakes (hplain _)]
      exact ih horderly.tail hrest (getLast?_tail hlast) (Or.inl rfl)
  | case7 => exact ⟨s, rfl⟩

end Seam

theorem Matched.name_mem_of_parameters (m : Matched) {base : Nat} {names : List String}
    {entry : String × String} (h : entry ∈ m.parameters base names) : entry.1 ∈ names := by
  induction names generalizing base with
  | nil => cases h
  | cons name rest ih =>
      rw [Matched.parameters] at h
      split at h
      · split at h
        · exact List.mem_cons_of_mem _ (ih h)
        · rcases List.mem_cons.mp h with rfl | h
          · exact List.mem_cons_self
          · exact List.mem_cons_of_mem _ (ih h)
      · exact List.mem_cons_of_mem _ (ih h)

theorem Matched.parameters_cons (m : Matched) {base : Nat} (name : String) (rest : List String)
    (h : m.group? (base + 1) ≠ some "") : m.parameters base (name :: rest) =
      ((m.group? (base + 1)).map (name, ·)).toList ++ m.parameters (base + 1) rest := by
  rw [Matched.parameters]
  cases hgroup : m.group? (base + 1) with
  | none => rfl
  | some value =>
      have hne : (value == "") = false := beq_false_of_ne fun heq => h (heq ▸ hgroup)
      simp [hne]

/-- The texts of the groups of a match are found by the names of the parameters, as long as none is
empty. -/
theorem Matched.lookup_parameters (m : Matched) (base : Nat) {names : List String}
    (hdistinct : names.Nodup)
    (hgiven : ∀ i ∈ List.range' (base + 1) names.length, m.group? i ≠ some "") :
    names.map (fun name => (m.parameters base names).lookup name) =
      (List.range' (base + 1) names.length).map m.group? := by
  induction names generalizing base with
  | nil => rfl
  | cons name rest ih =>
      rw [List.length_cons, List.range'_succ] at hgiven ⊢
      obtain ⟨hname, hrest⟩ := List.nodup_cons.mp hdistinct
      obtain ⟨hfirst, hothers⟩ := List.forall_mem_cons.mp hgiven
      have hnone : (m.parameters (base + 1) rest).lookup name = none := by
        refine List.lookup_eq_none_iff.mpr fun entry hentry => bne_iff_ne.mpr ?_
        rintro rfl
        exact hname (m.name_mem_of_parameters hentry)
      have hother : ∀ other ∈ rest,
          ((m.group? (base + 1)).map (name, ·)).toList.lookup other = none := by
        intro other hmem
        have hne : (other == name) = false := beq_false_of_ne fun heq => hname (heq ▸ hmem)
        cases m.group? (base + 1) with
        | none => rfl
        | some value => simp [List.lookup_cons, hne]
      have hown : ((m.group? (base + 1)).map (name, ·)).toList.lookup name =
          m.group? (base + 1) := by
        cases m.group? (base + 1) with
        | none => rfl
        | some value => simp
      rw [m.parameters_cons name rest hfirst, List.map_cons, List.map_cons,
        List.lookup_append, hown, hnone, Option.or_none, ← ih (base + 1) hrest hothers]
      congr 1
      refine List.map_congr_left fun other hmem => ?_
      rw [List.lookup_append, hother other hmem, Option.none_or]

namespace Fragment

variable {fragments : List Fragment} {values : List (Option (List Char))} {text : List Char}

theorem Spells.length (h : Spells fragments values text) :
    values.length = parameterCount fragments := by
  induction fragments generalizing values text with
  | nil =>
      obtain ⟨rfl, rfl⟩ := h
      rfl
  | cons f rest ih =>
      obtain ⟨first, word, more, tail, htakes, hrest, rfl, rfl⟩ := h
      rw [List.length_append, htakes.length, ih hrest, ← parameterCount_cons]

theorem Takes.ne_nil {f : Fragment} (h : f.Takes values text) : some [] ∉ values := by
  cases f with
  | literal word =>
      obtain ⟨rfl, rfl⟩ := h
      exact List.not_mem_nil
  | required e =>
      obtain ⟨v, hv, rfl, rfl⟩ := h
      simpa using hv.1.symm
  | _ =>
      rcases h with ⟨rfl, rfl⟩ | ⟨v, hv, rfl, rfl⟩
      · simp
      · simpa using hv.1.symm

/-- No value is empty. -/
theorem Spells.ne_nil (h : Spells fragments values text) : some [] ∉ values := by
  induction fragments generalizing values text with
  | nil =>
      obtain ⟨rfl, rfl⟩ := h
      exact List.not_mem_nil
  | cons f rest ih =>
      obtain ⟨first, word, more, tail, htakes, hrest, rfl, rfl⟩ := h
      exact fun hmem => (List.mem_append.mp hmem).elim htakes.ne_nil (ih hrest)

end Fragment

/-- Values that are given as texts are the texts that are taken from them. -/
theorem givenTexts_texts (values : List (Option (List Char))) :
    givenTexts values.length (values.map fun v => v.map fun text => .text (.ofList text)) =
      values := by
  induction values with
  | nil => rfl
  | cons v rest ih =>
      rw [List.length_cons, List.map_cons, givenTexts, List.tail_cons, ih]
      cases v with
      | none => rfl
      | some text => simp [Value.display]

namespace RoutePattern

variable {p : RoutePattern} {space path : String} {t : Template}

theorem Assembled.nodup_names (h : p.Assembled space path t) : p.names.Nodup := by
  obtain ⟨_, _, _, _, _, hunique⟩ := Template.parse_eq_ok h.template
  rw [h.names]
  exact (Template.firstRepeated?_eq_none.mp hunique).1

/-- There is a name for each parameter. -/
theorem Assembled.length_names (h : p.Assembled space path t) :
    p.names.length = Fragment.parameterCount (Piece.layout p.pieces) := by
  rw [Fragment.parameterCount, Piece.expressions_layout, expressions_pieces, List.length_map,
    ← h.parameterNames, List.length_map]

/-- The values that are found in a path that does not end with a slash fill the segments of its
pattern, so that they become the same path. -/
theorem Assembled.fill_found (h : p.Assembled space path t) (hproper : Piece.IsProper p.pieces)
    (hwhole : p.HasWholeParameters) (hstock : Fragment.AllStock (Piece.layout p.pieces))
    {text : String} (hlast : text.toList.getLast? ≠ some '/') {found : Matched}
    (hmatch : p.expression.fullMatch? text = .ok (some found)) (name : String) :
    ∃ d, Route.fill name p.segments {}
        (p.names.map fun n => ((found.parameters 0 p.names).lookup n).map Value.text) =
          .ok (d, []) ∧
      d.path = text := by
  have hcompiled := h.compiled hstock
  rcases hcompiled.fullMatch?_cases text with ⟨m, values, hm, hspells, hgroups⟩ | ⟨hnone, _⟩
  · obtain rfl : m = found := by
      rw [hmatch] at hm
      exact (Option.some.inj (Except.ok.inj hm)).symm
    have hnumbers : p.expression.groupNumbers = List.range' (0 + 1) p.names.length := by
      rw [Expression.groupNumbers, hcompiled.composed.regex.2, ← h.length_names,
        List.range'_eq_map_range]
      exact List.map_congr_left fun i _ => Nat.add_comm i 1
    rw [Expression.groupTexts, hnumbers] at hgroups
    have hgiven : ∀ i ∈ List.range' (0 + 1) p.names.length, m.group? i ≠ some "" := by
      intro i hi hempty
      have hmem := List.mem_map_of_mem (f := m.group?) hi
      rw [hgroups, hempty] at hmem
      obtain ⟨v, hv, htext⟩ := List.mem_map.mp hmem
      obtain ⟨chars, rfl, hchars⟩ := Option.map_eq_some_iff.mp htext
      obtain rfl := String.ofList_eq_empty_iff.mp hchars
      exact hspells.ne_nil hv
    have harguments : (p.names.map fun n => ((m.parameters 0 p.names).lookup n).map Value.text) =
        values.map fun v => v.map fun text => .text (.ofList text) := by
      have hlookup := m.lookup_parameters 0 h.nodup_names hgiven
      rw [hgroups] at hlookup
      have hvalues := congrArg (List.map (Option.map Value.text)) hlookup
      simpa [Function.comp_def] using hvalues
    obtain ⟨s, hthrough⟩ :=
      Seam.exists_through (hwhole.isOrderly hproper) hspells hlast (Or.inl rfl)
    obtain ⟨_, hpath⟩ := h.drafted hstock hspells hthrough
    have htexts := givenTexts_texts values
    rw [hspells.length] at htexts
    refine ⟨_, (h.fillsAs hstock name _ _ _).mpr ⟨?_, rfl, ?_⟩, ?_⟩
    · rw [harguments, htexts]
      exact ⟨_, hspells⟩
    · rw [harguments, ← hspells.length]
      exact (List.drop_eq_nil_of_le (by simp)).symm
    · rw [harguments, htexts]
      exact String.toList_inj.mp hpath
  · rw [hmatch] at hnone
    cases hnone

end RoutePattern

namespace Component

/-- Whether two pieces may stand side by side where parameters have slashes around them only. -/
def Apart (pair : Piece × Piece) : Prop :=
  (pair.1.expression?.isSome = true → pair.2 = .slash) ∧
    (pair.2.expression?.isSome = true → pair.1 = .slash)

theorem apart_trail (first : Piece) (components : List Component) :
    ∀ pair ∈ (first :: trail components).zip (trail components), Apart pair := by
  induction components generalizing first with
  | nil => exact List.forall_mem_nil _
  | cons c rest ih =>
      have htrail : trail (c :: rest) = .slash :: c.piece :: trail rest := rfl
      rw [htrail]
      refine List.forall_mem_cons.mpr ⟨⟨fun _ => rfl, nofun⟩, ?_⟩
      exact List.forall_mem_cons.mpr ⟨⟨nofun, fun _ => rfl⟩, ih c.piece⟩

theorem apart_texts (texts : List (List Char)) (components : List Component) :
    ∀ pair ∈ (texts.map Piece.ofText ++ trail components).zip
      (texts.map Piece.ofText ++ trail components).tail, Apart pair := by
  induction texts with
  | nil =>
      cases components with
      | nil => exact List.forall_mem_nil _
      | cons c rest => exact (List.forall_mem_cons.mp (apart_trail .slash (c :: rest))).2
  | cons text rest ih =>
      cases rest with
      | nil => exact apart_trail (.ofText text) components
      | cons next more => exact List.forall_mem_cons.mpr ⟨by simp [Apart], ih⟩

theorem apart_pieces (space : String) (components : List Component) :
    ∀ pair ∈ (pieces space components).zip (pieces space components).tail, Apart pair := by
  unfold pieces
  split
  · cases components with
    | nil => exact List.forall_mem_nil _
    | cons c rest => exact apart_trail c.piece rest
  · exact apart_texts _ components

/-- Every path of components has whole parameters without written out expressions. -/
theorem hasWholeParameters {components : List Component} {space : String} {p : RoutePattern}
    (h : WellFormed components) (hp : RoutePattern.compile (path components) space = .ok p) :
    (∀ q ∈ p.parameters, ¬ q.IsCustom) ∧ p.HasWholeParameters := by
  obtain ⟨p', t, hcompile, hassembled, hpieces, _, hcompiled⟩ := exists_assembled h space
  obtain rfl := Except.ok.inj (hp.symm.trans hcompile)
  constructor
  · intro q hq
    have hmem : q.expressionText.toList ∈ p.pieces.filterMap Piece.expression? := by
      rw [p.expressions_pieces]
      exact List.mem_map_of_mem hq
    rw [hpieces, ← Piece.expressions_layout, layout_pieces] at hmem
    exact RoutePattern.not_isCustom_of_isStock (hassembled.anchored q hq) (hcompiled.stock _ hmem)
  · intro pair hpair
    have hmem : (pair.1.piece, pair.2.piece) ∈ p.pieces.zip p.pieces.tail := by
      unfold RoutePattern.pieces
      rw [← List.map_tail, List.zip_map]
      exact List.mem_map_of_mem hpair
    rw [hpieces] at hmem
    obtain ⟨hfirst, hsecond⟩ := apart_pieces space components _ hmem
    simp only [Segment.expression?_piece, Option.isSome_map] at hfirst hsecond
    exact ⟨fun hsome => Segment.isSlash_of_piece (hfirst hsome),
      fun hsome => Segment.isSlash_of_piece (hsecond hsome)⟩

end Component

end NamedRoutes
