import NamedRoutes.Proofs.Pattern.Seams

/-!
Filling the segments of a pattern with values. It succeeds if and only if the fragments of the
pattern can spell the texts of the values, and then the path is built of these fragments.
-/

namespace NamedRoutes

open Fragment

/-- The texts of values for a number of parameters. A value that is missing is left out. -/
def givenTexts : Nat → List (Option Value) → List (Option (List Char))
  | 0, _ => []
  | n + 1, values => values.head?.join.map (·.display.toList) :: givenTexts n values.tail

theorem mem_givenTexts {v : List Char} (n : Nat) {values : List (Option Value)}
    (h : some v ∈ givenTexts n values) : ∃ x, some x ∈ values ∧ v = x.display.toList := by
  induction n generalizing values with
  | zero => cases h
  | succ n ih =>
      cases values with
      | nil =>
          rcases List.mem_cons.mp h with h | h
          · cases h
          · obtain ⟨x, hx, _⟩ := ih h
            cases hx
      | cons value rest =>
          rcases List.mem_cons.mp h with h | h
          · obtain ⟨x, hx, hv⟩ := Option.map_eq_some_iff.mp h.symm
            obtain rfl : value = some x := hx
            exact ⟨x, List.mem_cons_self, hv.symm⟩
          · obtain ⟨x, hx, hv⟩ := ih h
            exact ⟨x, List.mem_cons_of_mem _ hx, hv⟩

/-- Only which values are given matters for a seam. -/
theorem Seam.through_givenTexts (s : Seam) (fragments : List Fragment)
    (values : List (Option Value)) :
    s.through fragments (givenTexts (parameterCount fragments) values) =
      s.through fragments values := by
  induction fragments generalizing s values with
  | nil => rfl
  | cons f rest ih =>
      cases hexpression : f.expression? with
      | none =>
          obtain ⟨word, rfl⟩ : ∃ word, f = .literal word := by
            cases f with
            | literal word => exact ⟨word, rfl⟩
            | _ => cases hexpression
          have hnext : ∀ b b', s.next (.literal word) b = s.next (.literal word) b' :=
            fun b b' => by
            cases s <;> rfl
          have hcount : parameterCount (.literal word :: rest) = parameterCount rest := rfl
          rw [through, through, hcount, hnext _ values.head?.join.isSome]
          congr 1
          funext t
          exact ih t values
      | some e =>
          have hone : parameterCount [f] = 1 := by simp [parameterCount, hexpression]
          have hcount : parameterCount (f :: rest) = parameterCount rest + 1 := by
            rw [parameterCount_cons, hone, Nat.add_comm]
          rw [through, through, hcount, hone, givenTexts]
          have hhead : ((values.head?.join.map (·.display.toList)) ::
              givenTexts (parameterCount rest) values.tail).head?.join.isSome =
                values.head?.join.isSome := by
            cases values.head?.join <;> rfl
          rw [hhead]
          congr 1
          funext t
          rw [List.drop_one, List.drop_one]
          exact ih t values.tail

/-- What a segment is, told from its piece. -/
theorem Segment.eq_of_piece (s : Segment) :
    match s.piece with
    | .slash => s = .literal "/"
    | .text text => s = .literal (.ofList text)
    | .required e => ∃ q, s = .parameter q ∧ q.optional = false ∧ q.expressionText.toList = e
    | .optional e => ∃ q, s = .parameter q ∧ q.optional = true ∧ q.expressionText.toList = e := by
  cases s with
  | literal text =>
      by_cases hslash : text.toList = ['/']
      · have hpiece : (literal text).piece = .slash := if_pos hslash
        rw [hpiece]
        exact congrArg literal (String.toList_inj.mp hslash)
      · have hpiece : (literal text).piece = .text text.toList := if_neg hslash
        rw [hpiece]
        exact congrArg literal String.ofList_toList.symm
  | parameter q =>
      cases hoptional : q.optional with
      | true =>
          have hpiece : (parameter q).piece = .optional q.expressionText.toList := if_pos hoptional
          rw [hpiece]
          exact ⟨q, rfl, hoptional, rfl⟩
      | false =>
          have hpiece : (parameter q).piece = .required q.expressionText.toList :=
            if_neg (Bool.eq_false_iff.mp hoptional)
          rw [hpiece]
          exact ⟨q, rfl, hoptional, rfl⟩

/-- What the first of some segments is, told from its piece. -/
theorem Segment.cons_of_pieces {segments : List Segment} {first : Piece} {pieces : List Piece}
    (h : segments.map piece = first :: pieces) : ∃ rest, rest.map piece = pieces ∧
    match first with
    | .slash => segments = .literal "/" :: rest
    | .text text => segments = .literal (.ofList text) :: rest
    | .required e => ∃ q, segments = .parameter q :: rest ∧ q.optional = false ∧
        q.expressionText.toList = e
    | .optional e => ∃ q, segments = .parameter q :: rest ∧ q.optional = true ∧
        q.expressionText.toList = e := by
  obtain ⟨s, rest, rfl, hs, hrest⟩ := List.map_eq_cons_iff.mp h
  have hsegment := s.eq_of_piece
  rw [hs] at hsegment
  refine ⟨rest, hrest, ?_⟩
  cases first with
  | slash => exact congrArg (· :: rest) hsegment
  | text text => exact congrArg (· :: rest) hsegment
  | required e => exact hsegment.imp fun q hq => ⟨congrArg (· :: rest) hq.1, hq.2⟩
  | optional e => exact hsegment.imp fun q hq => ⟨congrArg (· :: rest) hq.1, hq.2⟩

namespace Fragment

variable {f : Fragment} {e : List Char} {rest : List Fragment}

/-- Whether some fragments can spell the values of their parameters. -/
def Fits (fragments : List Fragment) (values : List (Option (List Char))) : Prop :=
  ∃ text, Spells fragments values text

theorem exists_takes (he : f.expression? = some e) (v : Option (List Char)) :
    (∃ text, f.Takes [v] text) ↔
      match v with
      | none => f ≠ .required e
      | some v => Admits e v := by
  cases v with
  | none =>
      cases f with
      | literal word => cases he
      | required e' =>
          obtain rfl := Option.some.inj he
          refine ⟨fun ⟨_, v, _, hv, _⟩ => ?_, fun hne => absurd rfl hne⟩
          cases hv
      | _ => exact ⟨fun _ => nofun, fun _ => ⟨[], Or.inl ⟨rfl, rfl⟩⟩⟩
  | some v =>
      cases f with
      | literal word => cases he
      | required e' =>
          obtain rfl := Option.some.inj he
          refine ⟨fun ⟨_, w, hw, hv, _⟩ => ?_, fun hv => ⟨v, v, hv, rfl, rfl⟩⟩
          cases hv
          exact hw
      | _ =>
          obtain rfl := Option.some.inj he
          refine ⟨fun ⟨_, htakes⟩ => ?_, fun hv => ⟨_, Or.inr ⟨v, hv, rfl, rfl⟩⟩⟩
          rcases htakes with ⟨hv, _⟩ | ⟨w, hw, hv, _⟩
          · cases hv
          · cases hv
            exact hw

theorem fits_literal (word : List Char) (values : List (Option (List Char))) :
    Fits (.literal word :: rest) values ↔ Fits rest values := by
  constructor
  · rintro ⟨_, _, _, _, tail, ⟨rfl, rfl⟩, hspells, rfl, rfl⟩
    exact ⟨tail, hspells⟩
  · rintro ⟨tail, hspells⟩
    exact ⟨word ++ tail, [], word, values, tail, ⟨rfl, rfl⟩, hspells, rfl, rfl⟩

theorem fits_parameter (he : f.expression? = some e) (v : Option (List Char))
    (more : List (Option (List Char))) :
    Fits (f :: rest) (v :: more) ↔ (∃ text, f.Takes [v] text) ∧ Fits rest more := by
  constructor
  · rintro ⟨_, first, word, others, tail, htakes, hspells, heq, rfl⟩
    have hone : first.length = 1 := htakes.length.trans (by simp [parameterCount, he])
    obtain ⟨a, rfl⟩ := List.length_eq_one_iff.mp hone
    obtain ⟨rfl, rfl⟩ := List.cons.inj heq
    exact ⟨⟨word, htakes⟩, tail, hspells⟩
  · rintro ⟨⟨word, htakes⟩, tail, hspells⟩
    exact ⟨word ++ tail, [v], word, more, tail, htakes, hspells, rfl, rfl⟩

end Fragment

namespace Route

variable {name : String} {segments rest : List Segment} {d d' : PathDraft}
  {values unused : List (Option Value)}

/-- A parameter takes a value that its expression admits, and can only be left out if it is
optional. -/
theorem fill_parameter {q : Parameter} (hanchored : q.IsAnchored)
    (hstock : IsStock q.expressionText.toList) {result : PathDraft × List (Option Value)} :
    fill name (.parameter q :: rest) d values = .ok result ↔
      (match values.head?.join.map (·.display.toList) with
        | none => q.optional = true
        | some v => Admits q.expressionText.toList v) ∧
      fill name rest (d.addOptional (values.head?.join.map (·.display.toList))) values.tail =
        .ok result := by
  rw [fill]
  cases values.head?.join with
  | none =>
      cases hoptional : q.optional with
      | true => simp [PathDraft.addOptional]
      | false => simp
  | some value =>
      have haccepts := accepts_iff hstock hanchored value.display
      simp only [Option.map_some, PathDraft.addOptional, String.ofList_toList, ← haccepts]
      unfold Parameter.accepts
      cases q.value.accepts value.display with
      | error cause => simp [mapError_error, bind, Except.bind]
      | ok accepted => cases accepted <;> simp [mapError_ok, bind, Except.bind]

/-- What it takes to fill segments whose pieces become some fragments. -/
def FillsAs (name : String) (segments : List Segment) (d : PathDraft) (values : List (Option Value))
    (fragments : List Fragment) : Prop :=
  ∀ d' unused, fill name segments d values = .ok (d', unused) ↔
    Fits fragments (givenTexts (parameterCount fragments) values) ∧
      d' = d.addFragments fragments (givenTexts (parameterCount fragments) values) ∧
      unused = values.drop (parameterCount fragments)

theorem FillsAs.literal {fragments : List Fragment} {word : List Char}
    (h : FillsAs name rest (d.addLiteral (.ofList word)) values fragments) :
    FillsAs name (.literal (.ofList word) :: rest) d values (.literal word :: fragments) := by
  intro d' unused
  have hcount : parameterCount (.literal word :: fragments) = parameterCount fragments := rfl
  rw [fill, h d' unused, fits_literal, hcount]
  rfl

/-- A parameter with the slashes beside it that become one fragment. -/
theorem FillsAs.parameter {fragments : List Fragment} {f : Fragment} {e : List Char}
    (he : f.expression? = some e) {first : Option (List Char)}
    (hfirst : first = values.head?.join.map (·.display.toList))
    (hstep : ∀ result, fill name segments d values = .ok result ↔
      (∃ text, f.Takes [first] text) ∧
      fill name rest (d.addFragment first f) values.tail = .ok result)
    (h : FillsAs name rest (d.addFragment first f) values.tail fragments) :
    FillsAs name segments d values (f :: fragments) := by
  intro d' unused
  have hone : parameterCount [f] = 1 := by simp [parameterCount, he]
  have hcount : parameterCount (f :: fragments) = parameterCount fragments + 1 := by
    rw [parameterCount_cons, hone, Nat.add_comm]
  have hadded : d.addFragments (f :: fragments)
      (first :: givenTexts (parameterCount fragments) values.tail) =
      (d.addFragment first f).addFragments fragments
        (givenTexts (parameterCount fragments) values.tail) := by
    rw [PathDraft.addFragments, hone]
    rfl
  rw [hstep, h d' unused, hcount, givenTexts, ← hfirst, fits_parameter he, hadded, and_assoc,
    ← List.drop_tail]

theorem takes_iff_allowed {q : Parameter} {f : Fragment} {e : List Char}
    (he : f.expression? = some e) (hq : q.expressionText.toList = e)
    (hoptional : q.optional = true ↔ f ≠ .required e) (first : Option (List Char)) :
    (match first with
      | none => q.optional = true
      | some v => Admits q.expressionText.toList v) ↔ ∃ text, f.Takes [first] text := by
  rw [exists_takes he, hq]
  cases first with
  | none => exact hoptional
  | some v => exact Iff.rfl

/-- Segments are filled as their fragments say. -/
theorem fillsAs_layout (name : String) (segments : List Segment) (d : PathDraft)
    (values : List (Option Value))
    (hanchored : ∀ q ∈ segments.filterMap Segment.parameter?, q.IsAnchored)
    (hstock : AllStock (Piece.layout (segments.map Segment.piece))) :
    FillsAs name segments d values (Piece.layout (segments.map Segment.piece)) := by
  generalize hpieces : segments.map Segment.piece = pieces at hstock ⊢
  fun_induction Piece.layout pieces generalizing segments d values with
  | case1 e pieces ih =>
      obtain ⟨_, hmore, rfl⟩ := Segment.cons_of_pieces hpieces
      obtain ⟨rest, rfl, q, rfl, hoptional, rfl⟩ := Segment.cons_of_pieces hmore
      obtain ⟨hq, hothers⟩ := List.forall_mem_cons.mp hanchored
      refine FillsAs.parameter rfl rfl (fun result => ?_) (ih rest _ _ hothers rfl hstock.tail)
      rw [fill, fill_parameter hq (hstock.head rfl),
        takes_iff_allowed (f := .afterSlash _) rfl rfl
        ⟨fun _ heq => (by cases heq), fun _ => hoptional⟩]
      rfl
  | case2 e pieces ih =>
      obtain ⟨_, hmore, q, rfl, hoptional, rfl⟩ := Segment.cons_of_pieces hpieces
      obtain ⟨rest, rfl, rfl⟩ := Segment.cons_of_pieces hmore
      obtain ⟨hq, hothers⟩ := List.forall_mem_cons.mp hanchored
      refine FillsAs.parameter rfl rfl (fun result => ?_) (ih rest _ _ hothers rfl hstock.tail)
      rw [fill_parameter hq (hstock.head rfl), fill,
        takes_iff_allowed (f := .beforeSlash _) rfl rfl
        ⟨fun _ heq => (by cases heq), fun _ => hoptional⟩]
      rfl
  | case3 e pieces _ ih =>
      obtain ⟨rest, rfl, q, rfl, hoptional, rfl⟩ := Segment.cons_of_pieces hpieces
      obtain ⟨hq, hothers⟩ := List.forall_mem_cons.mp hanchored
      refine FillsAs.parameter rfl rfl (fun result => ?_) (ih rest _ _ hothers rfl hstock.tail)
      rw [fill_parameter hq (hstock.head rfl),
        takes_iff_allowed (f := .optional _) rfl rfl
        ⟨fun _ heq => (by cases heq), fun _ => hoptional⟩]
      rfl
  | case4 e pieces ih =>
      obtain ⟨rest, rfl, q, rfl, hrequired, rfl⟩ := Segment.cons_of_pieces hpieces
      obtain ⟨hq, hothers⟩ := List.forall_mem_cons.mp hanchored
      refine FillsAs.parameter rfl rfl (fun result => ?_) (ih rest _ _ hothers rfl hstock.tail)
      rw [fill_parameter hq (hstock.head rfl),
        takes_iff_allowed (f := .required _) rfl rfl (by simp [hrequired])]
      rfl
  | case5 pieces _ ih =>
      obtain ⟨rest, rfl, rfl⟩ := Segment.cons_of_pieces hpieces
      exact FillsAs.literal (ih rest _ _ hanchored rfl hstock.tail)
  | case6 text pieces ih =>
      obtain ⟨rest, rfl, rfl⟩ := Segment.cons_of_pieces hpieces
      exact FillsAs.literal (ih rest _ _ hanchored rfl hstock.tail)
  | case7 =>
      obtain rfl := List.map_eq_nil_iff.mp hpieces
      intro d' unused
      constructor
      · intro hfill
        cases hfill
        exact ⟨⟨[], rfl, rfl⟩, rfl, rfl⟩
      · rintro ⟨_, rfl, rfl⟩
        rfl

end Route

end NamedRoutes
