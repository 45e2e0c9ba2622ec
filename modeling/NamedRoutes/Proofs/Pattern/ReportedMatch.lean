import NamedRoutes.Proofs.Pattern.Language

/-!
What the groups of a match hold, and that every match can be reported. The group of a parameter lies
where its expression spans the path, or it is missing because the parameter may be left out. An
expression that is one by itself goes forward, so no group of a match ends before it starts.
-/

namespace NamedRoutes

open Regex

namespace Fragment

/-- The expression of the parameter that a fragment stands for, and whether it may be left out. -/
def slot? : Fragment → Option (List Char × Bool)
  | literal _ => none
  | required e => some (e, false)
  | optional e | afterSlash e | beforeSlash e => some (e, true)

/-- Whether the edges of a group are those of a part of a text that an expression spans, or are
missing where that is allowed. -/
def Bounds (whole : List Char) (slot : List Char × Bool) (edges : Option (Nat × Nat)) : Prop :=
  (slot.2 = true ∧ edges = none) ∨
    ∃ p q : Place, p.text = whole ∧ (body slot.1).Spans p q ∧ edges = some (p.index, q.index)

variable {base : Nat} {s u : Stand} {whole : List Char}

/-- What one fragment records. -/
theorem bounds_of_way (f : Fragment) (hs : s.Within base) (hwhole : s.place.text = whole)
    (h : f.way base s u) :
    s.Recorded (Bounds whole) u base f.slot?.toList ∧ u.place.text = whole := by
  have hgroup : ∀ {e : List Char} {optional : Bool} {s u : Stand}, s.Within base →
      s.place.text = whole →
      Way.recording (base + 1) (body e).Spans s u →
        s.Recorded (Bounds whole) u base [(e, optional)] ∧ u.place.text = whole := by
    rintro e optional s u hs hwhole ⟨hspan, hmarks⟩
    exact ⟨.given hs hmarks (Or.inr ⟨s.place, u.place, hwhole, hspan, rfl⟩),
      hspan.text_eq.trans hwhole⟩
  have homitted : ∀ {e : List Char}, s.Recorded (Bounds whole) s base [(e, true)] ∧
      s.place.text = whole :=
    ⟨.omitted hs (Or.inl ⟨rfl, rfl⟩), hwhole⟩
  cases f with
  | literal text =>
      obtain ⟨hleads, hmarks⟩ := h
      exact ⟨.none hmarks, hleads.text_eq.trans hwhole⟩
  | required e => exact hgroup hs hwhole h
  | optional e =>
      rcases h with rfl | h
      · exact homitted
      · exact hgroup hs hwhole h
  | afterSlash e =>
      rcases h with rfl | ⟨w, ⟨hslash, hw⟩, h⟩
      · exact homitted
      · have hwithin : w.Within base := by
          unfold Stand.Within
          rwa [hw]
        obtain ⟨hrecorded, htext⟩ := hgroup hwithin (hslash.text_eq.trans hwhole) h
        exact ⟨(Stand.Recorded.none hw).andThen hrecorded, htext⟩
  | beforeSlash e =>
      rcases h with rfl | ⟨w, h, ⟨hslash, hmarks⟩⟩
      · exact homitted
      · obtain ⟨hrecorded, htext⟩ := hgroup hs hwhole h
        exact ⟨hrecorded.moved hmarks, hslash.text_eq.trans htext⟩

theorem length_slot? (f : Fragment) : f.slot?.toList.length = parameterCount [f] := by
  cases f <;> rfl

/-- What some fragments in turn record. -/
theorem bounds_of_wayThrough (fragments : List Fragment) (hall : AllStandalone fragments)
    (hs : s.Within base) (hwhole : s.place.text = whole) (h : wayThrough base fragments s u) :
    s.Recorded (Bounds whole) u base (fragments.flatMap (·.slot?.toList)) := by
  induction fragments generalizing base s with
  | nil =>
      obtain rfl : u = s := h
      exact .none rfl
  | cons f rest ih =>
      obtain ⟨w, hw, hu⟩ := h
      obtain ⟨hrecorded, htext⟩ := f.bounds_of_way hs hwhole hw
      have hwithin :=
        ((follows_way base f (fun e he => forall_head hall he) false).grows s w hs hw).2
      have hrest := ih (forall_tail hall) hwithin htext hu
      rw [← length_slot?] at hrest
      exact hrecorded.andThen hrest

/-- A group whose edges lie so does not end before it starts. -/
theorem Bounds.isReversed {slot : List Char × Bool} {m : Marks} {number : Nat}
    (h : Bounds whole slot (m.edges? number)) : m.isReversed number = false := by
  rcases h with ⟨_, hedges⟩ | ⟨p, q, _, hspans, hedges⟩
  · simp [Marks.isReversed, hedges]
  · obtain ⟨_, hleads⟩ := hspans.leads
    have hle := hleads.span.1
    simp [Marks.isReversed, hedges, hle]

theorem length_slots (fragments : List Fragment) :
    (fragments.flatMap (·.slot?.toList)).length = parameterCount fragments := by
  induction fragments with
  | nil => rfl
  | cons f rest ih =>
      rw [List.flatMap_cons, List.length_append, ih, length_slot?, parameterCount_cons f rest]

variable {e : Expression} {fragments : List Fragment}

/-- What is left of a match by itself: the group of each slot lies where it may. -/
theorem Composed.bounds_of_ending (h : Composed e fragments) {text : List Char} {m : Marks}
    (hending : (Regex.sequence (allRegexes 0 fragments)).ending? (.start text) = some m) {i : Nat}
    {slot : List Char × Bool} (hslot : (fragments.flatMap (·.slot?.toList))[i]? = some slot) :
    Bounds text slot (m.edges? (i + 1)) := by
  have hwithin : Stand.Within 0 ⟨.start text, {}⟩ := Nat.le_refl _
  obtain ⟨u, hu, _, rfl⟩ :=
    ((follows_wayThrough 0 fragments h.standalone false).ending? text).1 m hending
  have hbound := (bounds_of_wayThrough fragments h.standalone hwithin rfl hu).items i slot hslot
  rwa [Nat.zero_add] at hbound

/-- Either there is no match, or it is reported, and each group lies where its expression spans the
text. -/
theorem Composed.fullMatch?_cases (h : Composed e fragments) (text : String) :
    e.fullMatch? text = .ok none ∨
    ∃ m : Marks, e.fullMatch? text = .ok (some ⟨text.toList, m⟩) ∧
      ∀ (i : Nat) slot, (fragments.flatMap (·.slot?.toList))[i]? = some slot →
        Bounds text.toList slot (m.edges? (i + 1)) := by
  unfold Expression.fullMatch?
  rw [h.fullMatch?_eq]
  cases hending : (Regex.sequence (allRegexes 0 fragments)).ending? (.start text.toList) with
  | none => exact Or.inl rfl
  | some m =>
      have hbounds : ∀ (i : Nat) slot, (fragments.flatMap (·.slot?.toList))[i]? = some slot →
          Bounds text.toList slot (m.edges? (i + 1)) :=
        fun _ _ hslot => h.bounds_of_ending hending hslot
      have hreversed : e.groupNumbers.any m.isReversed = false := by
        rw [Expression.groupNumbers, h.regex.2, ← length_slots, List.any_map, List.any_eq_false]
        intro i hi
        have hslot := List.getElem?_eq_getElem (List.mem_range.mp hi)
        rw [Function.comp_apply, (hbounds i _ hslot).isReversed]
        exact Bool.false_ne_true
      refine Or.inr ⟨m, ?_, hbounds⟩
      simp only [hreversed, Bool.false_eq_true, if_false]

/-- Each group of a match lies where its expression spans the text. -/
theorem Composed.bounds (h : Composed e fragments) {text : String} {own : Matched}
    (hmatch : e.fullMatch? text = .ok (some own)) {i : Nat} {slot : List Char × Bool}
    (hslot : (fragments.flatMap (·.slot?.toList))[i]? = some slot) :
    own.text = text.toList ∧ Bounds text.toList slot (own.marks.edges? (i + 1)) := by
  rcases h.fullMatch?_cases text with hnone | ⟨m, hsome, hbounds⟩
  · rw [hnone] at hmatch
    cases hmatch
  · rw [hsome] at hmatch
    cases hmatch
    exact ⟨rfl, hbounds i slot hslot⟩

theorem Composed.fullMatch?_ne_error (h : Composed e fragments) (text : String)
    (cause : MatchError) :
    e.fullMatch? text ≠ .error cause := by
  rcases h.fullMatch?_cases text with hnone | ⟨m, hsome, _⟩
  · rw [hnone]
    exact nofun
  · rw [hsome]
    exact nofun

end Fragment

namespace RoutePattern

/-- A pattern whose parameters have self-contained expressions is made of fragments with such. -/
theorem exists_composed {p : RoutePattern} (hp : p.IsCompiled)
    (hself : ∀ q ∈ p.parameters, q.IsSelfContained) :
    ∃ fragments, Fragment.Composed p.expression fragments := by
  obtain ⟨path, space, hcompile⟩ := hp
  obtain ⟨fragments, hpasted⟩ := pasted_of_compile hcompile
  refine ⟨fragments, hpasted.standalone hself, ?_⟩
  rw [← hpasted.text, String.ofList_toList]
  exact hpasted.expression

/-- Every match of such a pattern can be reported. -/
theorem fullMatch?_ne_error {p : RoutePattern} (hp : p.IsCompiled)
    (hself : ∀ q ∈ p.parameters, q.IsSelfContained) (path : String) (cause : MatchError) :
    p.expression.fullMatch? path ≠ .error cause := by
  obtain ⟨fragments, hcomposed⟩ := exists_composed hp hself
  exact hcomposed.fullMatch?_ne_error path cause

end RoutePattern

end NamedRoutes
