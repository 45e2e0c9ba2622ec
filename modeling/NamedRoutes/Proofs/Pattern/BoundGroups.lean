import NamedRoutes.Proofs.Pattern.Layout
import NamedRoutes.Proofs.Pattern.ReportedMatch

/-!
What the groups of a match hold. The group of a parameter lies where its expression spans the path,
or it is missing because the parameter may be left out. What a local expression spans in a path it
also matches by itself, so its parameter accepts what the group holds.
-/

namespace NamedRoutes

open Regex

namespace Fragment

variable {whole : List Char}

/-- A group is missing where that is allowed, or holds a text that its expression spans. -/
theorem Bounds.group? {m : Matched} {slot : List Char × Bool} {number : Nat}
    (h : Bounds whole slot (m.marks.edges? number)) (htext : m.text = whole) :
    (slot.2 = true ∧ m.group? number = none) ∨
      ∃ (p q : Place) (v : List Char), (body slot.1).Spans p q ∧ p.Leads v q ∧
        m.group? number = some (.ofList v) := by
  obtain ⟨hoptional, hedges⟩ | ⟨p, q, hwhole, hspans, hedges⟩ := h
  · refine Or.inl ⟨hoptional, ?_⟩
    simp [Matched.group?, Marks.text?, Marks.span?, hedges]
  · obtain ⟨v, hleads⟩ := hspans.leads
    have hdelimits := hleads.delimits
    rw [hwhole, ← hedges] at hdelimits
    refine Or.inr ⟨p, q, v, hspans, hleads, ?_⟩
    rw [Matched.group?, htext, hdelimits.text?.1]
    rfl

end Fragment

namespace Piece

/-- The expression of a parameter, and whether it may be left out. -/
def slot? : Piece → Option (List Char × Bool)
  | slash | text _ => none
  | required e => some (e, false)
  | optional e => some (e, true)

theorem slot?_ofText (text : List Char) : (ofText text).slot? = none := by
  unfold ofText
  split <;> rfl

theorem slot?_ofExpression (e : List Char) (optional : Bool) :
    (ofExpression e optional).slot? = some (e, optional) := by
  cases optional <;> rfl

theorem slots_layout (pieces : List Piece) :
    (layout pieces).flatMap (·.slot?.toList) = pieces.flatMap (·.slot?.toList) := by
  fun_induction layout pieces with
  | case1 e rest ih =>
      rw [List.flatMap_cons, ih]
      rfl
  | case2 e rest ih =>
      rw [List.flatMap_cons, ih]
      rfl
  | case3 e rest _ ih =>
      rw [List.flatMap_cons, ih]
      rfl
  | case4 e rest ih =>
      rw [List.flatMap_cons, ih]
      rfl
  | case5 rest _ ih =>
      rw [List.flatMap_cons, ih]
      rfl
  | case6 t rest ih =>
      rw [List.flatMap_cons, ih]
      rfl
  | case7 => rfl

end Piece

theorem RoutePattern.slots_pieces (p : RoutePattern) :
    p.pieces.flatMap (·.slot?.toList) = p.parameters.map fun q =>
      (q.expressionText.toList, q.optional) := by
  unfold pieces parameters
  induction p.segments with
  | nil => rfl
  | cons segment rest ih =>
      rw [List.map_cons, List.flatMap_cons, ih]
      cases segment with
      | literal text =>
          rw [Segment.piece, Piece.slot?_ofText]
          rfl
      | parameter q =>
          rw [Segment.piece, Piece.slot?_ofExpression]
          rfl

/-- Whether the expression for the values of a parameter is local. -/
def Parameter.IsLocal (q : Parameter) : Prop := q.value.regex.isLocal = true

instance (q : Parameter) : Decidable q.IsLocal := inferInstanceAs (Decidable (_ = true))

namespace RoutePattern

variable {p : RoutePattern} {space path : String} {t : Template}

theorem Assembled.composed (h : p.Assembled space path t) (hp : p.IsCompiled)
    (hself : ∀ q ∈ p.parameters, q.IsSelfContained) :
    Fragment.Composed p.expression (Piece.layout p.pieces) := by
  refine ⟨standalone_of_selfContained hp hself, ?_⟩
  rw [← h.regex]
  exact h.expression

/-- The signs and the parentheses around a local expression leave it local. -/
theorem isLocal_body {q : Parameter} (hanchored : q.IsAnchored)
    (he : ∃ s, Reader.Standalone q.expressionText.toList s) (hlocal : q.IsLocal) :
    (Fragment.body q.expressionText.toList).isLocal = true := by
  have hregex := (Fragment.composed_of_valueSource he hanchored).regex.1
  rw [Parameter.IsLocal, hregex] at hlocal
  simp only [Fragment.allRegexes, Fragment.regexes, Fragment.valueRegex, Regex.sequence,
    List.append_nil, List.cons_append, List.nil_append, List.foldr_cons, List.foldr_nil, isLocal,
    Bool.and_eq_true] at hlocal
  exact hlocal.2.1

/-- The edges of the group of a parameter. -/
theorem Assembled.bounds (h : p.Assembled space path t) (hp : p.IsCompiled)
    (hself : ∀ q ∈ p.parameters, q.IsSelfContained) {request : String} {own : Matched}
    (hmatch : p.expression.fullMatch? request = .ok (some own)) {i : Nat} {q : Parameter}
    (hq : p.parameters[i]? = some q) : own.text = request.toList ∧
      Fragment.Bounds request.toList (q.expressionText.toList, q.optional)
        (own.marks.edges? (i + 1)) := by
  have hslot : ((Piece.layout p.pieces).flatMap (·.slot?.toList))[i]? =
      some (q.expressionText.toList, q.optional) := by
    rw [Piece.slots_layout, slots_pieces, List.getElem?_map, hq]
    rfl
  exact (h.composed hp hself).bounds hmatch hslot

/-- The group of a required parameter holds a text. -/
theorem Assembled.group_of_required (h : p.Assembled space path t) (hp : p.IsCompiled)
    (hself : ∀ q ∈ p.parameters, q.IsSelfContained) {request : String} {own : Matched}
    (hmatch : p.expression.fullMatch? request = .ok (some own)) {i : Nat} {q : Parameter}
    (hq : p.parameters[i]? = some q) (hrequired : q.optional = false) :
    ∃ value, own.group? (i + 1) = some value := by
  obtain ⟨htext, hbounds⟩ := h.bounds hp hself hmatch hq
  obtain ⟨hoptional, _⟩ | ⟨_, _, v, _, _, hgroup⟩ := hbounds.group? htext
  · rw [hrequired] at hoptional
    cases hoptional
  · exact ⟨_, hgroup⟩

/-- A parameter with a local expression accepts what its group holds. -/
theorem Assembled.accepts_of_group (h : p.Assembled space path t) (hp : p.IsCompiled)
    (hself : ∀ q ∈ p.parameters, q.IsSelfContained) {request : String} {own : Matched}
    (hmatch : p.expression.fullMatch? request = .ok (some own)) {i : Nat} {q : Parameter}
    (hq : p.parameters[i]? = some q) (hlocal : q.IsLocal) {value : String}
    (hgroup : own.group? (i + 1) = some value) : q.accepts value = .ok true := by
  have hmem := List.mem_of_getElem? hq
  have he : ∃ s, Reader.Standalone q.expressionText.toList s := by
    refine standalone_of_selfContained hp hself _ ?_
    rw [Piece.expressions_layout, expressions_pieces]
    exact List.mem_map_of_mem hmem
  have hanchored := h.anchored q hmem
  obtain ⟨htext, hbounds⟩ := h.bounds hp hself hmatch hq
  have hbody := isLocal_body hanchored he hlocal
  obtain ⟨_, hnone⟩ | ⟨_, _, v, hspans, hleads, hv⟩ := hbounds.group? htext
  · rw [hnone] at hgroup
    cases hgroup
  · rw [hv] at hgroup
    cases hgroup
    have haccepts : q.value.accepts (.ofList v) = .ok true := by
      rw [Fragment.accepts_iff_spans he hbody hanchored, String.toList_ofList]
      exact hspans.alone hbody hleads
    rw [Parameter.accepts, haccepts]
    rfl

end RoutePattern

end NamedRoutes
