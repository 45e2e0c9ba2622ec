import NamedRoutes.Proofs.Pattern.WholeParameters

/-!
Building the path of a pattern whose parameters fill everything between two slashes. Whatever
expressions the parameters have, the path is made of the words of the pattern and of the values that
are given, with one slash between neighbours. A parameter that is left out takes one slash along,
and no other is lost.
-/

namespace NamedRoutes

/-- Why a parameter of a route refuses a value, if it does. One that is not given is missing unless
the parameter is optional. A match of the value that cannot be reported is an error of its own. -/
def Parameter.refusal? (q : Parameter) (route : String) (value : Option Value) : Option Error :=
  match value with
  | none => if q.optional then none else some (.missingParameter q.name route)
  | some v =>
      match q.accepts v.display with
      | .ok true => none
      | .ok false => some (.invalidParameter q.name route)
      | .error e => some e

theorem Parameter.refusal?_none {q : Parameter} (h : q.optional = false) (route : String) :
    q.refusal? route none = some (.missingParameter q.name route) := by
  simp [refusal?, h]

theorem Parameter.refusal?_some {q : Parameter} (v : Value) (h : q.accepts v.display = .ok false)
    (route : String) : q.refusal? route (some v) = some (.invalidParameter q.name route) := by
  simp [refusal?, h]

theorem Parameter.accepts_of_refusal? {q : Parameter} {route : String} {v : Value}
    (h : q.refusal? route (some v) = none) : q.accepts v.display = .ok true := by
  unfold refusal? at h
  cases haccepts : q.accepts v.display with
  | error e => simp [haccepts] at h
  | ok accepted =>
      cases accepted with
      | false => simp [haccepts] at h
      | true => rfl

/-- The first refusal among some parameters that take values in order. -/
def firstRefusal? (route : String) : List Parameter → List (Option Value) → Option Error
  | [], _ => none
  | q :: rest, values =>
      (q.refusal? route values.head?.join).or (firstRefusal? route rest values.tail)

/-- Whether none of the first parameters of a pattern refuses its value. -/
def RoutePattern.Accepts (p : RoutePattern) (route : String) (values : List (Option Value))
    (n : Nat) : Prop :=
  ∀ j < n, ∀ q ∈ p.parameters[j]?, q.refusal? route values[j]?.join = none

instance (p : RoutePattern) (route : String) (values : List (Option Value)) (n : Nat) :
    Decidable (p.Accepts route values n) := inferInstanceAs (Decidable (∀ j < n, _))

section

variable {route : String} {parameters : List Parameter} {values : List (Option Value)}

/-- Parameters that accept their values can be left out in front. -/
theorem firstRefusal?_drop {n : Nat}
    (h : ∀ j < n, ∀ q ∈ parameters[j]?, q.refusal? route values[j]?.join = none) :
    firstRefusal? route parameters values =
      firstRefusal? route (parameters.drop n) (values.drop n) := by
  induction n generalizing parameters values with
  | zero => rfl
  | succ n ih =>
      cases parameters with
      | nil => rfl
      | cons first rest =>
          rw [firstRefusal?, List.head?_eq_getElem?, h 0 (Nat.zero_lt_succ n) first rfl,
            Option.none_or, List.drop_succ_cons, ← List.drop_tail]
          refine ih fun j hj q hq => ?_
          rw [List.getElem?_tail]
          exact h (j + 1) (Nat.succ_lt_succ hj) q hq

end

namespace RoutePattern

variable {p : RoutePattern} {route : String} {values : List (Option Value)}

/-- The first refusal is that of a parameter after some that accept their values. -/
theorem Accepts.firstRefusal?_eq_some {n : Nat} (h : p.Accepts route values n) {q : Parameter}
    (hq : p.parameters[n]? = some q) {e : Error} (he : q.refusal? route values[n]?.join = some e) :
    firstRefusal? route p.parameters values = some e := by
  obtain ⟨rest, hrest⟩ := List.head?_eq_some_iff.mp (List.head?_drop.trans hq)
  rw [firstRefusal?_drop h, hrest, firstRefusal?, List.head?_drop, he]
  rfl

theorem Accepts.firstRefusal?_eq_none (h : p.Accepts route values p.parameters.length) :
    firstRefusal? route p.parameters values = none := by
  rw [firstRefusal?_drop h, List.drop_length]
  rfl

end RoutePattern

namespace Segment

/-- The words of some segments and the values that are given for their parameters, without the
slashes. -/
def parts : List Segment → List (Option Value) → List String
  | [], _ => []
  | .literal text :: rest, values =>
      if text = "/" then parts rest values else text :: parts rest values
  | .parameter _ :: rest, values =>
      (values.head?.join.map Value.display).toList ++ parts rest values.tail

/-- Some segments that are no slashes, with single slashes between them. -/
inductive Alternating : List Segment → Prop where
  | last {s : Segment} (hs : s.isSlash = false) : Alternating [s]
  | cons {s : Segment} {rest : List Segment} (hs : s.isSlash = false) (more : Alternating rest) :
      Alternating (s :: .literal "/" :: rest)

end Segment

namespace PathDraft

/-- A path of some parts. If there are none yet, the next slash goes with what was left out before.
-/
def ended (parts : List String) : PathDraft := ⟨(parts.intersperse "/").reverse, parts.isEmpty⟩

/-- A path of some parts to which a further one can be added: after a slash, or at the start. -/
def awaiting (parts : List String) : PathDraft :=
  ⟨if parts.isEmpty then [] else "/" :: (parts.intersperse "/").reverse, false⟩

theorem intersperse_concat {parts : List String} (h : parts ≠ []) (part : String) :
    (parts ++ [part]).intersperse "/" = parts.intersperse "/" ++ ["/", part] := by
  induction parts with
  | nil => exact absurd rfl h
  | cons first rest ih =>
      cases rest with
      | nil => rfl
      | cons second more =>
          have hmore := ih (List.cons_ne_nil _ _)
          simp only [List.cons_append, List.intersperse_cons_cons] at hmore ⊢
          rw [hmore]

/-- A part closes the path again. -/
theorem addValue_awaiting (parts : List String) (part : String) :
    (awaiting parts).addValue part = ended (parts ++ [part]) := by
  cases parts with
  | nil => rfl
  | cons first rest =>
      have hne : first :: rest ≠ [] := List.cons_ne_nil _ _
      unfold ended
      rw [intersperse_concat hne, List.reverse_append]
      rfl

theorem addLiteral_awaiting (parts : List String) (word : String) :
    (awaiting parts).addLiteral word = ended (parts ++ [word]) := by
  rw [← addValue_awaiting]
  unfold addLiteral
  rw [if_neg (by simp [awaiting])]
  rfl

/-- What is left out takes the slash before it along, or else the one after it. -/
theorem leaveOut_awaiting (parts : List String) : (awaiting parts).leaveOut = ended parts := by
  cases parts <;> rfl

theorem addSlash_ended (parts : List String) : (ended parts).addLiteral "/" = awaiting parts := by
  cases parts <;> rfl

theorem path_ended (parts : List String) : (ended parts).path = "/".intercalate parts := by
  apply String.toList_inj.mp
  rw [toList_path, text, ended, List.reverse_reverse, String.toList_intercalate, List.intercalate,
    List.flatMap_def]
  congr 1
  induction parts with
  | nil => rfl
  | cons first rest ih =>
      cases rest with
      | nil => rfl
      | cons second more =>
          simp only [List.intersperse_cons_cons, List.map_cons] at ih ⊢
          rw [ih]

end PathDraft

namespace Route

open PathDraft

variable {name : String} {segments rest : List Segment} {parts : List String}
  {values : List (Option Value)}

/-- What filling some segments comes to when the path in the making has some parts: the first
refusal, or a path with the further parts and the values that are left over. -/
def filled (name : String) (segments : List Segment) (parts : List String)
    (values : List (Option Value)) :
    Except Error (PathDraft × List (Option Value)) :=
  match firstRefusal? name (segments.filterMap Segment.parameter?) values with
  | some e => .error e
  | none => .ok (ended (parts ++ Segment.parts segments values),
      values.drop (segments.filterMap Segment.parameter?).length)

/-- A part before some segments that are filled. -/
theorem filled_word {word : String} (hword : word ≠ "/") :
    filled name (.literal word :: rest) parts values =
      filled name rest (parts ++ [word]) values := by
  unfold filled
  rw [Segment.parts, if_neg hword, List.append_assoc]
  rfl

theorem filled_slash : filled name (.literal "/" :: rest) parts values =
    filled name rest parts values := rfl

/-- A parameter refuses its value, or the value becomes a part. -/
theorem filled_parameter (q : Parameter) :
    filled name (.parameter q :: rest) parts values =
      match q.refusal? name values.head?.join with
      | some e => .error e
      | none => filled name rest (parts ++ (values.head?.join.map Value.display).toList)
          values.tail := by
  have hparameters : (Segment.parameter q :: rest).filterMap Segment.parameter? =
      q :: rest.filterMap Segment.parameter? := rfl
  unfold filled
  rw [hparameters, firstRefusal?, Segment.parts, List.append_assoc, List.length_cons,
    ← List.drop_tail]
  cases q.refusal? name values.head?.join with
  | none => rfl
  | some e => rfl

theorem fill_parameter_cases (q : Parameter) (d : PathDraft) :
    fill name (.parameter q :: rest) d values =
      match q.refusal? name values.head?.join with
      | some e => .error e
      | none => fill name rest
          (match values.head?.join with
            | none => d.leaveOut
            | some v => d.addValue v.display) values.tail := by
  rw [fill]
  unfold Parameter.refusal?
  cases values.head?.join with
  | none => cases q.optional <;> rfl
  | some v =>
      cases haccepts : q.accepts v.display with
      | error e => simp [haccepts, bind, Except.bind]
      | ok accepted =>
          cases accepted <;> simp [haccepts, bind, Except.bind, throw, throwThe,
            MonadExceptOf.throw]

/-- A component is filled after the parts before it, up to the next slash. -/
theorem fill_component {s : Segment} (hs : s.isSlash = false)
    (hrest : ∀ parts values, fill name rest (ended parts) values = filled name rest parts values) :
    fill name (s :: rest) (awaiting parts) values = filled name (s :: rest) parts values := by
  cases s with
  | literal word =>
      have hword : word ≠ "/" := by simpa [Segment.isSlash] using hs
      rw [fill, addLiteral_awaiting, hrest, filled_word hword]
  | parameter q =>
      rw [fill_parameter_cases, filled_parameter]
      cases q.refusal? name values.head?.join with
      | some e => rfl
      | none =>
          cases values.head?.join with
          | none =>
              simp only [leaveOut_awaiting, Option.map_none, Option.toList_none, List.append_nil]
              exact hrest _ _
          | some v =>
              simp only [addValue_awaiting, Option.map_some, Option.toList_some]
              exact hrest _ _

/-- Segments with single slashes between them are filled part by part. -/
theorem fill_alternating (h : Segment.Alternating segments) (parts : List String)
    (values : List (Option Value)) :
    fill name segments (awaiting parts) values = filled name segments parts values := by
  induction h generalizing parts values with
  | last hs =>
      refine fill_component hs fun parts values => ?_
      simp [fill, filled, Segment.parts, firstRefusal?]
  | @cons s rest hs _ ih =>
      refine fill_component hs fun parts values => ?_
      rw [fill, addSlash_ended, filled_slash]
      exact ih parts values

end Route

end NamedRoutes
