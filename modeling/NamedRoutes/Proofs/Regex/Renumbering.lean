import NamedRoutes.Regex.Match

/-!
An expression whose groups are numbered from a later number on matches as before. What changes is
the record of the groups alone: everything in it moves up by the same distance. Merging patterns
into one expression renumbers their groups in this way.
-/

namespace NamedRoutes

def Regex.shift (base : Nat) : Regex → Regex
  | .empty => .empty
  | .never => .never
  | .one test => .one test
  | .anchor a => .anchor a
  | .seq first second => .seq (first.shift base) (second.shift base)
  | .alt first second => .alt (first.shift base) (second.shift base)
  | .group body => .group (body.shift base)
  | .capture number body => .capture (number + base) (body.shift base)
  | .atomic body => .atomic (body.shift base)
  | .ahead negated body => .ahead negated (body.shift base)
  | .behind negated width body => .behind negated width (body.shift base)
  | .backref number folding => .backref (number + base) folding
  | .conditional number yes no => .conditional (number + base) (yes.shift base) (no.shift base)
  | .repeated greed least most body => .repeated greed least most (body.shift base)

/-- Whether every group number of an expression lies between one and a limit. -/
def Regex.numbersWithin (limit : Nat) : Regex → Prop
  | .empty | .never | .one _ | .anchor _ => True
  | .seq first second | .alt first second =>
      first.numbersWithin limit ∧ second.numbersWithin limit
  | .group body | .atomic body | .ahead _ body | .behind _ _ body | .repeated _ _ _ body =>
      body.numbersWithin limit
  | .capture number body => (0 < number ∧ number ≤ limit) ∧ body.numbersWithin limit
  | .backref number _ => 0 < number ∧ number ≤ limit
  | .conditional number yes no =>
      (0 < number ∧ number ≤ limit) ∧ yes.numbersWithin limit ∧ no.numbersWithin limit

namespace Regex

@[simp] theorem shift_lead? (base : Nat) (r : Regex) : (r.shift base).lead? = r.lead? := by
  induction r with
  | seq first second ihf ihs => simp only [shift, lead?, ihf, ihs]
  | group body ih => simpa only [shift, lead?] using ih
  | _ => rfl

@[simp] theorem shift_eq_empty (base : Nat) (r : Regex) :
    r.shift base = .empty ↔ r = .empty := by
  cases r <;> simp [shift]

theorem shift_test? (base : Nat) (r : Regex) : (r.shift base).test? = r.test? := by
  induction r with
  | seq first second ihf _ => cases second <;> simp [shift, test?, ihf]
  | group body ih => simpa only [shift, test?] using ih
  | _ => rfl

/-- Without groups there is nothing to be renumbered. -/
theorem shift_eq_self {r : Regex} (h : r.numbersWithin 0) (base : Nat) : r.shift base = r := by
  induction r with
  | empty | never | one | anchor => rfl
  | seq first second ihf ihs | alt first second ihf ihs => rw [shift, ihf h.1, ihs h.2]
  | group body ih | atomic body ih => exact congrArg _ (ih h)
  | ahead negated body ih => exact congrArg _ (ih h)
  | behind negated width body ih => exact congrArg _ (ih h)
  | repeated greed least most body ih => exact congrArg _ (ih h)
  | capture number body => exact absurd (Nat.lt_of_lt_of_le h.1.1 h.1.2) (Nat.lt_irrefl 0)
  | backref number folding => exact absurd (Nat.lt_of_lt_of_le h.1 h.2) (Nat.lt_irrefl 0)
  | conditional number yes no => exact absurd (Nat.lt_of_lt_of_le h.1.1 h.1.2) (Nat.lt_irrefl 0)

end Regex

namespace Marks

/-- The edges after those of `base` groups that have not been entered. -/
def shiftEdges (base : Nat) (edges : List (Option Nat)) : List (Option Nat) :=
  if edges.isEmpty then [] else List.replicate (2 * base) none ++ edges

def shift (base : Nat) (m : Marks) : Marks :=
  ⟨shiftEdges base m.edges, if m.lastClosed = 0 then 0 else m.lastClosed + base⟩

@[simp] theorem shiftEdges_nil (base : Nat) : shiftEdges base [] = [] := rfl

theorem shiftEdges_of_ne_nil (base : Nat) {edges : List (Option Nat)} (h : edges ≠ []) :
    shiftEdges base edges = List.replicate (2 * base) none ++ edges := by
  cases edges with
  | nil => exact absurd rfl h
  | cons edge rest => rfl

theorem setEdge_ne_nil (edge index : Nat) (edges : List (Option Nat)) :
    setEdge edge index edges ≠ [] := by
  unfold setEdge
  split
  · intro h
    simp_all
  · simp

theorem setEdge_shiftEdges (base edge index : Nat) (edges : List (Option Nat)) :
    setEdge (2 * base + edge) index (shiftEdges base edges) =
      shiftEdges base (setEdge edge index edges) := by
  rw [shiftEdges_of_ne_nil base (setEdge_ne_nil edge index edges)]
  cases edges with
  | nil =>
      simp [setEdge, ← List.replicate_append_replicate]
  | cons first rest =>
      rw [shiftEdges_of_ne_nil base (List.cons_ne_nil first rest)]
      unfold setEdge
      by_cases h : edge < (first :: rest).length
      · have hshifted : 2 * base + edge <
            (List.replicate (2 * base) none ++ first :: rest).length := by
          simp only [List.length_append, List.length_replicate]
          omega
        rw [if_pos h, if_pos hshifted, List.set_append_right _ _ (by simp)]
        simp
      · have hshifted : ¬ 2 * base + edge <
            (List.replicate (2 * base) none ++ first :: rest).length := by
          simp only [List.length_append, List.length_replicate]
          omega
        rw [if_neg h, if_neg hshifted]
        have hgap : 2 * base + edge - (List.replicate (2 * base) none ++ first :: rest).length =
            edge - (first :: rest).length := by
          simp only [List.length_append, List.length_replicate]
          omega
        rw [hgap]
        simp

theorem startEdge_add (base number : Nat) (h : 0 < number) :
    startEdge (number + base) = 2 * base + startEdge number := by
  unfold startEdge
  omega

@[simp] theorem opening_shift (base number index : Nat) (m : Marks) (h : 0 < number) :
    (m.shift base).opening (number + base) index = (m.opening number index).shift base := by
  simp only [opening, shift, startEdge_add base number h, setEdge_shiftEdges]
  rfl

@[simp] theorem closing_shift (base number index : Nat) (m : Marks) (h : 0 < number) :
    (m.shift base).closing (number + base) index = (m.closing number index).shift base := by
  have hne : number ≠ 0 := by omega
  simp [closing, shift, startEdge_add base number h, Nat.add_assoc, setEdge_shiftEdges, hne]

theorem getElem?_shiftEdges (base edge : Nat) (edges : List (Option Nat)) :
    (shiftEdges base edges)[2 * base + edge]? = edges[edge]? := by
  cases edges with
  | nil => simp
  | cons first rest =>
      rw [shiftEdges_of_ne_nil base (List.cons_ne_nil first rest),
        List.getElem?_append_right (by simp)]
      simp

@[simp] theorem edges?_shift (base number : Nat) (m : Marks) (h : 0 < number) :
    (m.shift base).edges? (number + base) = m.edges? number := by
  simp only [edges?, shift, startEdge_add base number h, Nat.add_assoc, getElem?_shiftEdges]

@[simp] theorem span?_shift (base number : Nat) (m : Marks) (h : 0 < number) :
    (m.shift base).span? (number + base) = m.span? number := by
  simp only [span?, edges?_shift base number m h]

@[simp] theorem text?_shift (base number : Nat) (text : List Char) (m : Marks) (h : 0 < number) :
    (m.shift base).text? (number + base) text = m.text? number text := by
  simp only [text?, span?_shift base number m h]

@[simp] theorem isReversed_shift (base number : Nat) (m : Marks) (h : 0 < number) :
    (m.shift base).isReversed (number + base) = m.isReversed number := by
  simp only [isReversed, edges?_shift base number m h]

@[simp] theorem afterGivingUp_shift (base : Nat) (m left : Marks) :
    (m.shift base).afterGivingUp (left.shift base) = (m.afterGivingUp left).shift base := by
  unfold afterGivingUp
  suffices hedges : (shiftEdges base left.edges).take (shiftEdges base m.edges).length =
      shiftEdges base (left.edges.take m.edges.length) by
    simp only [shift, hedges]
  cases hm : m.edges with
  | nil => simp
  | cons first rest =>
      cases hleft : left.edges with
      | nil => simp
      | cons edge edges =>
          rw [shiftEdges_of_ne_nil base (List.cons_ne_nil first rest),
            shiftEdges_of_ne_nil base (List.cons_ne_nil edge edges),
            shiftEdges_of_ne_nil base (by simp)]
          simp [List.take_append]

end Marks

namespace Thread

def shift (base : Nat) (t : Thread) : Thread := { t with marks := t.marks.shift base }

@[simp] theorem shift_place (base : Nat) (t : Thread) : (t.shift base).place = t.place := rfl

@[simp] theorem shift_marks (base : Nat) (t : Thread) :
    (t.shift base).marks = t.marks.shift base := rfl

@[simp] theorem shift_reached (base : Nat) (t : Thread) : (t.shift base).reached = t.reached := rfl

@[simp] theorem shift_remaining (base : Nat) (t : Thread) :
    (t.shift base).remaining = t.remaining := rfl

@[simp] theorem shift_setOut (base : Nat) (t : Thread) :
    (t.shift base).setOut = t.setOut.shift base := rfl

@[simp] theorem shift_moveTo (base : Nat) (t : Thread) (p : Place) :
    (t.shift base).moveTo p = (t.moveTo p).shift base := rfl

@[simp] theorem shift_step? (base : Nat) (t : Thread) (accepts : Char → Bool) :
    (t.shift base).step? accepts = (t.step? accepts).map (shift base) := by
  unfold step?
  rw [Option.map_map]
  rfl

@[simp] theorem shift_follow? (base : Nat) (folding : Folding) (text : List Char) (t : Thread) :
    (t.shift base).follow? folding text = (t.follow? folding text).map (shift base) := by
  induction text generalizing t with
  | nil => rfl
  | cons c rest ih =>
      simp only [follow?, shift_step?]
      cases t.step? fun d => folding.small d.toNat == folding.small c.toNat with
      | none => rfl
      | some u => exact ih u

@[simp] theorem shift_resume (base : Nat) (t : Thread) (looping : Bool) (reached : Place)
    (left : Marks) :
    (t.shift base).resume looping reached (left.shift base) =
      (t.resume looping reached left).shift base := by
  cases looping <;> simp [resume, shift]

end Thread

namespace Attempt

def shift (base : Nat) : Attempt → Attempt
  | matched t => matched (t.shift base)
  | failed reached marks => failed reached (marks.shift base)

@[simp] theorem shift_matched (base : Nat) (t : Thread) :
    (matched t).shift base = matched (t.shift base) := rfl

@[simp] theorem shift_failed (base : Nat) (reached : Place) (marks : Marks) :
    (failed reached marks).shift base = failed reached (marks.shift base) := rfl

@[simp] theorem shift_failingAt (base : Nat) (p : Place) (a : Attempt) :
    (a.shift base).failingAt p = (a.failingAt p).shift base := by
  cases a <;> rfl

end Attempt

@[simp] theorem Thread.shift_fail (base : Nat) (t : Thread) :
    (t.shift base).fail = t.fail.shift base := rfl

/-- Two ways of going on that differ in the numbers of groups only. -/
structure Rest.Shifted (base : Nat) (k k' : Rest) : Prop where
  lead : k'.lead = k.lead
  go : ∀ t : Thread, k'.go (t.shift base) = (k.go t).shift base

namespace Rest.Shifted

variable {base : Nat} {k k' : Rest}

theorem done : Rest.Shifted base .done .done := ⟨rfl, fun _ => rfl⟩

theorem later (h : Rest.Shifted base k k') : Rest.Shifted base k.later k'.later := ⟨rfl, h.go⟩

theorem fromPlaces (h : Rest.Shifted base k k') (looping : Bool) (t : Thread)
    (places : List Place) :
    k'.fromPlaces looping (t.shift base) places = (k.fromPlaces looping t places).shift base := by
  induction places generalizing t with
  | nil => rfl
  | cons p rest ih =>
      simp only [Rest.fromPlaces, h.lead]
      split
      · exact ih t
      · simp only [Thread.shift_moveTo, Thread.shift_setOut, h.go]
        cases k.go (t.moveTo p).setOut with
        | matched u => rfl
        | failed reached marks =>
            simp only [Attempt.shift_failed, Thread.shift_resume]
            exact ih _

end Rest.Shifted

/-- A step of a match and the same step under higher numbers. -/
def Round.Shifted (base : Nat) (round round' : Round) : Prop :=
  ∀ t k k', Rest.Shifted base k k' → round' (t.shift base) k' = (round t k).shift base

namespace CharTest

/-- The places that a repetition counts before it tries what follows. -/
def countedPlaces (test : CharTest) (greed : Greed) (least : Nat) (most : Option Nat)
    (t : Thread) : List Place :=
  t.place.through test.accepts (if greed == .lazy then least else most.getD t.remaining)

def counted (test : CharTest) (greed : Greed) (least : Nat) (most : Option Nat) (t : Thread) :
    Thread :=
  { t with reached :=
      if test.countsByAttempt then (test.countedPlaces greed least most t).getLastD t.place
      else t.place }

def afterCounting (test : CharTest) (greed : Greed) (least bound : Nat) (looping : Bool)
    (places : List Place) (t : Thread) (k : Rest) : Attempt :=
  if places.length ≤ least then t.fail
  else match greed with
    | .greedy => k.fromPlaces looping t (places.drop least).reverse
    | .possessive => k.go (t.moveTo (places.getLastD t.place))
    | .lazy => runLazily test looping k (bound - least) (t.moveTo (places.getLastD t.place))

theorem runRepeated_eq (test : CharTest) (greed : Greed) (least : Nat) (most : Option Nat)
    (looping : Bool) (t : Thread) (k : Rest) :
    test.runRepeated greed least most looping t k =
      if t.remaining < least then t.fail
      else test.afterCounting greed least (most.getD t.remaining) looping
        (test.countedPlaces greed least most t) (test.counted greed least most t) k := rfl

/-- One round of a lazy repetition: it goes on, and if that fails it hands over the thread after the
next character. -/
def lazyRound (test : CharTest) (looping : Bool) (k : Rest) (next : Thread → Attempt)
    (t : Thread) : Attempt :=
  match k.go t.setOut with
  | .matched u => .matched u
  | .failed reached marks =>
      match (t.resume looping reached marks).setOut.step? test.accepts with
      | none => (t.resume looping reached marks).setOut.fail
      | some u => next (if test.countsByAttempt then u.setOut else u)

theorem runLazily_zero (test : CharTest) (looping : Bool) (k : Rest) (t : Thread) :
    test.runLazily looping k 0 t = test.lazyRound looping k Thread.fail t := by
  unfold runLazily lazyRound
  cases k.go t.setOut with
  | matched u => rfl
  | failed reached marks =>
      cases hstep : (t.resume looping reached marks).setOut.step? test.accepts <;>
        simp only [hstep]

theorem runLazily_succ (test : CharTest) (looping : Bool) (k : Rest) (bound : Nat) (t : Thread) :
    test.runLazily looping k (bound + 1) t =
      test.lazyRound looping k (test.runLazily looping k bound) t := by
  conv => lhs; unfold runLazily
  unfold lazyRound
  cases k.go t.setOut with
  | matched u => rfl
  | failed reached marks =>
      cases hstep : (t.resume looping reached marks).setOut.step? test.accepts <;>
        simp only [hstep]

theorem lazyRound_shift {base : Nat} {k k' : Rest} (h : Rest.Shifted base k k') (test : CharTest)
    (looping : Bool) {next next' : Thread → Attempt}
    (hnext : ∀ u, next' (u.shift base) = (next u).shift base) (t : Thread) :
    test.lazyRound looping k' next' (t.shift base) =
      (test.lazyRound looping k next t).shift base := by
  unfold lazyRound
  simp only [Thread.shift_setOut, h.go]
  cases k.go t.setOut with
  | matched u => rfl
  | failed reached marks =>
      simp only [Attempt.shift_failed, Thread.shift_resume, Thread.shift_setOut,
        Thread.shift_step?]
      cases (t.resume looping reached marks).setOut.step? test.accepts with
      | none => rfl
      | some u =>
          by_cases hcounts : test.countsByAttempt = true
          · simp only [hcounts, Option.map_some, if_true, Thread.shift_setOut, hnext]
          · simp only [hcounts, Option.map_some, Bool.false_eq_true, if_false, hnext]

theorem runLazily_shift {base : Nat} {k k' : Rest} (h : Rest.Shifted base k k')
    (test : CharTest) (looping : Bool) (bound : Nat) (t : Thread) :
    test.runLazily looping k' bound (t.shift base) =
      (test.runLazily looping k bound t).shift base := by
  induction bound generalizing t with
  | zero =>
      rw [runLazily_zero, runLazily_zero]
      exact lazyRound_shift h test looping (fun _ => rfl) t
  | succ bound ih =>
      rw [runLazily_succ, runLazily_succ]
      exact lazyRound_shift h test looping ih t

theorem afterCounting_shift {base : Nat} {k k' : Rest} (h : Rest.Shifted base k k')
    (test : CharTest) (greed : Greed) (least bound : Nat) (looping : Bool) (places : List Place)
    (t : Thread) :
    test.afterCounting greed least bound looping places (t.shift base) k' =
      (test.afterCounting greed least bound looping places t k).shift base := by
  unfold afterCounting
  split
  · rfl
  · cases greed with
    | greedy => exact h.fromPlaces looping t _
    | possessive => exact h.go (t.moveTo (places.getLastD t.place))
    | lazy =>
        exact runLazily_shift h test looping (bound - least)
          (t.moveTo (places.getLastD t.place))

theorem runRepeated_shift (base : Nat) (test : CharTest) (greed : Greed) (least : Nat)
    (most : Option Nat) (looping : Bool) :
    Round.Shifted base (test.runRepeated greed least most looping)
      (test.runRepeated greed least most looping) := by
  intro t k k' h
  rw [runRepeated_eq, runRepeated_eq]
  simp only [Thread.shift_remaining, Thread.shift_fail]
  by_cases hshort : t.remaining < least
  · simp only [hshort, if_true]
  · simp only [hshort, if_false]
    exact afterCounting_shift h test greed least _ looping _ (test.counted greed least most t)

end CharTest

namespace Round.Shifted

variable {base : Nat} {round round' : Round} {k k' : Rest}

theorem exactly (hround : Round.Shifted base round round') (h : Rest.Shifted base k k')
    (count : Nat) (t : Thread) :
    round'.exactly count (t.shift base) k' = (round.exactly count t k).shift base := by
  induction count generalizing t with
  | zero => exact h.go t
  | succ count ih =>
      simp only [Round.exactly, Thread.shift_setOut, Thread.shift_place]
      rw [hround t.setOut ⟨.other, fun u => round.exactly count u k⟩
        ⟨.other, fun u => round'.exactly count u k'⟩ ⟨rfl, ih⟩, Attempt.shift_failingAt]

theorem leave (h : Rest.Shifted base k k') (t : Thread) :
    Round.leave (t.shift base) k' = (Round.leave t k).shift base := by
  simp only [Round.leave, Thread.shift_setOut, Thread.shift_place, h.go, Attempt.shift_failingAt]

theorem greedy (hround : Round.Shifted base round round') (h : Rest.Shifted base k k')
    (bound : Nat) (last : Option Nat) (t : Thread) :
    round'.greedy bound last (t.shift base) k' = (round.greedy bound last t k).shift base := by
  induction bound generalizing last t with
  | zero => exact leave h t
  | succ bound ih =>
      simp only [Round.greedy, Thread.shift_remaining, Thread.shift_setOut]
      by_cases hlast : last = some t.remaining
      · simp only [hlast, if_true]
        exact leave h t
      · simp only [hlast, if_false]
        rw [hround t.setOut ⟨.other, fun u => round.greedy bound (some t.remaining) u k⟩
          ⟨.other, fun u => round'.greedy bound (some t.remaining) u k'⟩
          ⟨rfl, ih (some t.remaining)⟩]
        cases round t.setOut ⟨.other, fun u => round.greedy bound (some t.remaining) u k⟩ with
        | matched u => rfl
        | failed reached marks => exact leave h t

theorem lazy (hround : Round.Shifted base round round') (h : Rest.Shifted base k k')
    (looping : Bool) (bound : Nat) (last : Option Nat) (t : Thread) :
    round'.lazy looping bound last (t.shift base) k' =
      (round.lazy looping bound last t k).shift base := by
  induction bound generalizing last t with
  | zero =>
      unfold Round.lazy
      simp only [Thread.shift_setOut, h.go]
      cases k.go t.setOut with
      | matched u => rfl
      | failed reached marks => simp
  | succ bound ih =>
      unfold Round.lazy
      simp only [Thread.shift_setOut, h.go]
      cases k.go t.setOut with
      | matched u => rfl
      | failed reached marks =>
          simp only [Attempt.shift_failed, Thread.shift_resume, Thread.shift_setOut,
            Thread.shift_remaining, Thread.shift_place]
          generalize (t.resume looping reached marks).setOut = u
          by_cases hlast : last = some u.remaining
          · simp only [hlast, if_true, Thread.shift_fail]
          · simp only [hlast, if_false]
            rw [hround u ⟨.other, fun v => round.lazy looping bound (some u.remaining) v k⟩
              ⟨.other, fun v => round'.lazy looping bound (some u.remaining) v k'⟩
              ⟨rfl, ih (some u.remaining)⟩, Attempt.shift_failingAt]

theorem exactlyFirst (hround : Round.Shifted base round round') (count : Nat) (t : Thread) :
    round'.exactlyFirst count (t.shift base) = (round.exactlyFirst count t).shift base := by
  induction count generalizing t with
  | zero => rfl
  | succ count ih =>
      simp only [Round.exactlyFirst, hround t .done .done Rest.Shifted.done]
      cases round t .done with
      | matched u => exact ih u
      | failed reached marks => rfl

theorem possessive (hround : Round.Shifted base round round') (bound : Nat) (t : Thread) :
    round'.possessive bound (t.shift base) = (round.possessive bound t).shift base := by
  induction bound generalizing t with
  | zero => rfl
  | succ bound ih =>
      simp only [Round.possessive, hround t .done .done Rest.Shifted.done]
      cases round t .done with
      | failed reached marks => rfl
      | matched u =>
          simp only [Attempt.shift_matched, Thread.shift_remaining]
          by_cases hstays : u.remaining = t.remaining
          · simp only [hstays, if_true]
          · simp only [hstays, if_false, ih]

theorem look (hround : Round.Shifted base round round') (h : Rest.Shifted base k k')
    (negated looping : Bool) (p : Place) (t : Thread) :
    Round.look round' negated looping p (t.shift base) k' =
      (Round.look round negated looping p t k).shift base := by
  simp only [Round.look, Thread.shift_moveTo, Thread.shift_setOut,
    hround (t.moveTo p).setOut .done .done Rest.Shifted.done]
  cases round (t.moveTo p).setOut .done with
  | matched u =>
      cases negated with
      | false => exact h.go (u.moveTo t.place)
      | true => rfl
  | failed reached marks =>
      cases negated with
      | false => rfl
      | true =>
          simp only [Attempt.shift_failed, Thread.shift_resume]
          exact h.go _

/-- Going on with further rounds, the longest way first. -/
theorem greedily (hround : Round.Shifted base round round') (h : Rest.Shifted base k k')
    (least : Nat) (most : Option Nat) :
    Rest.Shifted base
      ⟨.other, fun u => round.greedy (Regex.furtherRounds least most u) none u k⟩
      ⟨.other, fun u => round'.greedy (Regex.furtherRounds least most u) none u k'⟩ :=
  ⟨rfl, fun u => hround.greedy h (Regex.furtherRounds least most u) none u⟩

/-- Going on with further rounds, the shortest way first. -/
theorem lazily (hround : Round.Shifted base round round') (h : Rest.Shifted base k k')
    (looping : Bool) (least : Nat) (most : Option Nat) :
    Rest.Shifted base
      ⟨.other, fun u => round.lazy looping (Regex.furtherRounds least most u) none u k⟩
      ⟨.other, fun u => round'.lazy looping (Regex.furtherRounds least most u) none u k'⟩ :=
  ⟨rfl, fun u => hround.lazy h looping (Regex.furtherRounds least most u) none u⟩

end Round.Shifted

namespace Thread

theorem shift_opening (base number : Nat) (hnumber : 0 < number) (t : Thread) :
    (t.shift base).opening (number + base) = (t.opening number).shift base := by
  simp [opening, shift, hnumber]

theorem shift_closing (base number : Nat) (hnumber : 0 < number) (t : Thread) :
    (t.shift base).closing (number + base) = (t.closing number).shift base := by
  simp [closing, shift, hnumber]

end Thread

theorem Regex.afterYes_shifted {base : Nat} {k k' : Rest} (h : Rest.Shifted base k k')
    (no : Regex) : Rest.Shifted base (afterYes k no) (afterYes k' (no.shift base)) := by
  cases no <;> first | exact h | exact h.later

namespace Round.Shifted

variable {base : Nat}

/-- A repetition of a test runs as such. Any other one goes by its rounds. -/
theorem repeated {body : Regex}
    (hbody : ∀ looping, Round.Shifted base (body.run looping) ((body.shift base).run looping))
    (greed : Greed) (least : Nat) (most : Option Nat) (looping : Bool) :
    Round.Shifted base ((Regex.repeated greed least most body).run looping)
      (((Regex.repeated greed least most body).shift base).run looping) := by
  intro t k k' h
  have hfurther : ∀ u : Thread, Regex.furtherRounds least most (u.shift base) =
      Regex.furtherRounds least most u := fun _ => rfl
  simp only [Regex.shift, Regex.run, Regex.shift_test?]
  cases body.test? with
  | some test => exact test.runRepeated_shift base greed least most looping t k k' h
  | none =>
      cases greed with
      | greedy =>
          exact (hbody true).exactly ((hbody true).greedily h least most) least t
      | lazy =>
          exact (hbody true).exactly ((hbody true).lazily h looping least most) least t
      | possessive =>
          simp only [Thread.shift_setOut, Thread.shift_place, (hbody looping).exactlyFirst,
            Attempt.shift_failingAt]
          cases (Round.exactlyFirst (body.run looping) least t.setOut).failingAt t.place with
          | matched u =>
              simp only [Attempt.shift_matched, hfurther, (hbody looping).possessive]
              exact h.go _
          | failed reached marks => rfl

end Round.Shifted

namespace Regex

/-- Running an expression under higher numbers changes the numbers in its record and nothing
else. -/
theorem run_shift (base limit : Nat) (r : Regex) (hr : r.numbersWithin limit) (looping : Bool) :
    Round.Shifted base (r.run looping) ((r.shift base).run looping) := by
  induction r generalizing looping with
  | empty => exact fun t k k' h => h.go t
  | never => exact fun t k k' h => rfl
  | one test =>
      intro t k k' h
      simp only [shift, run, Thread.shift_step?]
      cases t.step? test.accepts with
      | none => rfl
      | some u => exact h.go u
  | anchor a =>
      intro t k k' h
      simp only [shift, run, Thread.shift_place]
      by_cases hholds : a.holds t.place = true
      · simp only [hholds, if_true, h.go]
      · simp only [hholds, Bool.false_eq_true, if_false, Thread.shift_fail]
  | seq first second ihf ihs =>
      intro t k k' h
      simp only [shift, run, shift_lead?, h.lead]
      exact ihf hr.1 looping t _ _ ⟨rfl, fun u => ihs hr.2 looping u k k' h⟩
  | alt first others ihf iho =>
      intro t k k' h
      simp only [shift, run, shift_lead?, Thread.shift_place, Thread.shift_setOut]
      by_cases hlacks : (first.lead?.getD .other).lacks t.place = true
      · simp only [hlacks, if_true]
        exact iho hr.2 looping t k k' h
      · simp only [hlacks, Bool.false_eq_true, if_false]
        rw [ihf hr.1 looping t.setOut _ _ h.later]
        cases first.run looping t.setOut k.later with
        | matched u => rfl
        | failed reached marks =>
            simp only [Attempt.shift_failed, Thread.shift_resume]
            exact iho hr.2 looping _ k k' h
  | group body ih => exact fun t k k' h => ih hr looping t k k' h
  | capture number body ih =>
      intro t k k' h
      simp only [shift, run, Thread.shift_opening base number hr.1.1]
      refine ih hr.2 looping _ _ _ ⟨rfl, fun u => ?_⟩
      simp only [Thread.shift_closing base number hr.1.1, h.go]
  | atomic body ih =>
      intro t k k' h
      simp only [shift, run, Thread.shift_setOut,
        ih hr looping t.setOut .done .done Rest.Shifted.done]
      cases body.run looping t.setOut .done with
      | matched u => exact h.go u
      | failed reached marks => rfl
  | ahead negated body ih =>
      intro t k k' h
      simp only [shift, run, Thread.shift_place]
      exact Round.Shifted.look (ih hr looping) h negated looping t.place t
  | behind negated width body ih =>
      intro t k k' h
      simp only [shift, run, Thread.shift_place]
      cases t.place.back? width with
      | some p => exact Round.Shifted.look (ih hr looping) h negated looping p t
      | none =>
          cases negated with
          | false => rfl
          | true => exact h.go t
  | backref number folding =>
      intro t k k' h
      simp only [shift, run, Thread.shift_marks, Thread.shift_place,
        Marks.text?_shift base number _ _ hr.1, Thread.shift_follow?]
      cases t.marks.text? number t.place.text with
      | none => rfl
      | some text =>
          simp only [Option.bind_some]
          cases t.follow? folding text with
          | none => rfl
          | some u => exact h.go u
  | conditional number yes no ihy ihn =>
      intro t k k' h
      simp only [shift, run, Thread.shift_marks, Marks.span?_shift base number _ hr.1.1]
      by_cases hset : (t.marks.span? number).isSome = true
      · simp only [hset, if_true]
        exact ihy hr.2.1 looping t _ _ (afterYes_shifted h no)
      · simp only [hset, Bool.false_eq_true, if_false]
        exact ihn hr.2.2 looping t k k' h
  | repeated greed least most body ih => exact .repeated (ih hr) greed least most looping

end Regex

end NamedRoutes
