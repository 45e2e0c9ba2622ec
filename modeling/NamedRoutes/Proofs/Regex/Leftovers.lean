import NamedRoutes.Proofs.Regex.Renumbering

/-!
What a failed attempt leaves behind does not decide a match. Two runs of an expression agree if they
start from the same place with the same record of the groups, wherever earlier attempts may have
got, and if what follows agrees as well. A failure may leave different edges behind, but not among
those that were known when the attempt began, and only these are looked at again.
-/

namespace NamedRoutes

/-- The number of edges that a thread knows. -/
def Thread.known (t : Thread) : Nat := t.marks.edges.length

/-- Two threads that differ at most in where earlier attempts have got, with a record of the first
`limit` groups only. -/
structure Thread.Same (limit : Nat) (t t' : Thread) : Prop where
  place : t'.place = t.place
  marks : t'.marks = t.marks
  bound : t.known ≤ 2 * limit
  closed : t.marks.lastClosed ≤ limit

namespace Thread.Same

variable {limit : Nat} {t t' : Thread}

theorem setOut_eq (h : Thread.Same limit t t') : t'.setOut = t.setOut := by
  simp only [Thread.setOut, h.place, h.marks]

theorem refl (h : t.known ≤ 2 * limit) (hclosed : t.marks.lastClosed ≤ limit) :
    Thread.Same limit t t := ⟨rfl, rfl, h, hclosed⟩

theorem self (h : Thread.Same limit t t') : Thread.Same limit t t := refl h.bound h.closed

theorem setOut (h : Thread.Same limit t t') : Thread.Same limit t.setOut t'.setOut :=
  ⟨h.place, h.marks, h.bound, h.closed⟩

theorem moveTo (h : Thread.Same limit t t') (p : Place) :
    Thread.Same limit (t.moveTo p) (t'.moveTo p) :=
  ⟨rfl, h.marks, h.bound, h.closed⟩

theorem known_eq (h : Thread.Same limit t t') : t'.known = t.known := by
  simp only [Thread.known, h.marks]

theorem remaining_eq (h : Thread.Same limit t t') : t'.remaining = t.remaining := by
  simp only [Thread.remaining, h.place]

end Thread.Same

/-- Two attempts that end alike: both match, on threads related by `Q`, or both fail and leave the
same first `n` edges behind. -/
def Attempt.Similar (n : Nat) (Q : Thread → Thread → Prop) : Attempt → Attempt → Prop
  | .matched u, .matched v => Q u v
  | .failed _ m, .failed _ m' =>
      n ≤ m.edges.length ∧ n ≤ m'.edges.length ∧ m.edges.take n = m'.edges.take n
  | _, _ => False

namespace Attempt.Similar

variable {n : Nat} {Q : Thread → Thread → Prop}

theorem mono {n' : Nat} (hn : n' ≤ n) {a a' : Attempt} (h : Attempt.Similar n Q a a') :
    Attempt.Similar n' Q a a' := by
  cases a with
  | matched u => cases a' <;> exact h
  | failed reached m =>
      cases a' with
      | matched v => exact h
      | failed reached' m' =>
          obtain ⟨hleft, hright, htake⟩ := h
          refine ⟨by omega, by omega, ?_⟩
          have hboth := congrArg (List.take n') htake
          simpa [List.take_take, Nat.min_eq_left hn] using hboth

/-- Both attempts match or both fail. -/
theorem cases {a a' : Attempt} (h : Attempt.Similar n Q a a') :
    (∃ u v, a = .matched u ∧ a' = .matched v ∧ Q u v) ∨
    (∃ reached m reached' m', a = .failed reached m ∧ a' = .failed reached' m' ∧
      n ≤ m.edges.length ∧ m.edges.take n = m'.edges.take n) := by
  cases a with
  | matched u =>
      cases a' with
      | matched v => exact Or.inl ⟨u, v, rfl, rfl, h⟩
      | failed reached m => exact h.elim
  | failed reached m =>
      cases a' with
      | matched v => exact h.elim
      | failed reached' m' => exact Or.inr ⟨reached, m, reached', m', rfl, rfl, h.1, h.2.2⟩

theorem failingAt {p p' : Place} {a a' : Attempt} (h : Attempt.Similar n Q a a') :
    Attempt.Similar n Q (a.failingAt p) (a'.failingAt p') := by
  cases a <;> cases a' <;> exact h

end Attempt.Similar

/-- Two ways of going on that agree on all threads that know at least `n` edges. -/
structure Rest.Similar (limit n : Nat) (Q : Thread → Thread → Prop) (k k' : Rest) : Prop where
  lead : k'.lead = k.lead
  go : ∀ u u', Thread.Same limit u u' → n ≤ u.known →
    Attempt.Similar u.known Q (k.go u) (k'.go u')

/-- A step of a match whose outcome depends on the place and on the record of the groups alone. -/
def Round.Steady (limit : Nat) (round : Round) : Prop :=
  ∀ Q t t' k k', Thread.Same limit t t' → Rest.Similar limit t.known Q k k' →
    Attempt.Similar t.known Q (round t k) (round t' k')

theorem Thread.Same.fail {limit : Nat} {Q : Thread → Thread → Prop} {t t' : Thread}
    (h : Thread.Same limit t t') : Attempt.Similar t.known Q t.fail t'.fail := by
  refine ⟨Nat.le_refl _, ?_, ?_⟩
  · exact Nat.le_of_eq h.known_eq.symm
  · rw [h.marks]

/-- A thread that takes up another way after a failure knows as many edges as before. -/
theorem Thread.Same.resume {limit : Nat} {t t' : Thread} (h : Thread.Same limit t t')
    (looping : Bool) (reached reached' : Place) {left left' : Marks}
    (hleft : t.known ≤ left.edges.length)
    (htake : left.edges.take t.known = left'.edges.take t.known) :
    Thread.Same limit (t.resume looping reached left) (t'.resume looping reached' left') ∧
      (t.resume looping reached left).known = t.known := by
  cases looping with
  | true => exact ⟨⟨h.place, h.marks, h.bound, h.closed⟩, rfl⟩
  | false =>
      have hknown : (left.edges.take t.known).length = t.known := by
        rw [List.length_take, Nat.min_eq_left hleft]
      refine ⟨⟨h.place, ?_, ?_, h.closed⟩, hknown⟩
      · simp only [Thread.resume, Bool.false_eq_true, if_false, Marks.afterGivingUp, h.marks]
        exact congrArg (Marks.mk · t.marks.lastClosed) htake.symm
      · exact Nat.le_trans (Nat.le_of_eq hknown) h.bound

namespace Rest.Similar

variable {limit n : Nat} {Q : Thread → Thread → Prop} {k k' : Rest}

theorem mono {n' : Nat} (hn : n ≤ n') (h : Rest.Similar limit n Q k k') :
    Rest.Similar limit n' Q k k' :=
  ⟨h.lead, fun u u' hu hknown => h.go u u' hu (Nat.le_trans hn hknown)⟩

theorem later (h : Rest.Similar limit n Q k k') : Rest.Similar limit n Q k.later k'.later :=
  ⟨rfl, h.go⟩

/-- Ending an attempt agrees with itself, and keeps the edges that are known. -/
theorem done : Rest.Similar limit n (fun u v => Thread.Same limit u v ∧ n ≤ u.known)
    .done .done :=
  ⟨rfl, fun _ _ hu hknown => ⟨hu.setOut, hknown⟩⟩

theorem fromPlaces (looping : Bool) {t t' : Thread} (ht : Thread.Same limit t t')
    (h : Rest.Similar limit t.known Q k k') (places : List Place) :
    Attempt.Similar t.known Q (k.fromPlaces looping t places)
      (k'.fromPlaces looping t' places) := by
  induction places generalizing t t' with
  | nil => exact ht.fail
  | cons p rest ih =>
      simp only [Rest.fromPlaces, h.lead]
      by_cases hlacks : k.lead.lacksLetter p = true
      · simp only [hlacks, if_true]
        exact ih ht h
      · simp only [hlacks, Bool.false_eq_true, if_false]
        have hgo := h.go _ _ (ht.moveTo p).setOut (Nat.le_refl t.known)
        rcases hgo.cases with ⟨u, v, hu, hv, hQ⟩ | ⟨reached, m, reached', m', hu, hv, hm, htake⟩
        · rw [hu, hv]
          exact hQ
        · rw [hu, hv]
          obtain ⟨hsame, hknown⟩ := ht.resume looping reached reached' hm htake
          rw [← hknown] at h ⊢
          exact ih hsame h

end Rest.Similar

theorem Thread.Same.step? {limit : Nat} {t t' : Thread} (h : Thread.Same limit t t')
    (accepts : Char → Bool) :
    (t.step? accepts = none ∧ t'.step? accepts = none) ∨
    (∃ u u', t.step? accepts = some u ∧ t'.step? accepts = some u' ∧
      Thread.Same limit u u' ∧ u.known = t.known) := by
  unfold Thread.step?
  rw [h.place]
  cases t.place.next? accepts with
  | none => exact Or.inl ⟨rfl, rfl⟩
  | some p => exact Or.inr ⟨t.moveTo p, t'.moveTo p, rfl, rfl, h.moveTo p, rfl⟩

theorem Thread.Same.follow? {limit : Nat} {t t' : Thread} (h : Thread.Same limit t t')
    (folding : Folding) (text : List Char) :
    (t.follow? folding text = none ∧ t'.follow? folding text = none) ∨
    (∃ u u', t.follow? folding text = some u ∧ t'.follow? folding text = some u' ∧
      Thread.Same limit u u' ∧ u.known = t.known) := by
  induction text generalizing t t' with
  | nil => exact Or.inr ⟨t, t', rfl, rfl, h, rfl⟩
  | cons c rest ih =>
      simp only [Thread.follow?]
      rcases h.step? (fun d => folding.small d.toNat == folding.small c.toNat) with
        ⟨hnone, hnone'⟩ | ⟨u, u', hsome, hsome', hu, hknown⟩
      · rw [hnone, hnone']
        exact Or.inl ⟨rfl, rfl⟩
      · rw [hsome, hsome']
        rw [← hknown]
        exact ih hu

namespace CharTest

variable {limit : Nat} {Q : Thread → Thread → Prop} {k k' : Rest} {t t' : Thread}

theorem lazyRound_similar (test : CharTest) (looping : Bool) {next next' : Thread → Attempt}
    (ht : Thread.Same limit t t') (h : Rest.Similar limit t.known Q k k')
    (hnext : ∀ u u', Thread.Same limit u u' → u.known = t.known →
      Attempt.Similar u.known Q (next u) (next' u')) :
    Attempt.Similar t.known Q (test.lazyRound looping k next t)
      (test.lazyRound looping k' next' t') := by
  unfold lazyRound
  have hgo := h.go _ _ ht.setOut (Nat.le_refl t.known)
  rcases hgo.cases with ⟨u, v, hu, hv, hQ⟩ | ⟨reached, m, reached', m', hu, hv, hm, htake⟩
  · rw [hu, hv]
    exact hQ
  · rw [hu, hv]
    obtain ⟨hsame, hknown⟩ := ht.resume looping reached reached' hm htake
    rcases hsame.setOut.step? test.accepts with
      ⟨hnone, hnone'⟩ | ⟨u, u', hsome, hsome', hu, huknown⟩
    · simp only [hnone, hnone']
      rw [← hknown]
      exact hsame.setOut.fail
    · simp only [hsome, hsome']
      have hall : u.known = t.known := huknown.trans hknown
      by_cases hcounts : test.countsByAttempt = true
      · simp only [hcounts, if_true]
        rw [← hall]
        exact hnext u.setOut u'.setOut hu.setOut hall
      · simp only [hcounts, Bool.false_eq_true, if_false]
        rw [← hall]
        exact hnext u u' hu hall

theorem runLazily_similar (test : CharTest) (looping : Bool) (bound : Nat)
    (ht : Thread.Same limit t t') (h : Rest.Similar limit t.known Q k k') :
    Attempt.Similar t.known Q (test.runLazily looping k bound t)
      (test.runLazily looping k' bound t') := by
  induction bound generalizing t t' with
  | zero =>
      rw [runLazily_zero, runLazily_zero]
      exact lazyRound_similar test looping ht h fun u u' hu _ => hu.fail
  | succ bound ih =>
      rw [runLazily_succ, runLazily_succ]
      refine lazyRound_similar test looping ht h fun u u' hu hknown => ?_
      rw [← hknown] at h
      exact ih hu h

theorem afterCounting_similar (test : CharTest) (greed : Greed) (least bound : Nat)
    (looping : Bool) (places : List Place) (ht : Thread.Same limit t t')
    (h : Rest.Similar limit t.known Q k k') :
    Attempt.Similar t.known Q (test.afterCounting greed least bound looping places t k)
      (test.afterCounting greed least bound looping places t' k') := by
  unfold afterCounting
  rw [ht.place]
  by_cases hfew : places.length ≤ least
  · simp only [hfew, if_true]
    exact ht.fail
  · simp only [hfew, if_false]
    cases greed with
    | greedy => exact h.fromPlaces looping ht _
    | possessive => exact h.go _ _ (ht.moveTo _) (Nat.le_refl t.known)
    | lazy => exact runLazily_similar test looping (bound - least) (ht.moveTo _) h

theorem countedPlaces_same (test : CharTest) (greed : Greed) (least : Nat) (most : Option Nat)
    (ht : Thread.Same limit t t') :
    test.countedPlaces greed least most t' = test.countedPlaces greed least most t := by
  simp only [countedPlaces, ht.place, ht.remaining_eq]

theorem counted_same (test : CharTest) (greed : Greed) (least : Nat) (most : Option Nat)
    (ht : Thread.Same limit t t') :
    Thread.Same limit (test.counted greed least most t) (test.counted greed least most t') :=
  ⟨ht.place, ht.marks, ht.bound, ht.closed⟩

theorem runRepeated_steady (limit : Nat) (test : CharTest) (greed : Greed) (least : Nat)
    (most : Option Nat) (looping : Bool) :
    Round.Steady limit (test.runRepeated greed least most looping) := by
  intro Q t t' k k' ht h
  rw [runRepeated_eq, runRepeated_eq, ht.remaining_eq, countedPlaces_same test greed least most ht]
  by_cases hfew : t.remaining < least
  · simp only [hfew, if_true]
    exact ht.fail
  · simp only [hfew, if_false]
    exact afterCounting_similar test greed least _ looping _
      (counted_same test greed least most ht) h

end CharTest

namespace Round.Steady

variable {limit : Nat} {Q : Thread → Thread → Prop} {round : Round} {k k' : Rest} {t t' : Thread}

theorem leave (ht : Thread.Same limit t t') (h : Rest.Similar limit t.known Q k k') :
    Attempt.Similar t.known Q (Round.leave t k) (Round.leave t' k') :=
  (h.go _ _ ht.setOut (Nat.le_refl t.known)).failingAt

/-- Rounds that are followed by steady steps are steady. -/
theorem exactly (hround : Round.Steady limit round) (count : Nat) (ht : Thread.Same limit t t')
    (h : Rest.Similar limit t.known Q k k') :
    Attempt.Similar t.known Q (round.exactly count t k) (round.exactly count t' k') := by
  induction count generalizing t t' with
  | zero => exact h.go t t' ht (Nat.le_refl t.known)
  | succ count ih =>
      have hrest : Rest.Similar limit t.known Q ⟨.other, fun u => round.exactly count u k⟩
          ⟨.other, fun u => round.exactly count u k'⟩ :=
        ⟨rfl, fun u u' hu hknown => ih hu (h.mono hknown)⟩
      exact (hround Q _ _ _ _ ht.setOut hrest).failingAt

theorem greedy (hround : Round.Steady limit round) (bound : Nat) (last : Option Nat)
    (ht : Thread.Same limit t t') (h : Rest.Similar limit t.known Q k k') :
    Attempt.Similar t.known Q (round.greedy bound last t k) (round.greedy bound last t' k') := by
  induction bound generalizing last t t' with
  | zero => exact leave ht h
  | succ bound ih =>
      simp only [Round.greedy, ht.remaining_eq]
      by_cases hlast : last = some t.remaining
      · simp only [hlast, if_true]
        exact leave ht h
      · simp only [hlast, if_false]
        have hrest : Rest.Similar limit t.known Q
            ⟨.other, fun u => round.greedy bound (some t.remaining) u k⟩
            ⟨.other, fun u => round.greedy bound (some t.remaining) u k'⟩ :=
          ⟨rfl, fun u u' hu hknown => ih (some t.remaining) hu (h.mono hknown)⟩
        rcases (hround Q _ _ _ _ ht.setOut hrest).cases with
          ⟨u, v, hu, hv, hQ⟩ | ⟨reached, m, reached', m', hu, hv, _, _⟩
        · rw [hu, hv]
          exact hQ
        · rw [hu, hv]
          exact leave ht h

theorem lazy (hround : Round.Steady limit round) (looping : Bool) (bound : Nat)
    (last : Option Nat) (ht : Thread.Same limit t t') (h : Rest.Similar limit t.known Q k k') :
    Attempt.Similar t.known Q (round.lazy looping bound last t k)
      (round.lazy looping bound last t' k') := by
  induction bound generalizing last t t' with
  | zero =>
      unfold Round.lazy
      have hgo := h.go _ _ ht.setOut (Nat.le_refl t.known)
      rcases hgo.cases with ⟨u, v, hu, hv, hQ⟩ | ⟨reached, m, reached', m', hu, hv, hm, htake⟩
      · rw [hu, hv]
        exact hQ
      · rw [hu, hv]
        obtain ⟨hsame, hknown⟩ := ht.resume looping reached reached' hm htake
        rw [← hknown]
        exact hsame.setOut.fail
  | succ bound ih =>
      unfold Round.lazy
      have hgo := h.go _ _ ht.setOut (Nat.le_refl t.known)
      rcases hgo.cases with ⟨u, v, hu, hv, hQ⟩ | ⟨reached, m, reached', m', hu, hv, hm, htake⟩
      · rw [hu, hv]
        exact hQ
      · rw [hu, hv]
        obtain ⟨hsame, hknown⟩ := ht.resume looping reached reached' hm htake
        rw [← hknown] at h ⊢
        have hagain := hsame.setOut
        simp only [hagain.remaining_eq]
        by_cases hlast : last = some (t.resume looping reached m).setOut.remaining
        · simp only [hlast, if_true]
          exact hagain.fail
        · simp only [hlast, if_false]
          have hrest : Rest.Similar limit (t.resume looping reached m).setOut.known Q
              ⟨.other, fun u => round.lazy looping bound
                (some (t.resume looping reached m).setOut.remaining) u k⟩
              ⟨.other, fun u => round.lazy looping bound
                (some (t.resume looping reached m).setOut.remaining) u k'⟩ :=
            ⟨rfl, fun u u' hu hu' => ih _ hu (h.mono hu')⟩
          exact (hround Q _ _ _ _ hagain hrest).failingAt

/-- A round on its own loses none of the edges that are known. -/
theorem alone (hround : Round.Steady limit round) (ht : Thread.Same limit t t) :
    (∃ u, round t .done = .matched u ∧ Thread.Same limit u u ∧ t.known ≤ u.known) ∨
    (∃ reached m, round t .done = .failed reached m ∧ t.known ≤ m.edges.length) := by
  rcases (hround _ t t _ _ ht Rest.Similar.done).cases with
    ⟨u, v, hu, _, hQ⟩ | ⟨reached, m, reached', m', hu, _, hm, _⟩
  · exact Or.inl ⟨u, hu, hQ.1.self, hQ.2⟩
  · exact Or.inr ⟨reached, m, hu, hm⟩

theorem exactlyFirst (hround : Round.Steady limit round) (count : Nat)
    (ht : Thread.Same limit t t) :
    (∃ u, round.exactlyFirst count t = .matched u ∧ Thread.Same limit u u ∧ t.known ≤ u.known) ∨
    (∃ reached m, round.exactlyFirst count t = .failed reached m ∧
      t.known ≤ m.edges.length) := by
  induction count generalizing t with
  | zero => exact Or.inl ⟨t, rfl, ht, Nat.le_refl _⟩
  | succ count ih =>
      simp only [Round.exactlyFirst]
      rcases hround.alone ht with ⟨u, hu, hsame, hknown⟩ | ⟨reached, m, hu, hm⟩
      · rw [hu]
        rcases ih hsame with ⟨v, hv, hvsame, hvknown⟩ | ⟨reached, m, hv, hm⟩
        · exact Or.inl ⟨v, hv, hvsame, Nat.le_trans hknown hvknown⟩
        · exact Or.inr ⟨reached, m, hv, Nat.le_trans hknown hm⟩
      · rw [hu]
        exact Or.inr ⟨reached, m, rfl, hm⟩

theorem possessive (hround : Round.Steady limit round) (bound : Nat)
    (ht : Thread.Same limit t t) :
    Thread.Same limit (round.possessive bound t) (round.possessive bound t) ∧
      t.known ≤ (round.possessive bound t).known := by
  induction bound generalizing t with
  | zero => exact ⟨ht, Nat.le_refl _⟩
  | succ bound ih =>
      simp only [Round.possessive]
      rcases hround.alone ht with ⟨u, hu, hsame, hknown⟩ | ⟨reached, m, hu, hm⟩
      · rw [hu]
        by_cases hstays : u.remaining = t.remaining
        · simp only [hstays, if_true]
          exact ⟨hsame, hknown⟩
        · simp only [hstays, if_false]
          obtain ⟨hagain, hmore⟩ := ih hsame
          exact ⟨hagain, Nat.le_trans hknown hmore⟩
      · rw [hu]
        exact ⟨ht.setOut, Nat.le_refl t.known⟩

theorem look (hround : Round.Steady limit round) (negated looping : Bool) (p : Place)
    (ht : Thread.Same limit t t') (h : Rest.Similar limit t.known Q k k') :
    Attempt.Similar t.known Q (Round.look round negated looping p t k)
      (Round.look round negated looping p t' k') := by
  unfold Round.look
  rw [(ht.moveTo p).setOut_eq, ht.place]
  rcases hround.alone (ht.self.moveTo p).setOut with
    ⟨u, hu, hsame, hknown⟩ | ⟨reached, m, hu, hm⟩
  · rw [hu]
    cases negated with
    | false => exact (h.go _ _ (hsame.moveTo t.place) hknown).mono hknown
    | true => exact hsame.fail.mono hknown
  · rw [hu]
    cases negated with
    | false => exact ⟨hm, hm, rfl⟩
    | true =>
        obtain ⟨hagain, hagainKnown⟩ := ht.resume looping reached reached hm rfl
        have hle := Nat.le_of_eq hagainKnown.symm
        exact (h.go _ _ hagain hle).mono hle

end Round.Steady

namespace Marks

/-- Setting an edge loses no edge, and leaves the record within its bound if the edge is. -/
theorem le_length_setEdge (edge index : Nat) (edges : List (Option Nat)) :
    edges.length ≤ (setEdge edge index edges).length := by
  unfold setEdge
  split
  · exact Nat.le_of_eq (List.length_set ..).symm
  · simp only [List.length_append, List.length_replicate]
    omega

theorem length_setEdge_le (edge index bound : Nat) (edges : List (Option Nat))
    (hedge : edge < bound) (hedges : edges.length ≤ bound) :
    (setEdge edge index edges).length ≤ bound := by
  unfold setEdge
  split
  · rw [List.length_set]
    exact hedges
  · simp only [List.length_append, List.length_replicate, List.length_cons, List.length_nil]
    omega

end Marks

namespace Thread.Same

variable {limit : Nat} {t t' : Thread}

theorem opening (h : Thread.Same limit t t') (number : Nat)
    (hnumber : 0 < number ∧ number ≤ limit) :
    Thread.Same limit (t.opening number) (t'.opening number) ∧
      t.known ≤ (t.opening number).known := by
  refine ⟨⟨h.place, ?_, ?_, h.closed⟩, Marks.le_length_setEdge ..⟩
  · simp only [Thread.opening, h.marks, h.place]
  · apply Marks.length_setEdge_le _ _ _ _ _ h.bound
    unfold Marks.startEdge
    omega

theorem closing (h : Thread.Same limit t t') (number : Nat)
    (hnumber : 0 < number ∧ number ≤ limit) :
    Thread.Same limit (t.closing number) (t'.closing number) ∧
      t.known ≤ (t.closing number).known := by
  refine ⟨⟨h.place, ?_, ?_, hnumber.2⟩, Marks.le_length_setEdge ..⟩
  · simp only [Thread.closing, h.marks, h.place]
  · apply Marks.length_setEdge_le _ _ _ _ _ h.bound
    unfold Marks.startEdge
    omega

end Thread.Same

theorem Regex.afterYes_similar {limit n : Nat} {Q : Thread → Thread → Prop} {k k' : Rest}
    (h : Rest.Similar limit n Q k k') (no : Regex) :
    Rest.Similar limit n Q (Regex.afterYes k no) (Regex.afterYes k' no) := by
  cases no <;> first | exact h | exact h.later

theorem Regex.furtherRounds_same {limit : Nat} {t t' : Thread} (h : Thread.Same limit t t')
    (least : Nat) (most : Option Nat) :
    Regex.furtherRounds least most t' = Regex.furtherRounds least most t := by
  simp only [Regex.furtherRounds, h.remaining_eq]

namespace Round.Steady

variable {limit : Nat} {looping : Bool} {first second others body yes no : Regex}

theorem one (test : CharTest) (looping : Bool) :
    Round.Steady limit ((Regex.one test).run looping) := by
  intro Q t t' k k' ht h
  simp only [Regex.run]
  rcases ht.step? test.accepts with ⟨hnone, hnone'⟩ | ⟨u, u', hsome, hsome', hu, hknown⟩
  · simp only [hnone, hnone']
    exact ht.fail
  · simp only [hsome, hsome', ← hknown]
    exact h.go u u' hu (Nat.le_of_eq hknown.symm)

theorem anchor (a : Anchor) (looping : Bool) :
    Round.Steady limit ((Regex.anchor a).run looping) := by
  intro Q t t' k k' ht h
  simp only [Regex.run, ht.place]
  by_cases hholds : a.holds t.place = true
  · simp only [hholds, if_true]
    exact h.go t t' ht (Nat.le_refl _)
  · simp only [hholds, Bool.false_eq_true, if_false]
    exact ht.fail

theorem andThen (hfirst : Round.Steady limit (first.run looping))
    (hsecond : Round.Steady limit (second.run looping)) :
    Round.Steady limit ((Regex.seq first second).run looping) := by
  intro Q t t' k k' ht h
  simp only [Regex.run, h.lead]
  refine hfirst Q t t' _ _ ht ⟨rfl, fun u u' hu hknown => ?_⟩
  exact hsecond Q u u' k k' hu (h.mono hknown)

theorem alt (hfirst : Round.Steady limit (first.run looping))
    (hothers : Round.Steady limit (others.run looping)) :
    Round.Steady limit ((Regex.alt first others).run looping) := by
  intro Q t t' k k' ht h
  simp only [Regex.run, ht.place]
  by_cases hlacks : (first.lead?.getD .other).lacks t.place = true
  · simp only [hlacks, if_true]
    exact hothers Q t t' k k' ht h
  · simp only [hlacks, Bool.false_eq_true, if_false]
    rcases (hfirst Q _ _ _ _ ht.setOut h.later).cases with
      ⟨u, v, hu, hv, hQ⟩ | ⟨reached, m, reached', m', hu, hv, hm, htake⟩
    · rw [hu, hv]
      exact hQ
    · rw [hu, hv]
      obtain ⟨hagain, hknown⟩ := ht.resume looping reached reached' hm htake
      rw [← hknown] at h ⊢
      exact hothers Q _ _ k k' hagain h

theorem capture {number : Nat} (hnumber : 0 < number ∧ number ≤ limit)
    (hbody : Round.Steady limit (body.run looping)) :
    Round.Steady limit ((Regex.capture number body).run looping) := by
  intro Q t t' k k' ht h
  simp only [Regex.run]
  obtain ⟨hopened, hmore⟩ := ht.opening number hnumber
  have hrest : Rest.Similar limit (t.opening number).known Q
      ⟨.other, fun u => k.go (u.closing number)⟩
      ⟨.other, fun u => k'.go (u.closing number)⟩ := by
    refine ⟨rfl, fun u u' hu hknown => ?_⟩
    obtain ⟨hclosed, hgrown⟩ := hu.closing number hnumber
    have hall := Nat.le_trans (Nat.le_trans hmore hknown) hgrown
    exact (h.go _ _ hclosed hall).mono hgrown
  exact (hbody Q _ _ _ _ hopened hrest).mono hmore

theorem atomic (hbody : Round.Steady limit (body.run looping)) :
    Round.Steady limit ((Regex.atomic body).run looping) := by
  intro Q t t' k k' ht h
  simp only [Regex.run, ht.setOut_eq, ht.place]
  rcases hbody.alone ht.self.setOut with ⟨u, hu, hsame, hknown⟩ | ⟨reached, m, hu, hm⟩
  · rw [hu]
    exact (h.go u u hsame hknown).mono hknown
  · rw [hu]
    exact ⟨hm, hm, rfl⟩

theorem ahead (negated : Bool) (hbody : Round.Steady limit (body.run looping)) :
    Round.Steady limit ((Regex.ahead negated body).run looping) := by
  intro Q t t' k k' ht h
  simp only [Regex.run, ht.place]
  exact hbody.look negated looping t.place ht h

theorem behind (negated : Bool) (width : Nat) (hbody : Round.Steady limit (body.run looping)) :
    Round.Steady limit ((Regex.behind negated width body).run looping) := by
  intro Q t t' k k' ht h
  simp only [Regex.run, ht.place]
  cases t.place.back? width with
  | some p => exact hbody.look negated looping p ht h
  | none =>
      cases negated with
      | false => exact ht.fail
      | true => exact h.go t t' ht (Nat.le_refl _)

theorem backref (number : Nat) (folding : Folding) (looping : Bool) :
    Round.Steady limit ((Regex.backref number folding).run looping) := by
  intro Q t t' k k' ht h
  simp only [Regex.run, ht.marks, ht.place]
  cases t.marks.text? number t.place.text with
  | none => exact ht.fail
  | some text =>
      simp only [Option.bind_some]
      rcases ht.follow? folding text with
        ⟨hnone, hnone'⟩ | ⟨u, u', hsome, hsome', hu, hknown⟩
      · simp only [hnone, hnone']
        exact ht.fail
      · simp only [hsome, hsome', ← hknown]
        exact h.go u u' hu (Nat.le_of_eq hknown.symm)

theorem conditional (number : Nat) (hyes : Round.Steady limit (yes.run looping))
    (hno : Round.Steady limit (no.run looping)) :
    Round.Steady limit ((Regex.conditional number yes no).run looping) := by
  intro Q t t' k k' ht h
  simp only [Regex.run, ht.marks]
  by_cases hset : (t.marks.span? number).isSome = true
  · simp only [hset, if_true]
    exact hyes Q t t' _ _ ht (Regex.afterYes_similar h no)
  · simp only [hset, Bool.false_eq_true, if_false]
    exact hno Q t t' k k' ht h

/-- A repetition of a test runs as such. Any other one is steady if its rounds are. -/
theorem repeated (hbody : ∀ looping, Round.Steady limit (body.run looping)) (greed : Greed)
    (least : Nat) (most : Option Nat) (looping : Bool) :
    Round.Steady limit ((Regex.repeated greed least most body).run looping) := by
  intro Q t t' k k' ht h
  simp only [Regex.run]
  cases body.test? with
  | some test =>
      exact CharTest.runRepeated_steady limit test greed least most looping Q t t' k k' ht h
  | none =>
      cases greed with
      | greedy =>
          refine (hbody true).exactly least ht ⟨rfl, fun u u' hu hknown => ?_⟩
          simp only [Regex.furtherRounds_same hu]
          exact (hbody true).greedy _ none hu (h.mono hknown)
      | lazy =>
          refine (hbody true).exactly least ht ⟨rfl, fun u u' hu hknown => ?_⟩
          simp only [Regex.furtherRounds_same hu]
          exact (hbody true).lazy looping _ none hu (h.mono hknown)
      | possessive =>
          simp only [ht.setOut_eq, ht.place]
          rcases (hbody looping).exactlyFirst least ht.self.setOut with
            ⟨u, hu, hsame, hknown⟩ | ⟨reached, m, hu, hm⟩
          · rw [hu]
            obtain ⟨hagain, hmore⟩ :=
              (hbody looping).possessive (Regex.furtherRounds least most u) hsame
            have hall := Nat.le_trans hknown hmore
            exact (h.go _ _ hagain hall).mono hall
          · rw [hu]
            exact ⟨hm, hm, rfl⟩

end Round.Steady

/-- Whether and how an expression matches does not depend on where earlier attempts have got. -/
theorem Regex.run_steady (limit : Nat) (r : Regex) (hr : r.numbersWithin limit) (looping : Bool) :
    Round.Steady limit (r.run looping) := by
  induction r generalizing looping with
  | empty => exact fun Q t t' k k' ht h => h.go t t' ht (Nat.le_refl _)
  | never => exact fun Q t t' k k' ht h => ht.fail
  | one test => exact .one test looping
  | anchor a => exact .anchor a looping
  | seq first second ihf ihs => exact .andThen (ihf hr.1 looping) (ihs hr.2 looping)
  | alt first others ihf iho => exact .alt (ihf hr.1 looping) (iho hr.2 looping)
  | group body ih => exact ih hr looping
  | capture number body ih => exact .capture hr.1 (ih hr.2 looping)
  | atomic body ih => exact .atomic (ih hr looping)
  | ahead negated body ih => exact .ahead negated (ih hr looping)
  | behind negated width body ih => exact .behind negated width (ih hr looping)
  | backref number folding => exact .backref number folding looping
  | conditional number yes no ihy ihn =>
      exact .conditional number (ihy hr.2.1 looping) (ihn hr.2.2 looping)
  | repeated greed least most body ih => exact .repeated (ih hr) greed least most looping

end NamedRoutes
