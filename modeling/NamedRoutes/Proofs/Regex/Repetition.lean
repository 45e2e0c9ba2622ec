import NamedRoutes.Proofs.Regex.Tracking

/-!
How a repetition without groups is run. It goes on from places behind some rounds of its body in
turn, as many as it allows. A repetition of a local body also matches whenever going on from one of
these places does: rounds that stay where they are can be left out, and so there are no more of them
than characters.
-/

namespace NamedRoutes

open Place

/-- After one step, one less may come before going on. -/
theorem Rest.EndsIn.later {s : Scene} {good : Thread → Prop} {k : Rest}
    {step : Place → Place → Prop} {bound : Nat} {p r : Place}
    (hk : k.EndsIn s good fun q => ∃ count, count ≤ bound + 1 ∧ Steps step count p q)
    (hstep : step p r) :
    k.EndsIn s good fun q => ∃ count, count ≤ bound ∧ Steps step count r q := by
  rintro u hu ⟨count, hcount, hsteps⟩
  exact hk u hu ⟨count + 1, Nat.succ_le_succ hcount, _, hstep, hsteps⟩

/-- After a step that moves on, the text to come is not the same. -/
theorem Thread.remaining_ne {step : Place → Place → Prop}
    (hleads : ∀ p q, step p q → ∃ text, p.Leads text q) {t u : Thread}
    (hstep : step t.place u.place) (hmoves : u.place ≠ t.place) :
    some t.remaining ≠ some u.remaining := by
  obtain ⟨text, htext⟩ := hleads _ _ hstep
  exact fun hsame => Nat.ne_of_gt (htext.lt_of_ne hmoves) (Option.some.inj hsame)

namespace CharTest

variable {s : Scene} {good : Thread → Prop} {t : Thread} {k : Rest}

/-- A character that passes a test, as a step. -/
def Step (test : CharTest) (p q : Place) : Prop := p.next? test.accepts = some q

theorem text_of_step {test : CharTest} (p q : Place) (h : test.Step p q) : q.text = p.text :=
  Regex.Spans.text_eq (r := .one test) h

/-- Steps in turn are the characters of a text that pass the test. -/
theorem steps_iff {test : CharTest} {count : Nat} {p q : Place} :
    Steps test.Step count p q ↔
      ∃ text, text.length = count ∧ (∀ c ∈ text, test.accepts c = true) ∧ p.Leads text q := by
  induction count generalizing p with
  | zero =>
      simp only [List.length_eq_zero_iff, exists_eq_left, List.not_mem_nil,
        false_implies, implies_true, true_and, leads_nil]
      exact Iff.rfl
  | succ count ih =>
      constructor
      · rintro ⟨first, hfirst, hrest⟩
        obtain ⟨c, hc, hleads⟩ := Place.next?_eq_some_iff.mp hfirst
        obtain ⟨text, rfl, hall, hmore⟩ := ih.mp hrest
        exact ⟨c :: text, rfl, List.forall_mem_cons.mpr ⟨hc, hall⟩, hleads.trans hmore⟩
      · rintro ⟨text, hlength, hall, hleads⟩
        obtain ⟨c, rest, rfl⟩ := List.exists_cons_of_length_eq_add_one hlength
        obtain ⟨hc, hall⟩ := List.forall_mem_cons.mp hall
        obtain ⟨first, hfirst, hrest⟩ := hleads.of_cons
        exact ⟨first, Place.next?_eq_some_iff.mpr ⟨c, hc, hfirst⟩,
          ih.mpr ⟨rest, Nat.succ.inj hlength, hall, hrest⟩⟩

theorem steps_le_remaining {test : CharTest} {count : Nat} {p q : Place}
    (h : Steps test.Step count p q) : count + q.after.length = p.after.length := by
  obtain ⟨text, rfl, _, hleads⟩ := steps_iff.mp h
  rw [hleads.after, List.length_append]

theorem steps_unique {test : CharTest} {count : Nat} {p q r : Place} (h : Steps test.Step count p q)
    (h' : Steps test.Step count p r) : q = r := by
  have hself := (getElem?_through count count).mpr ⟨Nat.le_refl _, h⟩
  have hother := (getElem?_through count count).mpr ⟨Nat.le_refl _, h'⟩
  exact Option.some.inj (hself.symm.trans hother)

theorem spans_of_test? {body : Regex} {test : CharTest} (h : body.test? = some test) :
    body.Spans = test.Step := by
  induction body with
  | one other =>
      cases h
      rfl
  | seq first second ih _ =>
      cases second with
      | empty =>
          rw [← ih h]
          funext p q
          simp [Regex.Spans]
      | _ => cases h
  | group body ih => exact ih h
  | _ => cases h

/-- One round of a lazy repetition of a test. -/
theorem lazyRound_endsIn (test : CharTest) (looping : Bool) {next : Thread → Attempt} (ht : t.In s)
    (hk : (k.go t.setOut).EndsIn s good)
    (hnext : ∀ u, u.In s → test.Step t.place u.place → (next u).EndsIn s good) :
    (test.lazyRound looping k next t).EndsIn s good := by
  unfold lazyRound
  cases hgo : k.go t.setOut with
  | matched u =>
      rw [hgo] at hk
      exact hk
  | failed reached left =>
      rw [hgo] at hk
      have hagain := (ht.resume looping hk).setOut
      simp only [Thread.step?]
      cases hstep : (t.resume looping reached left).setOut.place.next? test.accepts with
      | none => exact hagain.fail
      | some q =>
          have hu := hagain.moveTo ((text_of_step _ _ hstep).trans ht.text)
          simp only [Option.map_some]
          split
          · exact hnext _ hu.setOut hstep
          · exact hnext _ hu hstep

theorem runLazily_endsIn (test : CharTest) (looping : Bool) (bound : Nat) (ht : t.In s)
    (hk : k.EndsIn s good fun q => ∃ count, count ≤ bound ∧ Steps test.Step count t.place q) :
    (test.runLazily looping k bound t).EndsIn s good := by
  have hhere := hk t.setOut ht.setOut ⟨0, Nat.zero_le _, rfl⟩
  induction bound generalizing t with
  | zero =>
      rw [runLazily_zero]
      exact lazyRound_endsIn test looping ht hhere fun u hu _ => hu.fail
  | succ bound ih =>
      rw [runLazily_succ]
      refine lazyRound_endsIn test looping ht hhere fun u hu hstep => ?_
      exact ih hu (hk.later hstep) (hk.later hstep _ hu.setOut ⟨0, Nat.zero_le _, rfl⟩)

theorem exists_runLazily (test : CharTest) (looping : Bool) {bound count : Nat} {q : Place}
    (ht : t.In s)
    (hk : k.EndsIn s (fun _ => True) fun q =>
      ∃ count, count ≤ bound ∧ Steps test.Step count t.place q)
    (hcount : count ≤ bound) (hsteps : Steps test.Step count t.place q)
    (hsure : ∀ u : Thread, u.In s → u.place = q → ∃ v, k.go u = .matched v) :
    ∃ v, test.runLazily looping k bound t = .matched v := by
  induction count generalizing bound t with
  | zero =>
      obtain ⟨v, hv⟩ := hsure t.setOut ht.setOut hsteps.symm
      refine ⟨v, ?_⟩
      cases bound with
      | zero => rw [runLazily_zero, lazyRound, hv]
      | succ bound => rw [runLazily_succ, lazyRound, hv]
  | succ count ih =>
      obtain ⟨first, hfirst, hrest⟩ := hsteps
      obtain ⟨bound, rfl⟩ : ∃ b, bound = b + 1 := ⟨bound - 1, by omega⟩
      have hhere := hk t.setOut ht.setOut ⟨0, Nat.zero_le _, rfl⟩
      rw [runLazily_succ]
      unfold lazyRound
      cases hgo : k.go t.setOut with
      | matched u => exact ⟨u, rfl⟩
      | failed reached left =>
          rw [hgo] at hhere
          have hu := (ht.resume looping hhere).setOut.moveTo
            ((text_of_step _ _ hfirst).trans ht.text)
          have hstep : (t.resume looping reached left).setOut.step? test.accepts =
              some ((t.resume looping reached left).setOut.moveTo first) :=
            congrArg (Option.map _) hfirst
          simp only [hstep]
          split
          · exact ih hu.setOut (hk.later hfirst) (Nat.le_of_succ_le_succ hcount) hrest
          · exact ih hu (hk.later hfirst) (Nat.le_of_succ_le_succ hcount) hrest

variable {test : CharTest} {least : Nat} {most : Option Nat} {looping : Bool}

/-- The places from which a greedy repetition of a test goes on. -/
theorem mem_counted {q : Place} :
    q ∈ ((t.place.through test.accepts (most.getD t.remaining)).drop least).reverse ↔
      ∃ count, least ≤ count ∧ count ≤ most.getD t.remaining ∧ Steps test.Step count t.place q := by
  rw [List.mem_reverse, List.mem_iff_getElem?]
  simp only [List.getElem?_drop, getElem?_through]
  constructor
  · rintro ⟨i, hbound, hsteps⟩
    exact ⟨least + i, Nat.le_add_right .., hbound, hsteps⟩
  · rintro ⟨count, hleast, hbound, hsteps⟩
    obtain ⟨i, rfl⟩ := Nat.exists_eq_add_of_le hleast
    exact ⟨i, hbound, hsteps⟩

theorem allows_of_le {count : Nat} (hleast : least ≤ count)
    (hle : count - least ≤ most.getD t.remaining - least) : Regex.Allows least most count := by
  refine ⟨hleast, ?_⟩
  rintro limit rfl
  exact hle

/-- There are no more rounds than characters. -/
theorem le_of_allows {count : Nat} {q : Place} (hsteps : Steps test.Step count t.place q)
    (hallows : Regex.Allows least most count) (hmost : most.all (least ≤ ·) = true) :
    count ≤ most.getD t.remaining := by
  have hremaining := steps_le_remaining hsteps
  cases most with
  | none =>
      rw [Option.getD_none, Thread.remaining]
      omega
  | some limit =>
      have hlimit : least ≤ limit := by simpa using hmost
      have hleast := hallows.enough
      have hbounded := hallows.bounded limit rfl
      rw [Option.getD_some]
      omega

theorem length_through_le (accepts : Char → Bool) (bound : Nat) (p : Place) :
    (p.through accepts bound).length ≤ bound + 1 := by
  refine Nat.le_of_not_lt fun hlong => ?_
  have hbeyond := (getElem?_through bound (bound + 1)).mp (List.getElem?_eq_getElem hlong)
  omega

/-- Where a repetition has got once it has counted as many characters as it needs. -/
theorem steps_getLastD (hmany : least < (t.place.through test.accepts least).length) :
    Steps test.Step least t.place ((t.place.through test.accepts least).getLastD t.place) := by
  have hlength := length_through_le test.accepts least t.place
  have hlast : (t.place.through test.accepts least).length - 1 = least := by omega
  rw [List.getLastD_eq_getLast?, List.getLast?_eq_getElem?, hlast, List.getElem?_eq_getElem hmany,
    Option.getD_some]
  exact ((getElem?_through least least).mp (List.getElem?_eq_getElem hmany)).2

theorem length_through_of_steps {count bound : Nat} {p q : Place} (hle : count ≤ bound)
    (hsteps : Steps test.Step count p q) : count < (p.through test.accepts bound).length :=
  (List.getElem?_eq_some_iff.mp ((getElem?_through bound count).mpr ⟨hle, hsteps⟩)).1

theorem text_of_through {bound : Nat} {p q : Place} (h : q ∈ p.through test.accepts bound) :
    q.text = p.text := by
  obtain ⟨i, hi⟩ := List.mem_iff_getElem?.mp h
  exact ((getElem?_through bound i).mp hi).2.text_eq text_of_step

theorem text_getLastD (test : CharTest) (bound : Nat) (p : Place) :
    ((p.through test.accepts bound).getLastD p).text = p.text := by
  have hmem : (p.through test.accepts bound).getLastD p ∈ p :: p.through test.accepts bound :=
    List.getLastD_mem_cons
  rcases List.mem_cons.mp hmem with hself | hthrough
  · exact congrArg Place.text hself
  · exact text_of_through hthrough

theorem counted_in (greed : Greed) (ht : t.In s) : (test.counted greed least most t).In s :=
  ⟨ht.text, ht.marks⟩

/-- What a repetition of a test says about places. -/
theorem tracks_greedy (test : CharTest) (least : Nat) (most : Option Nat) (looping : Bool) :
    Round.Tracks (fun p q => ∃ count, Regex.Allows least most count ∧ Steps test.Step count p q)
      (most.all (least ≤ ·) = true) (test.runRepeated .greedy least most looping) := by
  constructor
  · intro s good t k ht hk
    have hcounted : (test.counted .greedy least most t).In s := counted_in .greedy ht
    rw [runRepeated_eq]
    unfold afterCounting
    split
    · exact ht.fail
    · split
      · exact hcounted.fail
      · refine k.fromPlaces_endsIn looping hcounted (fun q hq => ?_) fun u hu hmem => ?_
        · obtain ⟨_, _, _, hsteps⟩ := mem_counted.mp hq
          exact (hsteps.text_eq text_of_step).trans ht.text
        · obtain ⟨count, hleast, hle, hsteps⟩ := mem_counted.mp hmem
          exact hk u hu ⟨count, allows_of_le hleast (Nat.sub_le_sub_right hle least), hsteps⟩
  · rintro hmost s t k q ht hk hhonest ⟨count, hallows, hsteps⟩ hsure
    have hcounted : (test.counted .greedy least most t).In s := counted_in .greedy ht
    have hle : count ≤ most.getD t.remaining := le_of_allows hsteps hallows hmost
    have hleast := hallows.enough
    have hremaining := steps_le_remaining hsteps
    have hfew : ¬ (test.countedPlaces .greedy least most t).length ≤ least :=
      Nat.not_le_of_lt (Nat.lt_of_le_of_lt hleast (length_through_of_steps hle hsteps))
    rw [runRepeated_eq, if_neg (by unfold Thread.remaining; omega), afterCounting, if_neg hfew]
    refine k.exists_fromPlaces looping hcounted (fun q hq => ?_) (fun u hu hmem => ?_) hhonest
      (mem_counted.mpr ⟨count, hleast, hle, hsteps⟩) hsure
    · obtain ⟨_, _, _, hsteps⟩ := mem_counted.mp hq
      exact (hsteps.text_eq text_of_step).trans ht.text
    · obtain ⟨count, hleast, hle, hsteps⟩ := mem_counted.mp hmem
      exact hk u hu ⟨count, allows_of_le hleast (Nat.sub_le_sub_right hle least), hsteps⟩

theorem tracks_lazy (test : CharTest) (least : Nat) (most : Option Nat) (looping : Bool) :
    Round.Tracks (fun p q => ∃ count, Regex.Allows least most count ∧ Steps test.Step count p q)
      (most.all (least ≤ ·) = true) (test.runRepeated .lazy least most looping) := by
  have hlater : ∀ {s : Scene} {good : Thread → Prop} {t : Thread} {k : Rest}, k.EndsIn s good
      (fun q => ∃ count, Regex.Allows least most count ∧ Steps test.Step count t.place q) →
        least < (t.place.through test.accepts least).length →
          k.EndsIn s good (fun q => ∃ count, count ≤ most.getD t.remaining - least ∧
            Steps test.Step count ((t.place.through test.accepts least).getLastD t.place) q) := by
    rintro s good t k hk hmany u hu ⟨count, hcount, hsteps⟩
    refine hk u hu ⟨least + count, allows_of_le (t := t) (Nat.le_add_right ..) ?_, ?_⟩
    · rwa [Nat.add_sub_cancel_left]
    · exact (steps_getLastD hmany).append hsteps
  have hset : ∀ {s : Scene} {t : Thread}, t.In s → ((test.counted .lazy least most t).moveTo
      ((t.place.through test.accepts least).getLastD t.place)).In s := fun ht =>
    (counted_in .lazy ht).moveTo ((text_getLastD test least _).trans ht.text)
  constructor
  · intro s good t k ht hk
    rw [runRepeated_eq]
    unfold afterCounting
    split
    · exact ht.fail
    · split
      · exact (counted_in .lazy ht).fail
      · rename_i hfew
        exact test.runLazily_endsIn looping _ (hset ht) (hlater hk (Nat.lt_of_not_le hfew))
  · rintro hmost s t k q ht hk hhonest ⟨count, hallows, hsteps⟩ hsure
    have hleast := hallows.enough
    have hle : count ≤ most.getD t.remaining := le_of_allows hsteps hallows hmost
    have hremaining := steps_le_remaining hsteps
    obtain ⟨further, rfl⟩ := Nat.exists_eq_add_of_le hleast
    obtain ⟨m, hfirst, hfurther⟩ := hsteps.split
    have hmany := length_through_of_steps (Nat.le_refl least) hfirst
    have hlast : (t.place.through test.accepts least).getLastD t.place = m :=
      steps_unique (steps_getLastD hmany) hfirst
    have hfew : ¬ (test.countedPlaces .lazy least most t).length ≤ least := Nat.not_le_of_lt hmany
    rw [runRepeated_eq, if_neg (by unfold Thread.remaining; omega), afterCounting, if_neg hfew]
    exact test.exists_runLazily looping (hset ht) (hlater hk hmany) (by omega)
      (hlast ▸ hfurther) hsure

/-- Where a repetition has got once it has counted all the characters that it may take. -/
theorem exists_getLastD (test : CharTest) (bound : Nat) (p : Place) :
    ∃ count, (p.through test.accepts bound).length = count + 1 ∧ count ≤ bound ∧
      Steps test.Step count p ((p.through test.accepts bound).getLastD p) ∧
      (count < bound → ∀ r, ¬ test.Step ((p.through test.accepts bound).getLastD p) r) := by
  have hfirst : 0 < (p.through test.accepts bound).length :=
    length_through_of_steps (Nat.zero_le bound) (show Steps test.Step 0 p p from rfl)
  obtain ⟨count, hlength⟩ := Nat.exists_eq_add_of_lt hfirst
  rw [Nat.zero_add] at hlength
  have hlast : (p.through test.accepts bound)[count]? =
      some ((p.through test.accepts bound).getLastD p) := by
    rw [List.getLastD_eq_getLast?, List.getLast?_eq_getElem?, hlength, Nat.add_sub_cancel,
      List.getElem?_eq_getElem (by omega), Option.getD_some]
  obtain ⟨hle, hsteps⟩ := (getElem?_through bound count).mp hlast
  refine ⟨count, hlength, hle, hsteps, fun hless r hr => ?_⟩
  have hmore : count + 1 < (p.through test.accepts bound).length :=
    length_through_of_steps hless (hsteps.append (Steps.single hr))
  omega

/-- There is one place to which all the characters lead that may be taken. -/
theorem through_of_exhausted {bound count : Nat} {p q : Place} (hsteps : Steps test.Step count p q)
    (hle : count ≤ bound) (hlast : count = bound ∨ ∀ r, ¬ test.Step q r) :
    (p.through test.accepts bound).length = count + 1 ∧
    (p.through test.accepts bound).getLastD p = q := by
  obtain ⟨other, hlength, hle', hsteps', _⟩ := test.exists_getLastD bound p
  have hcount := length_through_of_steps hle hsteps
  obtain rfl : other = count := by
    have hnot : ¬ count < other := fun hless => by
      rcases hlast with rfl | hlast
      · exact absurd hle' (Nat.not_le_of_lt hless)
      · obtain ⟨further, rfl⟩ := Nat.exists_eq_add_of_lt hless
        obtain ⟨m, hfirst, r, hr, _⟩ := Steps.split (m := count) (n := further + 1) hsteps'
        obtain rfl := steps_unique hfirst hsteps
        exact hlast r hr
    omega
  exact ⟨hlength, steps_unique hsteps' hsteps⟩

/-- A repetition that gives nothing back goes on once it has taken all that it may. -/
theorem tracks_possessive (test : CharTest) (least : Nat) (most : Option Nat) (looping : Bool) :
    Round.Tracks (fun p q => ∃ count, Regex.Allows least most count ∧ Steps test.Step count p q ∧
        (most = some count ∨ ∀ r, ¬ test.Step q r))
      (most.all (least ≤ ·) = true) (test.runRepeated .possessive least most looping) := by
  constructor
  · intro s good t k ht hk
    have hcounted : (test.counted .possessive least most t).In s := counted_in .possessive ht
    obtain ⟨count, hlength, hle, hsteps, hmost⟩ :=
      test.exists_getLastD (most.getD t.remaining) t.place
    rw [runRepeated_eq]
    unfold afterCounting
    split
    · exact ht.fail
    · split
      · exact hcounted.fail
      · rename_i hfew
        have hleast : least ≤ count := by
          have hcount : (test.countedPlaces .possessive least most t).length = count + 1 := hlength
          omega
        have htext := hsteps.text_eq text_of_step
        refine hk _ (hcounted.moveTo (htext.trans ht.text)) ⟨count, ?_, hsteps, ?_⟩
        · exact allows_of_le (t := t) hleast (Nat.sub_le_sub_right hle least)
        · rcases Nat.lt_or_eq_of_le hle with hless | hequal
          · exact Or.inr (hmost hless)
          · cases most with
            | some limit => exact Or.inl (congrArg some hequal.symm)
            | none =>
                -- All of the text has been taken, so there is no character to go on with.
                refine Or.inr fun r hr => ?_
                have hremaining := steps_le_remaining (hsteps.append (Steps.single hr))
                rw [Option.getD_none, Thread.remaining] at hequal
                omega
  · rintro hmost s t k q ht hk hhonest ⟨count, hallows, hsteps, hlast⟩ hsure
    have hcounted : (test.counted .possessive least most t).In s := counted_in .possessive ht
    have hle : count ≤ most.getD t.remaining := le_of_allows hsteps hallows hmost
    have hleast := hallows.enough
    have hremaining := steps_le_remaining hsteps
    have hexhausted : count = most.getD t.remaining ∨ ∀ r, ¬ test.Step q r :=
      hlast.imp_left fun hlimit => by rw [hlimit, Option.getD_some]
    obtain ⟨hlength, hplace⟩ := through_of_exhausted hsteps hle hexhausted
    have hfew : ¬ (test.countedPlaces .possessive least most t).length ≤ least := by
      have hcount : (test.countedPlaces .possessive least most t).length = count + 1 := hlength
      omega
    rw [runRepeated_eq, if_neg (by unfold Thread.remaining; omega), afterCounting, if_neg hfew]
    have htext : ((t.place.through test.accepts (most.getD t.remaining)).getLastD t.place).text =
        s.text :=
      (text_getLastD test _ t.place).trans ht.text
    exact hsure _ (hcounted.moveTo htext) hplace

end CharTest

/-- Going on after the last round. -/
theorem Round.exists_leave {t : Thread} {k : Rest} (h : ∃ v, k.go t.setOut = .matched v) :
    ∃ v, leave t k = .matched v := by
  obtain ⟨v, hv⟩ := h
  refine ⟨v, ?_⟩
  rw [leave, hv]
  rfl

namespace Round.Tracks

variable {spans : Place → Place → Prop} {exact : Prop} {round : Round} {s : Scene}
  {good : Thread → Prop} {t : Thread} {k : Rest} {q : Place} {looping : Bool}

theorem leave_endsIn (ht : t.In s) (hk : k.EndsIn s good (· = t.place)) :
    (Round.leave t k).EndsIn s good := (hk _ ht.setOut rfl).failingAt _

theorem leave_of_sure (ht : t.In s) (hsure : ∀ u : Thread, u.In s → u.place = t.place →
    ∃ v, k.go u = .matched v) : ∃ v, Round.leave t k = .matched v :=
  exists_leave (hsure _ ht.setOut rfl)

/-- A fixed number of rounds. -/
theorem exactly (h : Round.Tracks spans exact round) (count : Nat) :
    Round.Tracks (Steps spans count) exact (round.exactly count) := by
  induction count with
  | zero => exact pass
  | succ count ih =>
      have hrest : ∀ {s : Scene} {good : Thread → Prop} {k : Rest} {p : Place},
          k.EndsIn s good (Steps spans (count + 1) p) →
            Rest.EndsIn s good (spans p) ⟨.other, fun u => round.exactly count u k⟩ :=
        fun hk u hu hspan => ih.sound hu fun v hv hsteps => hk v hv ⟨_, hspan, hsteps⟩
      constructor
      · exact fun ht hk => (h.sound ht.setOut (hrest hk)).failingAt _
      · rintro he s t k q ht hk hhonest ⟨m, hm, hsteps⟩ hsure
        obtain ⟨v, hv⟩ :=
          h.complete he ht.setOut (hrest hk) (fun _ _ _ => rfl) hm fun u hu hplace => by
            subst hplace
            exact ih.complete he hu (fun v hv hsteps => hk v hv ⟨_, hm, hsteps⟩) hhonest hsteps
              hsure
        exact ⟨v, by rw [Round.exactly, hv]; rfl⟩

/-- Further rounds before going on. -/
theorem greedy_endsIn (h : Round.Tracks spans exact round) (bound : Nat) (last : Option Nat)
    (ht : t.In s)
    (hk : k.EndsIn s good fun q => ∃ count, count ≤ bound ∧ Steps spans count t.place q) :
    (round.greedy bound last t k).EndsIn s good := by
  have hleave : (Round.leave t k).EndsIn s good :=
    leave_endsIn ht fun u hu hplace => hk u hu ⟨0, Nat.zero_le _, hplace⟩
  induction bound generalizing last t with
  | zero => exact hleave
  | succ bound ih =>
      have hround :=
        h.sound (k := ⟨.other, fun u => round.greedy bound (some t.remaining) u k⟩) ht.setOut
        fun u hu hspan => ih _ hu (hk.later hspan)
          (leave_endsIn hu fun v hv hplace => hk.later hspan v hv ⟨0, Nat.zero_le _, hplace⟩)
      simp only [Round.greedy]
      split
      · exact hleave
      · cases hrun :
            round t.setOut ⟨.other, fun u => round.greedy bound (some t.remaining) u k⟩ with
        | matched u =>
            rw [hrun] at hround
            exact hround
        | failed reached left => exact hleave

theorem exists_greedy (h : Round.Tracks spans exact round) (he : exact)
    (hleads : ∀ p q, spans p q → ∃ text, p.Leads text q) {bound count : Nat} {last : Option Nat}
    (ht : t.In s)
    (hk : k.EndsIn s (fun _ => True) fun q => ∃ count, count ≤ bound ∧ Steps spans count t.place q)
    (hlast : last ≠ some t.remaining) (hcount : count ≤ bound)
    (hsteps : Steps (fun p q => spans p q ∧ q ≠ p) count t.place q)
    (hsure : ∀ u : Thread, u.In s → u.place = q → ∃ v, k.go u = .matched v) :
    ∃ v, round.greedy bound last t k = .matched v := by
  induction count generalizing bound last t with
  | zero =>
      obtain rfl : q = t.place := hsteps
      have hleave := leave_of_sure ht hsure
      cases bound with
      | zero => exact hleave
      | succ bound =>
          simp only [Round.greedy, hlast, if_false]
          split
          · exact ⟨_, rfl⟩
          · exact hleave
  | succ count ih =>
      obtain ⟨bound, rfl⟩ : ∃ b, bound = b + 1 := ⟨bound - 1, by omega⟩
      obtain ⟨m, ⟨hm, hmoves⟩, hrest⟩ := hsteps
      obtain ⟨v, hv⟩ :=
        h.complete (k := ⟨.other, fun u => round.greedy bound (some t.remaining) u k⟩) he ht.setOut
          (fun u hu hspan => h.greedy_endsIn bound _ hu (hk.later hspan)) (fun _ _ _ => rfl) hm
        fun u hu hplace => by
          subst hplace
          exact ih hu (hk.later hm) (Thread.remaining_ne hleads hm hmoves)
            (Nat.le_of_succ_le_succ hcount) hrest
      simp only [Round.greedy, hlast, if_false, hv]
      exact ⟨v, rfl⟩

/-- Going on before further rounds. -/
theorem lazy_endsIn (h : Round.Tracks spans exact round) (bound : Nat) (last : Option Nat)
    (ht : t.In s)
    (hk : k.EndsIn s good fun q => ∃ count, count ≤ bound ∧ Steps spans count t.place q) :
    (round.lazy looping bound last t k).EndsIn s good := by
  induction bound generalizing last t with
  | zero =>
      have hhere := hk _ ht.setOut ⟨0, Nat.le_refl _, rfl⟩
      unfold Round.lazy
      cases hgo : k.go t.setOut with
      | matched u =>
          rw [hgo] at hhere
          exact hhere
      | failed reached left =>
          rw [hgo] at hhere
          exact (ht.resume looping hhere).setOut.fail
  | succ bound ih =>
      have hhere := hk _ ht.setOut ⟨0, Nat.zero_le _, rfl⟩
      unfold Round.lazy
      cases hgo : k.go t.setOut with
      | matched u =>
          rw [hgo] at hhere
          exact hhere
      | failed reached left =>
          rw [hgo] at hhere
          have hagain := (ht.resume looping hhere).setOut
          simp only
          split
          · exact hagain.fail
          · exact (h.sound hagain fun u hu hspan => ih _ hu (hk.later hspan)).failingAt _

theorem exists_lazy (h : Round.Tracks spans exact round) (he : exact)
    (hleads : ∀ p q, spans p q → ∃ text, p.Leads text q) {bound count : Nat} {last : Option Nat}
    (ht : t.In s)
    (hk : k.EndsIn s (fun _ => True) fun q => ∃ count, count ≤ bound ∧ Steps spans count t.place q)
    (hlast : last ≠ some t.remaining) (hcount : count ≤ bound)
    (hsteps : Steps (fun p q => spans p q ∧ q ≠ p) count t.place q)
    (hsure : ∀ u : Thread, u.In s → u.place = q → ∃ v, k.go u = .matched v) :
    ∃ v, round.lazy looping bound last t k = .matched v := by
  induction count generalizing bound last t with
  | zero =>
      obtain rfl : q = t.place := hsteps
      obtain ⟨v, hv⟩ := hsure _ ht.setOut rfl
      refine ⟨v, ?_⟩
      unfold Round.lazy
      rw [hv]
  | succ count ih =>
      obtain ⟨bound, rfl⟩ : ∃ b, bound = b + 1 := ⟨bound - 1, by omega⟩
      obtain ⟨m, ⟨hm, hmoves⟩, hrest⟩ := hsteps
      have hhere := hk _ ht.setOut ⟨0, Nat.zero_le _, rfl⟩
      unfold Round.lazy
      cases hgo : k.go t.setOut with
      | matched u => exact ⟨u, rfl⟩
      | failed reached left =>
          rw [hgo] at hhere
          obtain ⟨v, hv⟩ := h.complete
            (k := ⟨.other, fun u => round.lazy looping bound (some t.remaining) u k⟩) he
            (ht.resume looping hhere).setOut
            (fun u hu hspan => h.lazy_endsIn bound _ hu (hk.later hspan))
            (fun _ _ _ => rfl) hm fun u hu hplace => by
              subst hplace
              exact ih hu (hk.later hm) (Thread.remaining_ne hleads hm hmoves)
                (Nat.le_of_succ_le_succ hcount) hrest
          have hremaining : (t.resume looping reached left).setOut.remaining = t.remaining := rfl
          simp only [hremaining, hlast, if_false, hv]
          exact ⟨v, rfl⟩

/-- Rounds that are each matched in the first way. -/
theorem exactlyFirst_endsIn (h : Round.Tracks spans exact round) (count : Nat) (ht : t.In s) :
    (round.exactlyFirst count t).EndsIn s fun u => u.In s ∧ Steps spans count t.place u.place := by
  induction count generalizing t with
  | zero => exact ⟨ht, rfl⟩
  | succ count ih =>
      have hround := h.sound ht (Rest.done_endsIn s _)
      simp only [Round.exactlyFirst]
      cases hrun : round t .done with
      | matched u =>
          rw [hrun] at hround
          have hrest := ih hround.1
          simp only
          cases hlast : round.exactlyFirst count u with
          | matched v =>
              rw [hlast] at hrest
              exact ⟨hrest.1, _, hround.2, hrest.2⟩
          | failed reached left =>
              rw [hlast] at hrest
              exact hrest
      | failed reached left =>
          rw [hrun] at hround
          exact hround

/-- Further rounds of that kind. One that fails leaves the thread where it is. -/
theorem possessive_in (h : Round.Tracks spans exact round) (bound : Nat) (ht : t.In s) :
    (round.possessive bound t).In s ∧
      ∃ count, count ≤ bound ∧ Steps spans count t.place (round.possessive bound t).place := by
  induction bound generalizing t with
  | zero => exact ⟨ht, 0, Nat.le_refl _, rfl⟩
  | succ bound ih =>
      have hround := h.sound ht (Rest.done_endsIn s _)
      simp only [Round.possessive, Round.passOver_eq]
      cases hrun : round t .done with
      | matched u =>
          rw [hrun] at hround
          simp only
          split
          · exact ⟨hround.1, 1, Nat.le_add_left .., .single hround.2⟩
          · obtain ⟨hlast, count, hle, hsteps⟩ := ih hround.1
            exact ⟨hlast, count + 1, Nat.succ_le_succ hle, _, hround.2, hsteps⟩
      | failed reached left => exact ⟨ht.setOut, 0, Nat.zero_le _, rfl⟩

section Repeated

variable {body : Regex} {least : Nat} {most : Option Nat}

theorem allows_of_further {count : Nat} (hle : count ≤ Regex.furtherRounds least most t) :
    Regex.Allows least most (least + count) := by
  refine ⟨Nat.le_add_right .., ?_⟩
  rintro limit rfl
  rwa [Nat.add_sub_cancel_left]

/-- Rounds that move are no more than may be tried. -/
theorem exists_further {count : Nat} {p : Place}
    (hallows : Regex.Allows least most count) (hsteps : Steps body.Spans count p q) :
    ∃ m, Steps body.Spans least p m ∧ ∀ u : Thread, u.place = m →
      ∃ further, further ≤ Regex.furtherRounds least most u ∧
        Steps (fun p q => body.Spans p q ∧ q ≠ p) further u.place q := by
  obtain ⟨more, rfl⟩ := Nat.exists_eq_add_of_le hallows.enough
  obtain ⟨m, hfirst, hmore⟩ := hsteps.split
  obtain ⟨further, hle, hproper⟩ := hmore.proper
  have hremaining := hproper.le_remaining fun _ _ => Regex.Spans.leads
  refine ⟨m, hfirst, ?_⟩
  rintro u rfl
  refine ⟨further, ?_, hproper⟩
  cases most with
  | none =>
      change further ≤ u.place.after.length + 1
      omega
  | some limit =>
      have hbounded := hallows.bounded limit rfl
      change further ≤ limit - least
      omega

/-- The required rounds, and then further ones as long as these may be tried. -/
theorem further (h : Round.Tracks body.Spans (body.isLocal = true) (body.run true)) (next : Round)
    (hsound : ∀ {s : Scene} {good : Thread → Prop} {t : Thread} {k : Rest}, t.In s →
      (k.EndsIn s good fun q => ∃ count, count ≤ Regex.furtherRounds least most t ∧
        Steps body.Spans count t.place q) → (next t k).EndsIn s good)
    (hcomplete : body.isLocal = true →
      ∀ {s : Scene} {t : Thread} {k : Rest} {q : Place} {count : Nat}, t.In s →
      (k.EndsIn s (fun _ => True) fun q =>
        ∃ count, count ≤ Regex.furtherRounds least most t ∧ Steps body.Spans count t.place q) →
      count ≤ Regex.furtherRounds least most t →
      Steps (fun p q => body.Spans p q ∧ q ≠ p) count t.place q →
      (∀ u : Thread, u.In s → u.place = q → ∃ v, k.go u = .matched v) →
      ∃ v, next t k = .matched v) :
    Round.Tracks (fun p q => ∃ count, Regex.Allows least most count ∧ Steps body.Spans count p q)
      (body.isLocal = true)
      (fun t k => (body.run true).exactly least t ⟨.other, fun u => next u k⟩) := by
  have hlater : ∀ {s : Scene} {good : Thread → Prop} {t u : Thread} {k : Rest},
      (k.EndsIn s good fun q => ∃ count, Regex.Allows least most count ∧
        Steps body.Spans count t.place q) → Steps body.Spans least t.place u.place →
      k.EndsIn s good fun q => ∃ count, count ≤ Regex.furtherRounds least most u ∧
        Steps body.Spans count u.place q := by
    rintro s good t u k hk hfirst v hv ⟨count, hle, hsteps⟩
    exact hk v hv ⟨least + count, allows_of_further hle, hfirst.append hsteps⟩
  have hexactly := h.exactly least
  constructor
  · exact fun ht hk => hexactly.sound ht fun u hu hfirst => hsound hu (hlater hk hfirst)
  · rintro he s t k q ht hk hhonest ⟨count, hallows, hsteps⟩ hsure
    obtain ⟨m, hfirst, hfurther⟩ := exists_further hallows hsteps
    refine hexactly.complete he ht (fun u hu hsteps => hsound hu (hlater hk hsteps))
      (fun _ _ _ => rfl) hfirst fun u hu hplace => ?_
    obtain ⟨count, hle, hproper⟩ := hfurther u hplace
    exact hcomplete he hu (hlater hk (hplace ▸ hfirst)) hle hproper hsure

/-- A repetition of a test. -/
theorem repeated_test {test : CharTest} (htest : body.test? = some test) (greed : Greed)
    (least : Nat) (most : Option Nat) (looping : Bool) :
    Round.Tracks (Regex.repeated greed least most body).Spans
      ((Regex.repeated greed least most body).isLocal = true)
      ((Regex.repeated greed least most body).run looping) := by
  have hrun : (Regex.repeated greed least most body).run looping =
      test.runRepeated greed least most looping := by
    funext t k
    simp only [Regex.run, htest]
  rw [hrun]
  cases greed with
  | possessive =>
      have hspans : (Regex.repeated .possessive least most body).Spans = fun p q =>
          ∃ count, Regex.Allows least most count ∧ Steps test.Step count p q ∧
            (most = some count ∨ ∀ r, ¬ test.Step q r) := by
        funext p q
        simp only [Regex.Spans, htest, Option.isSome_some, forall_const,
          CharTest.spans_of_test? htest]
      rw [hspans]
      exact (test.tracks_possessive least most looping).mono fun he =>
        (Regex.isLocal_repeated he).2.1
  | greedy =>
      rw [Regex.spans_repeated .greedy (by decide), CharTest.spans_of_test? htest]
      exact (test.tracks_greedy least most looping).mono fun he => (Regex.isLocal_repeated he).2.1
  | lazy =>
      rw [Regex.spans_repeated .lazy (by decide), CharTest.spans_of_test? htest]
      exact (test.tracks_lazy least most looping).mono fun he => (Regex.isLocal_repeated he).2.1

/-- A repetition of anything else. -/
theorem repeated_body
    (h : ∀ looping, Round.Tracks body.Spans (body.isLocal = true) (body.run looping))
    (htest : body.test? = none) (greed : Greed) (least : Nat) (most : Option Nat) (looping : Bool) :
    Round.Tracks (Regex.repeated greed least most body).Spans
      ((Regex.repeated greed least most body).isLocal = true)
      ((Regex.repeated greed least most body).run looping) := by
  cases greed with
  | possessive =>
      refine ⟨fun {s good t k} ht hk => ?_, fun he => ?_⟩
      · have hfirst := (h looping).exactlyFirst_endsIn least ht.setOut
        simp only [Regex.run, htest]
        cases hrun : (body.run looping).exactlyFirst least t.setOut with
        | matched u =>
            rw [hrun] at hfirst
            obtain ⟨hlast, count, hle, hsteps⟩ :=
              (h looping).possessive_in (Regex.furtherRounds least most u) hfirst.1
            refine hk _ hlast ⟨least + count, allows_of_further hle, hfirst.2.append hsteps, ?_⟩
            simp [htest]
        | failed reached left =>
            rw [hrun] at hfirst
            exact hfirst
      · have hsome := (Regex.isLocal_repeated he).1 rfl
        rw [htest] at hsome
        cases hsome
  | greedy =>
      have hrun : (Regex.repeated .greedy least most body).run looping = fun t k =>
          (body.run true).exactly least t ⟨.other, fun u =>
            (body.run true).greedy (Regex.furtherRounds least most u) none u k⟩ := by
        funext t k
        simp only [Regex.run, htest]
      rw [Regex.spans_repeated .greedy (by decide), hrun]
      refine ((h true).further (fun u =>
        (body.run true).greedy (Regex.furtherRounds least most u) none u)
        (fun hu hk => (h true).greedy_endsIn _ none hu hk) ?_).mono fun he =>
          (Regex.isLocal_repeated he).2.2
      exact fun he _ _ _ _ _ hu hk hle hproper hsure =>
        (h true).exists_greedy he (fun _ _ => Regex.Spans.leads) hu hk (fun hnone => by cases hnone)
          hle hproper hsure
  | lazy =>
      have hrun : (Regex.repeated .lazy least most body).run looping = fun t k =>
          (body.run true).exactly least t ⟨.other, fun u =>
            (body.run true).lazy looping (Regex.furtherRounds least most u) none u k⟩ := by
        funext t k
        simp only [Regex.run, htest]
      rw [Regex.spans_repeated .lazy (by decide), hrun]
      refine ((h true).further (fun u =>
        (body.run true).lazy looping (Regex.furtherRounds least most u) none u)
        (fun hu hk => (h true).lazy_endsIn _ none hu hk) ?_).mono fun he =>
          (Regex.isLocal_repeated he).2.2
      exact fun he _ _ _ _ _ hu hk hle hproper hsure =>
        (h true).exists_lazy he (fun _ _ => Regex.Spans.leads) hu hk (fun hnone => by cases hnone)
          hle hproper hsure

/-- Every repetition does what its rounds do. -/
theorem repeated (h : ∀ looping, Round.Tracks body.Spans (body.isLocal = true) (body.run looping))
    (greed : Greed) (least : Nat) (most : Option Nat) (looping : Bool) :
    Round.Tracks (Regex.repeated greed least most body).Spans
      ((Regex.repeated greed least most body).isLocal = true)
      ((Regex.repeated greed least most body).run looping) := by
  cases htest : body.test? with
  | some test => exact repeated_test htest greed least most looping
  | none => exact repeated_body h htest greed least most looping

end Repeated

end Round.Tracks

/-- An expression without groups goes on from the places to which it spans the text. If it is local,
it matches whenever going on from one of them does. -/
theorem Regex.tracks (r : Regex) (h : r.numbersWithin 0) (looping : Bool) :
    Round.Tracks r.Spans (r.isLocal = true) (r.run looping) := by
  induction r generalizing looping with
  | empty => exact .pass
  | never => exact .never
  | one test => exact .one test looping
  | anchor a => exact .anchor a looping
  | seq first second ihf ihs =>
      refine ((ihf h.1 looping).andThen (ihs h.2 looping)).mono fun he => ?_
      simpa only [isLocal, Bool.and_eq_true] using he
  | alt first others ihf iho =>
      refine ((ihf h.1 looping).alt (iho h.2 looping)).mono fun he => ?_
      simpa only [isLocal, Bool.and_eq_true] using he
  | group body ih => exact ih h looping
  | capture number body => exact absurd (Nat.lt_of_lt_of_le h.1.1 h.1.2) (Nat.lt_irrefl 0)
  | atomic body ih => exact (ih h looping).atomic.mono Bool.false_ne_true
  | ahead negated body ih => exact (ih h looping).ahead isLocal_of_isPlain negated
  | behind negated width body ih => exact (ih h looping).behind isLocal_of_isPlain negated width
  | backref number folding => exact absurd (Nat.lt_of_lt_of_le h.1 h.2) (Nat.lt_irrefl 0)
  | conditional number yes no => exact absurd (Nat.lt_of_lt_of_le h.1.1 h.1.2) (Nat.lt_irrefl 0)
  | repeated greed least most body ih => exact .repeated (ih h) greed least most looping

end NamedRoutes
