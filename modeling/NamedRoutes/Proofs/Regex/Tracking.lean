import NamedRoutes.Proofs.Regex.Alternatives
import NamedRoutes.Proofs.Regex.Spans

/-!
How an expression without groups is run. Every way that is tried goes on from a place to which the
expression spans the text, with the record as it was, and a failure leaves the record as it was as
well. If the expression is local, it also matches whenever going on from one of these places does,
in whatever order they are tried.
-/

namespace NamedRoutes

/-- What stays as it is where nothing is recorded: the text and the record. -/
structure Scene where
  text : List Char
  marks : Marks

/-- Whether an attempt matches in some way or fails with the edges still known. -/
def Attempt.EndsIn (s : Scene) (good : Thread → Prop) : Attempt → Prop
  | .matched u => good u
  | .failed _ left => s.marks.edges <+: left.edges

structure Thread.In (s : Scene) (t : Thread) : Prop where
  text : t.place.text = s.text
  marks : t.marks = s.marks

/-- Whether going on ends in some way from the threads of a scene that stand at some places. -/
def Rest.EndsIn (s : Scene) (good : Thread → Prop) (places : Place → Prop) (k : Rest) : Prop :=
  ∀ u, u.In s → places u.place → (k.go u).EndsIn s good

/-- Whether going on succeeds only where a look at the next character does not rule it out. -/
def Rest.Honest (k : Rest) : Prop :=
  ∀ u v, k.go u = .matched v → k.lead.lacksLetter u.place = false

/-- A failure that keeps the edges is put right. -/
theorem Marks.afterGivingUp_of_kept {m left : Marks} (h : m.edges <+: left.edges) :
    m.afterGivingUp left = m := by
  obtain ⟨more, hmore⟩ := h
  unfold afterGivingUp
  rw [← hmore, List.take_left]

namespace Thread.In

variable {s : Scene} {t : Thread} {good : Thread → Prop}

theorem setOut (h : t.In s) : t.setOut.In s := ⟨h.text, h.marks⟩

theorem moveTo (h : t.In s) {p : Place} (hp : p.text = s.text) : (t.moveTo p).In s :=
  ⟨hp, h.marks⟩

theorem resume (h : t.In s) {reached : Place} {left : Marks} (looping : Bool)
    (hfailed : (Attempt.failed reached left).EndsIn s good) :
    (t.resume looping reached left).In s := by
  refine ⟨h.text, ?_⟩
  cases looping with
  | true => exact h.marks
  | false =>
      refine Eq.trans ?_ h.marks
      exact Marks.afterGivingUp_of_kept (h.marks ▸ hfailed)

theorem fail (h : t.In s) : t.fail.EndsIn s good := by
  rw [Thread.fail, h.marks]
  exact List.prefix_rfl

end Thread.In

theorem Attempt.EndsIn.failingAt {s : Scene} {good : Thread → Prop} {a : Attempt}
    (h : a.EndsIn s good) (p : Place) : (a.failingAt p).EndsIn s good := by
  cases a <;> exact h

/-- Whether a step of a match does what some places say: it goes on from the places that they lead
to only, and if it is exact, it matches whenever going on from one of them does. -/
structure Round.Tracks (spans : Place → Place → Prop) (exact : Prop) (round : Round) : Prop where
  sound : ∀ {s good t k}, t.In s → k.EndsIn s good (spans t.place) → (round t k).EndsIn s good
  complete : exact → ∀ {s t k q}, t.In s → k.EndsIn s (fun _ => True) (spans t.place) → k.Honest →
    spans t.place q → (∀ u, u.In s → u.place = q → ∃ v, k.go u = .matched v) →
      ∃ v, round t k = .matched v

namespace Rest

variable {s : Scene} {good : Thread → Prop} {places : Place → Prop} {t : Thread} {k : Rest}

theorem EndsIn.weaken (h : k.EndsIn s good places) : k.EndsIn s (fun _ => True) places := by
  intro u hu hplace
  have hends := h u hu hplace
  cases hgo : k.go u with
  | matched v => exact trivial
  | failed reached left =>
      rw [hgo] at hends
      exact hends

/-- Ending an attempt where it is. -/
theorem done_endsIn (s : Scene) (places : Place → Prop) :
    done.EndsIn s (fun u => u.In s ∧ places u.place) places :=
  fun _ hu hplace => ⟨hu.setOut, hplace⟩

theorem done_honest : done.Honest := fun _ _ _ => rfl

/-- An expression that comes first does not succeed where a look at the next character rules it out.
-/
theorem Honest.before (h : k.Honest) (r : Regex) (looping : Bool) :
    Rest.Honest ⟨r.lead?.getD k.lead, fun u => r.run looping u k⟩ := by
  intro u v hmatched
  cases hlead : r.lead? with
  | none =>
      rw [Option.getD_none]
      simp only [Regex.run_of_lead_none r hlead] at hmatched
      exact h u v hmatched
  | some lead =>
      rw [Option.getD_some]
      apply Bool.eq_false_iff.mpr
      intro hlacks
      have hlacks' : (r.lead?.getD .other).lacks u.place = true := by
        rw [hlead, Option.getD_some]
        cases lead with
        | letter code => exact hlacks
        | set s => cases hlacks
        | other => cases hlacks
      simp only [Regex.run_of_lacks r looping u k hlacks'] at hmatched
      cases hmatched

/-- Going on from the first of some places from which that succeeds. -/
theorem fromPlaces_endsIn (looping : Bool) {list : List Place} (ht : t.In s)
    (htexts : ∀ p ∈ list, p.text = s.text) (hk : k.EndsIn s good (· ∈ list)) :
    (k.fromPlaces looping t list).EndsIn s good := by
  induction list generalizing t with
  | nil => exact ht.fail
  | cons p rest ih =>
      obtain ⟨hp, htexts⟩ := List.forall_mem_cons.mp htexts
      have hrest : k.EndsIn s good (· ∈ rest) :=
        fun u hu hmem => hk u hu (List.mem_cons_of_mem _ hmem)
      have hfirst := hk _ (ht.moveTo hp).setOut List.mem_cons_self
      unfold fromPlaces
      split
      · exact ih ht htexts hrest
      · cases hgo : k.go (t.moveTo p).setOut with
        | matched u =>
            rw [hgo] at hfirst
            exact hfirst
        | failed reached left =>
            rw [hgo] at hfirst
            exact ih (ht.resume looping hfirst) htexts hrest

theorem exists_fromPlaces (looping : Bool) {list : List Place} {q : Place} (ht : t.In s)
    (htexts : ∀ p ∈ list, p.text = s.text) (hk : k.EndsIn s (fun _ => True) (· ∈ list))
    (hhonest : k.Honest) (hq : q ∈ list)
    (hsure : ∀ u : Thread, u.In s → u.place = q → ∃ v, k.go u = .matched v) :
    ∃ v, k.fromPlaces looping t list = .matched v := by
  induction list generalizing t with
  | nil => cases hq
  | cons p rest ih =>
      obtain ⟨hp, htexts⟩ := List.forall_mem_cons.mp htexts
      have hrest : k.EndsIn s (fun _ => True) (· ∈ rest) := fun u hu hmem =>
        hk u hu (List.mem_cons_of_mem _ hmem)
      have hset := (ht.moveTo hp).setOut
      have hfirst := hk _ hset List.mem_cons_self
      unfold fromPlaces
      split
      · rename_i hlacks
        rcases List.mem_cons.mp hq with rfl | hq
        · obtain ⟨v, hv⟩ := hsure _ hset rfl
          exact absurd hlacks (Bool.eq_false_iff.mp (hhonest _ v hv))
        · exact ih ht htexts hrest hq
      · cases hgo : k.go (t.moveTo p).setOut with
        | matched u => exact ⟨u, rfl⟩
        | failed reached left =>
            rw [hgo] at hfirst
            rcases List.mem_cons.mp hq with rfl | hq
            · obtain ⟨v, hv⟩ := hsure _ hset rfl
              rw [hgo] at hv
              cases hv
            · exact ih (ht.resume looping hfirst) htexts hrest hq

end Rest

namespace Round.Tracks

variable {spans spans' : Place → Place → Prop} {exact exact' : Prop} {round : Round}

theorem mono (h : Round.Tracks spans exact round) (hexact : exact' → exact) :
    Round.Tracks spans exact' round := ⟨h.sound, fun he => h.complete (hexact he)⟩

theorem pass : Round.Tracks (fun p q => q = p) exact fun t k => k.go t :=
  ⟨fun ht hk => hk _ ht rfl, fun _ _ _ _ _ ht _ _ hq hsure => hsure _ ht hq.symm⟩

theorem never : Round.Tracks (fun _ _ => False) exact fun t _ => t.fail :=
  ⟨fun ht _ => ht.fail, fun _ _ _ _ _ _ _ _ hq _ => hq.elim⟩

/-- A test of a character. -/
theorem one (test : CharTest) (looping : Bool) :
    Round.Tracks (fun p q => p.next? test.accepts = some q) exact
      ((Regex.one test).run looping) := by
  constructor
  · intro s good t k ht hk
    simp only [Regex.run, Thread.step?]
    cases hnext : t.place.next? test.accepts with
    | none => exact ht.fail
    | some q =>
        have htext : q.text = t.place.text := Regex.Spans.text_eq (r := .one test) hnext
        exact hk _ (ht.moveTo (htext.trans ht.text)) hnext
  · intro _ s t k q ht hk hhonest hq hsure
    simp only [Regex.run, Thread.step?, hq, Option.map_some]
    have htext : q.text = t.place.text := Regex.Spans.text_eq (r := .one test) hq
    exact hsure _ (ht.moveTo (htext.trans ht.text)) rfl

theorem anchor (a : Anchor) (looping : Bool) :
    Round.Tracks (fun p q => q = p ∧ a.holds p = true) exact ((Regex.anchor a).run looping) := by
  constructor
  · intro s good t k ht hk
    simp only [Regex.run]
    split
    · rename_i hholds
      exact hk _ ht ⟨rfl, hholds⟩
    · exact ht.fail
  · intro _ s t k q ht hk hhonest hq hsure
    simp only [Regex.run, hq.2, if_true]
    exact hsure _ ht hq.1.symm

/-- One expression after another. -/
theorem andThen (h : Round.Tracks spans exact round) {r : Regex} {looping : Bool}
    (hr : Round.Tracks spans' exact' (r.run looping)) :
    Round.Tracks (fun p q => ∃ m, spans p m ∧ spans' m q) (exact ∧ exact')
      (fun t k => round t ⟨r.lead?.getD k.lead, fun u => r.run looping u k⟩) := by
  have hrest : ∀ {s good t k}, Rest.EndsIn s good (fun q => ∃ m, spans t m ∧ spans' m q) k →
      Rest.EndsIn s good (spans t) ⟨r.lead?.getD k.lead, fun u => r.run looping u k⟩ :=
    fun hk u hu hspan => hr.sound hu fun v hv hspan' => hk v hv ⟨_, hspan, hspan'⟩
  constructor
  · exact fun ht hk => h.sound ht (hrest hk)
  · rintro ⟨he, he'⟩ s t k q ht hk hhonest ⟨m, hm, hq⟩ hsure
    refine h.complete he ht (hrest hk) (hhonest.before r looping) hm fun u hu hplace => ?_
    subst hplace
    exact hr.complete he' hu (fun v hv hspan => hk v hv ⟨_, hm, hspan⟩) hhonest hq hsure

/-- One expression or another. -/
theorem alt {first others : Regex} {looping : Bool}
    (h : Round.Tracks spans exact (first.run looping))
    (h' : Round.Tracks spans' exact' (others.run looping)) :
    Round.Tracks (fun p q => spans p q ∨ spans' p q) (exact ∧ exact')
      ((Regex.alt first others).run looping) := by
  constructor
  · intro s good t k ht hk
    simp only [Regex.run]
    split
    · exact h'.sound ht fun u hu hspan => hk u hu (Or.inr hspan)
    · have hfirst := h.sound ht.setOut (k := k.later) fun u hu hspan => hk u hu (Or.inl hspan)
      cases hrun : first.run looping t.setOut k.later with
      | matched u =>
          rw [hrun] at hfirst
          exact hfirst
      | failed reached left =>
          rw [hrun] at hfirst
          exact h'.sound (ht.resume looping hfirst) fun u hu hspan => hk u hu (Or.inr hspan)
  · rintro ⟨he, he'⟩ s t k q ht hk hhonest hq hsure
    have hleft : k.EndsIn s (fun _ => True) (spans t.place) :=
      fun u hu hspan => hk u hu (Or.inl hspan)
    have hright : k.EndsIn s (fun _ => True) (spans' t.place) :=
      fun u hu hspan => hk u hu (Or.inr hspan)
    have hmatches : spans t.place q → ∃ v, first.run looping t.setOut k.later = .matched v :=
      fun hspan => h.complete he ht.setOut (k := k.later) hleft (fun _ _ _ => rfl) hspan hsure
    simp only [Regex.run]
    split
    · rename_i hlacks
      refine h'.complete he' ht hright hhonest (hq.resolve_left fun hspan => ?_) hsure
      obtain ⟨v, hv⟩ := hmatches hspan
      rw [Regex.run_of_lacks first looping t.setOut k.later hlacks] at hv
      cases hv
    · have hfirst := h.sound ht.setOut (k := k.later) hleft
      cases hrun : first.run looping t.setOut k.later with
      | matched u => exact ⟨u, rfl⟩
      | failed reached left =>
          rw [hrun] at hfirst
          refine h'.complete he' (ht.resume looping hfirst) hright hhonest
            (hq.resolve_left fun hspan => ?_) hsure
          obtain ⟨v, hv⟩ := hmatches hspan
          rw [hrun] at hv
          cases hv

/-- What keeps the first way in which its body matches goes on as the body does. -/
theorem atomic {body : Regex} {looping : Bool} (h : Round.Tracks spans exact (body.run looping)) :
    Round.Tracks spans False ((Regex.atomic body).run looping) := by
  refine ⟨fun {s good t k} ht hk => ?_, False.elim⟩
  have hbody := h.sound ht.setOut (Rest.done_endsIn s _)
  simp only [Regex.run]
  cases hrun : body.run looping t.setOut .done with
  | matched u =>
      rw [hrun] at hbody
      exact hk u hbody.1 hbody.2
  | failed reached left =>
      rw [hrun] at hbody
      exact hbody

section Look

variable {s : Scene} {good : Thread → Prop} {t : Thread} {k : Rest} {p : Place}
  {negated looping : Bool}

/-- A look from a place goes on where it was. If the look is to fail and is exact, there is nothing
to see from that place. -/
theorem look_endsIn (h : Round.Tracks spans exact round) (ht : t.In s) (hp : p.text = s.text)
    (hk : k.EndsIn s good fun q =>
      q = t.place ∧ (negated = true → exact → ∀ r, ¬ spans p r)) :
    (Round.look round negated looping p t k).EndsIn s good := by
  have hset := (ht.moveTo hp).setOut
  have hround := h.sound hset (Rest.done_endsIn s _)
  unfold Round.look
  cases hrun : round (t.moveTo p).setOut .done with
  | matched u =>
      rw [hrun] at hround
      cases negated with
      | false =>
          exact hk _ (hround.1.moveTo ht.text)
            ⟨rfl, fun hnegated => absurd hnegated Bool.false_ne_true⟩
      | true => exact hround.1.fail
  | failed reached left =>
      rw [hrun] at hround
      cases negated with
      | false => exact hround
      | true =>
          refine hk _ (ht.resume looping hround) ⟨rfl, fun _ he r hspan => ?_⟩
          obtain ⟨v, hv⟩ := h.complete he hset (Rest.done_endsIn s _).weaken Rest.done_honest hspan
            fun u _ _ => ⟨u.setOut, rfl⟩
          rw [hrun] at hv
          cases hv

/-- A look that is to fail does so if there is nothing to see. -/
theorem exists_look (h : Round.Tracks spans exact round) (ht : t.In s) (hp : p.text = s.text)
    (hnone : ∀ r, ¬ spans p r)
    (hsure : ∀ u : Thread, u.In s → u.place = t.place → ∃ v, k.go u = .matched v) :
    ∃ v, Round.look round true looping p t k = .matched v := by
  have hround := h.sound (ht.moveTo hp).setOut (Rest.done_endsIn s _)
  unfold Round.look
  cases hrun : round (t.moveTo p).setOut .done with
  | matched u =>
      rw [hrun] at hround
      exact absurd hround.2 (hnone u.place)
  | failed reached left =>
      rw [hrun] at hround
      exact hsure _ (ht.resume looping hround) rfl

end Look

/-- A test of the text ahead. -/
theorem ahead {body : Regex} {looping : Bool} (h : Round.Tracks body.Spans exact (body.run looping))
    (hexact : body.isPlain = true → exact) (negated : Bool) :
    Round.Tracks (Regex.ahead negated body).Spans ((Regex.ahead negated body).isLocal = true)
      ((Regex.ahead negated body).run looping) := by
  have h := h.mono hexact
  constructor
  · intro s good t k ht hk
    exact h.look_endsIn ht ht.text hk
  · intro he s t k q ht hk hhonest hq hsure
    simp only [Regex.isLocal, Bool.and_eq_true] at he
    obtain ⟨rfl, hnone⟩ := hq
    obtain ⟨rfl, hplain⟩ := he
    exact h.exists_look ht ht.text (hnone rfl hplain) hsure

/-- A test of the text before. -/
theorem behind {body : Regex} {looping : Bool}
    (h : Round.Tracks body.Spans exact (body.run looping)) (hexact : body.isPlain = true → exact)
    (negated : Bool) (width : Nat) :
    Round.Tracks (Regex.behind negated width body).Spans
      ((Regex.behind negated width body).isLocal = true)
      ((Regex.behind negated width body).run looping) := by
  have h := h.mono hexact
  constructor
  · intro s good t k ht hk
    simp only [Regex.run]
    cases hback : t.place.back? width with
    | some back =>
        refine h.look_endsIn ht ((Place.text_of_back? hback).trans ht.text) fun u hu hplace => ?_
        refine hk u hu ⟨hplace.1, fun hnegated hplain other hother => ?_⟩
        obtain rfl := Option.some.inj (hback.symm.trans hother)
        exact hplace.2 hnegated hplain
    | none =>
        cases negated with
        | false => exact ht.fail
        | true =>
            refine hk t ht ⟨rfl, fun _ _ other hother => ?_⟩
            rw [hback] at hother
            cases hother
  · intro he s t k q ht hk hhonest hq hsure
    simp only [Regex.isLocal, Bool.and_eq_true] at he
    obtain ⟨rfl, hnone⟩ := hq
    obtain ⟨rfl, hplain⟩ := he
    simp only [Regex.run]
    cases hback : t.place.back? width with
    | some back =>
        exact h.exists_look ht ((Place.text_of_back? hback).trans ht.text)
          (hnone rfl hplain back hback) hsure
    | none => exact hsure t ht rfl

end Round.Tracks

end NamedRoutes
