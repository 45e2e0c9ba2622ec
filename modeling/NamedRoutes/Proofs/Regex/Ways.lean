import NamedRoutes.Proofs.Regex.Repetition

/-!
What an expression with groups can do, apart from the order in which it tries it. A way relates
where a match stands before an expression to where it may stand behind it. An expression follows a
way if every success comes from a stand that the way leads to, and if a failure leaves every edge
alone that was known before. It follows the way exactly if it also succeeds whenever going on from
such a stand does. This holds of expressions whose groups are entered in order, so that what is left
behind by a failure is put right when the next way is tried.
-/

namespace NamedRoutes

/-- Where a match stands: its place and its record, without what earlier attempts have left behind.
-/
structure Stand where
  place : Place
  marks : Marks

/-- Whether the record knows of the first `bound` groups at most. -/
def Stand.Within (bound : Nat) (s : Stand) : Prop := s.marks.edges.length ≤ 2 * bound

def Thread.stand (t : Thread) : Stand := ⟨t.place, t.marks⟩

/-- From which stands an expression leads to which. -/
abbrev Way := Stand → Stand → Prop

namespace Way

def andThen (first second : Way) : Way := fun s u => ∃ v, first s v ∧ second v u

/-- A way that may be left out. -/
def orNot (way : Way) : Way := fun s u => u = s ∨ way s u

/-- Moves on and records nothing. -/
def moving (spans : Place → Place → Prop) : Way := fun s u =>
  spans s.place u.place ∧ u.marks = s.marks

/-- Moves on and records what lies between as a group. -/
def recording (number : Nat) (spans : Place → Place → Prop) : Way := fun s u =>
  spans s.place u.place ∧ u.marks = s.marks.recorded number s.place.index u.place.index

end Way

/-- Whether going on fails from some stands only with their edges still known. -/
def Rest.Keeps (k : Rest) (stands : Stand → Prop) : Prop :=
  ∀ u reached left, stands u.stand → k.go u = .failed reached left →
    u.marks.edges <+: left.edges

/-- Whether a step of a match does what a way says, for threads that know of the first `bound`
groups at most. The step adds at most `count` groups. If it is exact, it does all that the way says.
-/
structure Round.Follows (bound count : Nat) (way : Way) (exact : Prop) (round : Round) : Prop where
  grows : ∀ s u : Stand, s.Within bound → way s u →
    s.marks.edges <+: u.marks.edges ∧ u.Within (bound + count)
  sound : ∀ t k v, t.stand.Within bound → k.Keeps (way t.stand) → round t k = .matched v →
    ∃ u : Thread, way t.stand u.stand ∧ k.go u = .matched v
  keeps : ∀ t k reached left, t.stand.Within bound → k.Keeps (way t.stand) →
    round t k = .failed reached left → t.marks.edges <+: left.edges
  complete : exact → ∀ t k s, t.stand.Within bound → k.Keeps (way t.stand) → k.Honest →
    way t.stand s →
    (∀ u : Thread, u.stand = s → ∃ v, k.go u = .matched v) → ∃ v, round t k = .matched v

theorem Thread.in_own (t : Thread) : t.In ⟨t.place.text, t.marks⟩ := ⟨rfl, rfl⟩

/-- An expression without groups moves on and records nothing. -/
theorem Round.Tracks.follows {spans : Place → Place → Prop} {exact : Prop} {round : Round}
    (h : Round.Tracks spans exact round) (bound : Nat) :
    Round.Follows bound 0 (.moving spans) exact round := by
  have hends : ∀ (t : Thread) (k : Rest) (good : Thread → Prop),
      k.Keeps (Way.moving spans t.stand) →
      (∀ u v : Thread, Way.moving spans t.stand u.stand → k.go u = .matched v → good v) →
        k.EndsIn ⟨t.place.text, t.marks⟩ good (spans t.place) := by
    intro t k good hk hgood u hu hspan
    have hway : Way.moving spans t.stand u.stand := ⟨hspan, hu.marks⟩
    cases hgo : k.go u with
    | matched v => exact hgood u v hway hgo
    | failed reached left =>
        have hkept := hk u reached left hway hgo
        rwa [hu.marks] at hkept
  refine ⟨?_, ?_, ?_, ?_⟩
  · rintro s u hs ⟨_, hmarks⟩
    unfold Stand.Within at hs ⊢
    rw [hmarks]
    exact ⟨List.prefix_rfl, hs⟩
  · intro t k v _ hk hmatched
    have hround := h.sound t.in_own
      (hends t k (fun v => ∃ u : Thread, Way.moving spans t.stand u.stand ∧ k.go u = .matched v) hk
        fun u v hway hgo => ⟨u, hway, hgo⟩)
    rw [hmatched] at hround
    exact hround
  · intro t k reached left _ hk hfailed
    have hround := h.sound t.in_own (hends t k (fun _ => True) hk fun _ _ _ _ => trivial)
    rw [hfailed] at hround
    exact hround
  · intro he t k s _ hk hhonest hs hsure
    refine h.complete he t.in_own (hends t k (fun _ => True) hk fun _ _ _ _ => trivial) hhonest hs.1
      fun u hu hplace => hsure u ?_
    exact congr (congrArg Stand.mk hplace) (hu.marks.trans hs.2.symm)

namespace Round

theorem of_leave_matched {t v : Thread} {k : Rest} (h : leave t k = .matched v) :
    k.go t.setOut = .matched v := by
  unfold leave at h
  cases hgo : k.go t.setOut with
  | matched u =>
      rw [hgo] at h
      exact h
  | failed reached left =>
      rw [hgo] at h
      cases h

theorem of_leave_failed {t : Thread} {k : Rest} {reached : Place} {left : Marks}
    (h : leave t k = .failed reached left) : ∃ other, k.go t.setOut = .failed other left := by
  unfold leave at h
  cases hgo : k.go t.setOut with
  | matched u =>
      rw [hgo] at h
      cases h
  | failed other left =>
      rw [hgo] at h
      cases h
      exact ⟨other, rfl⟩

end Round

namespace Round.Follows

variable {bound count more : Nat} {way way' : Way} {exact exact' : Prop} {round round' : Round}

/-- What consumes nothing follows the way that leads nowhere. -/
theorem pass (bound : Nat) :
    Round.Follows bound 0 (fun s u => u = s) exact (fun t k => k.go t) := by
  refine ⟨?_, fun t k v _ _ h => ⟨t, rfl, h⟩, fun t k reached left _ hk h => hk t _ _ rfl h, ?_⟩
  · rintro s u hs rfl
    exact ⟨List.prefix_rfl, hs⟩
  · rintro _ t k s _ _ _ rfl hsure
    exact hsure t rfl

theorem mono (h : Round.Follows bound count way exact round) (hexact : exact' → exact) :
    Round.Follows bound count way exact' round :=
  ⟨h.grows, h.sound, h.keeps, fun he => h.complete (hexact he)⟩

/-- One expression after another. -/
theorem andThen (h : Round.Follows bound count way exact round) {r : Regex} {looping : Bool}
    (hr : Round.Follows (bound + count) more way' exact' (r.run looping)) :
    Round.Follows bound (count + more) (way.andThen way') (exact ∧ exact')
      (fun t k => round t ⟨r.lead?.getD k.lead, fun u => r.run looping u k⟩) := by
  have hlater : ∀ (t : Thread) (k : Rest), t.stand.Within bound →
      k.Keeps (way.andThen way' t.stand) → ∀ u : Thread, way t.stand u.stand →
        u.stand.Within (bound + count) ∧ k.Keeps (way' u.stand) := by
    intro t k ht hk u hu
    exact ⟨(h.grows _ _ ht hu).2, fun w reached left hw => hk w reached left ⟨_, hu, hw⟩⟩
  have hkeeps : ∀ (t : Thread) (k : Rest), t.stand.Within bound →
      k.Keeps (way.andThen way' t.stand) →
        Rest.Keeps ⟨r.lead?.getD k.lead, fun u => r.run looping u k⟩ (way t.stand) := by
    intro t k ht hk u reached left hu hfailed
    obtain ⟨hknown, hk'⟩ := hlater t k ht hk u hu
    exact hr.keeps u k reached left hknown hk' hfailed
  refine ⟨?_, ?_, ?_, ?_⟩
  · rintro s u hs ⟨v, hsv, hvu⟩
    obtain ⟨hstarts, hv⟩ := h.grows s v hs hsv
    obtain ⟨hstarts', hu⟩ := hr.grows v u hv hvu
    exact ⟨hstarts.trans hstarts', by rwa [← Nat.add_assoc]⟩
  · intro t k v ht hk hmatched
    obtain ⟨u, hu, hgo⟩ := h.sound t _ v ht (hkeeps t k ht hk) hmatched
    obtain ⟨hknown, hk'⟩ := hlater t k ht hk u hu
    obtain ⟨w, hw, hend⟩ := hr.sound u k v hknown hk' hgo
    exact ⟨w, ⟨_, hu, hw⟩, hend⟩
  · exact fun t k reached left ht hk => h.keeps t _ reached left ht (hkeeps t k ht hk)
  · rintro ⟨he, he'⟩ t k s ht hk hhonest ⟨v, hv, hs⟩ hsure
    refine h.complete he t _ v ht (hkeeps t k ht hk) (hhonest.before r looping) hv fun u hu => ?_
    rw [← hu] at hv hs
    obtain ⟨hknown, hk'⟩ := hlater t k ht hk u hv
    exact hr.complete he' u k s hknown hk' hhonest hs hsure

theorem run_optional {r : Regex} (htest : r.test? = none) (looping : Bool) (t : Thread) (k : Rest) :
    (Regex.repeated .greedy 0 (some 1) r).run looping t k =
      match r.run true t.setOut ⟨.other, fun u => Round.leave u k⟩ with
      | .matched u => .matched u
      | .failed .. => Round.leave t k := by
  simp only [Regex.run, htest]
  rfl

/-- An expression that may be left out. -/
theorem optional {r : Regex} (h : Round.Follows bound count way exact (r.run true))
    (htest : r.test? = none) (looping : Bool) :
    Round.Follows bound count way.orNot exact
      ((Regex.repeated .greedy 0 (some 1) r).run looping) := by
  have hkeeps : ∀ (t : Thread) (k : Rest), k.Keeps (way.orNot t.stand) →
      Rest.Keeps ⟨.other, fun u => Round.leave u k⟩ (way t.setOut.stand) := by
    intro t k hk u reached left hu hfailed
    obtain ⟨_, hgo⟩ := Round.of_leave_failed hfailed
    exact hk u.setOut _ left (Or.inr hu) hgo
  refine ⟨?_, ?_, ?_, ?_⟩
  · rintro s u hs (rfl | hu)
    · exact ⟨List.prefix_rfl, Nat.le_trans hs (by omega)⟩
    · exact h.grows s u hs hu
  · intro t k v ht hk hmatched
    rw [run_optional htest] at hmatched
    split at hmatched
    · rename_i hbody
      cases hmatched
      obtain ⟨u, hu, hgo⟩ := h.sound t.setOut _ v ht (hkeeps t k hk) hbody
      exact ⟨u.setOut, Or.inr hu, Round.of_leave_matched hgo⟩
    · exact ⟨t.setOut, Or.inl rfl, Round.of_leave_matched hmatched⟩
  · intro t k reached left ht hk hfailed
    rw [run_optional htest] at hfailed
    split at hfailed
    · cases hfailed
    · obtain ⟨_, hgo⟩ := Round.of_leave_failed hfailed
      exact hk t.setOut _ left (Or.inl rfl) hgo
  · intro he t k s ht hk hhonest hs hsure
    rw [run_optional htest]
    split
    · exact ⟨_, rfl⟩
    · rename_i hbody
      rcases hs with rfl | hs
      · exact Round.exists_leave (hsure t.setOut rfl)
      · obtain ⟨v, hv⟩ := h.complete he t.setOut _ s ht (hkeeps t k hk) (fun _ _ _ => rfl) hs
          fun u hu => Round.exists_leave (hsure u.setOut hu)
        rw [hv] at hbody
        cases hbody

/-- The start of a further group is put behind the edges. -/
theorem opening_within {t : Thread} (ht : t.stand.Within bound) :
    t.marks.edges <+: (t.opening (bound + 1)).marks.edges ∧
      (t.opening (bound + 1)).marks.edges.length ≤ 2 * bound + 1 := by
  have ht : t.marks.edges.length ≤ 2 * bound := ht
  have hedges : (t.opening (bound + 1)).marks.edges = _ :=
    Marks.setEdge_beyond (2 * bound) t.place.index t.marks.edges ht
  rw [hedges]
  refine ⟨?_, ?_⟩
  · rw [List.append_assoc]
    exact List.prefix_append ..
  · simp only [List.length_append, List.length_replicate, List.length_cons, List.length_nil]
    omega

/-- What is consumed between the start and the end of a further group is recorded. -/
theorem recording_of_moving {spans : Place → Place → Prop} {t u : Thread}
    (h : Way.moving spans (t.opening (bound + 1)).stand u.stand) :
    Way.recording (bound + 1) spans t.stand (u.closing (bound + 1)).stand := by
  obtain ⟨hleads, hmarks⟩ := h
  have hmarks : u.marks = (t.opening (bound + 1)).marks := hmarks
  refine ⟨hleads, ?_⟩
  change u.marks.closing _ _ = _
  rw [hmarks]
  rfl

/-- The end of a further group is put behind the edges. -/
theorem kept_closing {spans : Place → Place → Prop} {t u : Thread} (ht : t.stand.Within bound)
    (h : Way.moving spans (t.opening (bound + 1)).stand u.stand) :
    u.marks.edges <+: (u.closing (bound + 1)).marks.edges := by
  have hmarks : u.marks = (t.opening (bound + 1)).marks := h.2
  have hlength := (opening_within ht).2
  rw [← hmarks] at hlength
  change _ <+: Marks.setEdge (2 * bound + 1) u.place.index u.marks.edges
  rw [Marks.setEdge_beyond _ _ _ hlength, List.append_assoc]
  exact List.prefix_append ..

/-- Parentheses record what their body consumes. -/
theorem capture {spans : Place → Place → Prop} {body : Regex} {looping : Bool}
    (h : Round.Follows (bound + 1) 0 (.moving spans) exact (body.run looping)) :
    Round.Follows bound 1 (.recording (bound + 1) spans) exact
      ((Regex.capture (bound + 1) body).run looping) := by
  have hopened : ∀ {t : Thread}, t.stand.Within bound →
      (t.opening (bound + 1)).stand.Within (bound + 1) := fun ht =>
    Nat.le_trans (opening_within ht).2 (by omega)
  have hkeeps : ∀ (t : Thread) (k : Rest), t.stand.Within bound →
      k.Keeps (Way.recording (bound + 1) spans t.stand) →
        Rest.Keeps ⟨.other, fun u => k.go (u.closing (bound + 1))⟩
          (Way.moving spans (t.opening (bound + 1)).stand) := by
    intro t k ht hk u reached left hu hfailed
    exact (kept_closing ht hu).trans (hk _ reached left (recording_of_moving hu) hfailed)
  refine ⟨?_, ?_, ?_, ?_⟩
  · rintro s u hs ⟨_, hmarks⟩
    have hedges := Marks.edges_recorded hs s.place.index u.place.index
    rw [← hmarks] at hedges
    refine ⟨?_, ?_⟩
    · rw [hedges, List.append_assoc]
      exact List.prefix_append ..
    · unfold Stand.Within at hs ⊢
      rw [hedges]
      simp only [List.length_append, List.length_replicate, List.length_cons, List.length_nil]
      omega
  · intro t k v ht hk hmatched
    obtain ⟨u, hu, hgo⟩ := h.sound _ _ v (hopened ht) (hkeeps t k ht hk) hmatched
    exact ⟨u.closing (bound + 1), recording_of_moving hu, hgo⟩
  · intro t k reached left ht hk hfailed
    exact (opening_within ht).1.trans
      (h.keeps _ _ reached left (hopened ht) (hkeeps t k ht hk) hfailed)
  · rintro he t k ⟨q, m⟩ ht hk _ ⟨hleads, hmarks⟩ hsure
    refine h.complete he _ _ ⟨q, (t.opening (bound + 1)).marks⟩ (hopened ht)
      (hkeeps t k ht hk) (fun _ _ _ => rfl) ⟨hleads, rfl⟩ fun u hu => ?_
    refine hsure (u.closing (bound + 1)) ?_
    change Stand.mk u.place (u.marks.closing _ u.place.index) = _
    rw [show u.place = q from congrArg Stand.place hu,
      show u.marks = (t.opening (bound + 1)).marks from congrArg Stand.marks hu]
    exact congrArg (Stand.mk q) hmarks.symm

end Round.Follows

/-- Whether an expression matches a whole text: it does if a way leads to the end of the text, and
the record is that of such a way. -/
theorem Round.Follows.ending? {r : Regex} {count : Nat} {way : Way} {exact : Prop}
    (h : Round.Follows 0 count way exact (r.run false)) (text : List Char) :
    (∀ m, r.ending? (.start text) = some m →
      ∃ u : Stand, way ⟨.start text, {}⟩ u ∧ u.place.after = [] ∧ u.marks = m) ∧
    (exact → (∃ u : Stand, way ⟨.start text, {}⟩ u ∧ u.place.after = []) →
      ∃ m, r.ending? (.start text) = some m) := by
  have hwithin : (Thread.start text).stand.Within 0 := Nat.le_refl _
  have hkeeps : Regex.atEnd.Keeps (way (Thread.start text).stand) := by
    intro u reached left _ hfailed
    simp only [Regex.atEnd] at hfailed
    split at hfailed
    · cases hfailed
    · cases hfailed
      exact List.prefix_rfl
  unfold Regex.ending?
  refine ⟨fun m hm => ?_, ?_⟩
  · cases hrun : r.run false (.start text) Regex.atEnd with
    | failed reached left =>
        rw [hrun] at hm
        cases hm
    | matched v =>
        rw [hrun] at hm
        cases hm
        obtain ⟨u, hu, hend⟩ := h.sound _ _ v hwithin hkeeps hrun
        simp only [Regex.atEnd] at hend
        split at hend
        · rename_i hempty
          obtain rfl := Attempt.matched.inj hend
          exact ⟨u.stand, hu, List.isEmpty_iff.mp hempty, rfl⟩
        · cases hend
  · rintro he ⟨u, hu, hempty⟩
    obtain ⟨v, hv⟩ := h.complete he _ _ u hwithin hkeeps (fun _ _ _ => rfl) hu fun w hw => by
      refine ⟨w, ?_⟩
      have hplace : w.place = u.place := congrArg Stand.place hw
      simp [Regex.atEnd, hplace, hempty]
    exact ⟨v.marks, by rw [hv]; rfl⟩

end NamedRoutes
