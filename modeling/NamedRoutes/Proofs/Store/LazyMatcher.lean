import NamedRoutes.Proofs.Store.Effect

/-!
The matcher of a store is prepared late and kept as long as it is good for. This module shows that
nobody can tell: after every run a matcher that is not stale is the one that would be built now, a
request prepares it exactly when the records say that it is out of date, and requests that are left
out of a run change no other answer.
-/

namespace NamedRoutes.RouteStore

/-- A matcher that is not stale is the one that would be built now. -/
def Current (s : RouteStore) : Prop :=
  ∀ m, s.matcher = some m → s.stale = false → s.freshMatcher = .ok m

/-- Preparing the matcher of a store gives the matcher that would be built now, and changes at most
which matcher the store keeps. -/
theorem prepared_value (s : RouteStore) (h : s.Current) :
    s.prepared.map Outcome.value = s.freshMatcher := by
  cases hold : s.isOutdated with
  | true =>
      rw [prepared_of_outdated s hold]
      cases s.freshMatcher <;> rfl
  | false =>
      obtain ⟨m, hm, hs, hprepared⟩ := prepared_of_not_outdated s hold
      rw [hprepared, h m hm hs]
      rfl

/-- Whatever matcher a store keeps, it answers as with one that is built on the spot. -/
theorem matchTrimmed_value (s : RouteStore) (h : s.Current) (method : Method) (path : String) :
    ((s.matchTrimmed method path).map Outcome.value >>= id) = s.freshTrimmed method path := by
  by_cases hconsults : s.ConsultsFor method path
  · rw [matchTrimmed_of_consults s method path hconsults,
      freshTrimmed_of_consults s method path hconsults, ← prepared_value s h]
    cases s.prepared <;> rfl
  · rw [matchTrimmed_of_not_consults s method path hconsults]
    rfl

theorem match?_value (s : RouteStore) (h : s.Current) (method path : Value) :
    ((s.match? method path).map Outcome.value >>= id) = s.freshAnswer method path := by
  unfold match? freshAnswer
  cases Method.ofValue? method with
  | none => rfl
  | some known =>
      cases Candidate.checkPath path with
      | error e => rfl
      | ok trimmed => exact matchTrimmed_value s h known trimmed

theorem insert_isOutdated (s : RouteStore) (route : Route) :
    (s.insert route).isOutdated = (s.isOutdated || !route.isFixed) := by
  unfold insert isOutdated
  cases route.isFixed <;> simp

theorem foldl_insert_isOutdated (s : RouteStore) (routes : List Route) :
    (routes.foldl insert s).isOutdated = (s.isOutdated || routes.any (!·.isFixed)) := by
  induction routes generalizing s with
  | nil => simp
  | cons route rest ih =>
      simp only [List.foldl_cons, List.any_cons]
      rw [ih, insert_isOutdated, Bool.or_assoc]

theorem effect_isOutdated (s t : RouteStore) (r : Record) (h : s.Effect r t) :
    t.isOutdated = r.outdates s.isOutdated := by
  cases h with
  | inserts hevents =>
      have hquiet : r.rebuilds = false := by
        simp [Record.rebuilds, hevents, registration]
      rw [foldl_insert_isOutdated]
      simp [Record.outdates, hquiet]
  | prepares store hnone hprepares =>
      generalize hevents : r.events = events at hprepares
      cases hprepares with
      | kept => simp [Record.outdates, Record.rebuilds, hevents, hnone]
      | rebuilt m =>
          simp [Record.outdates, Record.rebuilds, hevents, isOutdated, withMatcher]

/-- The records of a run tell whether the matcher is out of date after it. -/
theorem run_isOutdated (s : RouteStore) (ops : List Operation) :
    (s.run ops).isOutdated = (s.records ops).foldl Record.outdates s.isOutdated := by
  induction ops generalizing s with
  | nil => rfl
  | cons op ops ih =>
      rw [run, ih, effect_isOutdated s _ _ (perform_effect s op)]
      rfl

theorem insert_current (s : RouteStore) (route : Route) (h : s.Current) :
    (s.insert route).Current := by
  unfold insert
  cases route.isFixed with
  | true => exact h
  | false =>
      intro m _ hstale
      cases hstale

theorem foldl_insert_current (s : RouteStore) (routes : List Route) (h : s.Current) :
    (routes.foldl insert s).Current := by
  induction routes generalizing s with
  | nil => exact h
  | cons route rest ih => exact ih _ (insert_current s route h)

theorem prepares_current (s t : RouteStore) (events : List Event) (h : s.Current)
    (hprepares : s.Prepares t events) : t.Current := by
  cases hprepares with
  | kept => exact h
  | rebuilt m hold hfresh =>
      intro m' hm' _
      cases hm'
      exact hfresh

theorem effect_current (s t : RouteStore) (r : Record) (h : s.Current)
    (heffect : s.Effect r t) : t.Current := by
  cases heffect with
  | inserts => exact foldl_insert_current s _ h
  | prepares _ _ hprepares => exact prepares_current s _ _ h hprepares

theorem perform_current (s : RouteStore) (op : Operation) (h : s.Current) :
    (s.perform op).2.Current :=
  effect_current s _ _ h (perform_effect s op)

theorem create_eq (space : String) (chunkSize : Chunk.Size) (start : RouteStore)
    (h : create space chunkSize = .ok start) :
    ∃ cleaned, Path.parseNamespace space = .ok cleaned ∧
      start = { space := cleaned, chunkSize } := by
  unfold create at h
  cases hsize : chunkSize.isBelowOne with
  | true => simp [hsize, bind, Except.bind, throw, throwThe, MonadExceptOf.throw] at h
  | false =>
      cases hspace : Path.parseNamespace space with
      | error e => simp [hsize, hspace, bind, Except.bind] at h
      | ok cleaned =>
          simp only [hsize, hspace, bind, Except.bind, pure, Except.pure] at h
          cases h
          exact ⟨cleaned, rfl, rfl⟩

/-- After every run the matcher of a store is the one that would be built now, unless the store
knows that it is stale. -/
theorem run_current (space : String) (chunkSize : Chunk.Size) (start : RouteStore)
    (h : create space chunkSize = .ok start) (ops : List Operation) : (start.run ops).Current := by
  apply run_induction start ?_ perform_current
  obtain ⟨cleaned, _, rfl⟩ := create_eq space chunkSize start h
  intro m hm
  cases hm

theorem prepare_bare (s : RouteStore) (pending : List Route) (c : Candidate) :
    s.bare.prepare pending c = s.prepare pending c := rfl

theorem prepareAll_bare (s : RouteStore) (pending : List Route) (cs : List Candidate) :
    s.bare.prepareAll pending cs = s.prepareAll pending cs :=
  prepareAll_congr s.prepare_bare cs pending

/-- What an operation answers on a store without its matcher. -/
def bareAnswer (s : RouteStore) : Operation → Answer
  | .add c => .added (s.prepare [] c)
  | .addAll cs => .addedAll (s.prepareAll [] cs)
  | .request method path => .found (s.freshAnswer method path)
  | .sources => .sources (s.freshMatcher.map ChunkedMatcher.sources)

theorem bareAnswer_bare (s : RouteStore) (op : Operation) :
    s.bare.bareAnswer op = s.bareAnswer op := by
  cases op with
  | add c => rfl
  | addAll cs => exact congrArg Answer.addedAll (prepareAll_bare s [] cs)
  | request method path => rfl
  | sources => rfl

/-- No answer depends on the matcher that the store happens to keep. -/
theorem perform_answer (s : RouteStore) (h : s.Current) (op : Operation) :
    (s.perform op).1.answer = s.bareAnswer op := by
  cases op with
  | add c =>
      simp only [perform, add, bareAnswer]
      cases s.prepare [] c <;> rfl
  | addAll cs =>
      simp only [perform, addAll, bareAnswer]
      cases s.prepareAll [] cs <;> rfl
  | request method path =>
      simp only [perform, bareAnswer, ← match?_value s h method path]
      cases s.match? method path <;> rfl
  | sources =>
      simp only [perform, bareAnswer, ← prepared_value s h]
      cases s.prepared <;> rfl

theorem perform_bare (s t : RouteStore) (hs : s.Current) (ht : t.Current)
    (h : s.bare = t.bare) (op : Operation) :
    (s.perform op).1.answer = (t.perform op).1.answer ∧
      (s.perform op).2.bare = (t.perform op).2.bare := by
  have hanswer : (s.perform op).1.answer = (t.perform op).1.answer := by
    rw [perform_answer s hs, perform_answer t ht, ← bareAnswer_bare s, h, bareAnswer_bare t]
  refine ⟨hanswer, ?_⟩
  have hregistered : (s.perform op).1.registered = (t.perform op).1.registered := by
    unfold Record.registered
    rw [hanswer]
  have hleft := effect_bare s _ _ (perform_effect s op)
  have hright := effect_bare t _ _ (perform_effect t op)
  rw [hleft, hright, hregistered]
  exact foldl_insert_bare s t _ h

theorem request_bare (s : RouteStore) (op : Operation) (h : op.isRequest = true) :
    (s.perform op).2.bare = s.bare := by
  cases op with
  | request method path =>
      simp only [perform]
      cases hmatch : s.match? method path with
      | error e => rfl
      | ok o => exact prepares_bare s _ _ (match?_prepares s method path o hmatch)
  | add c => cases h
  | addAll cs => cases h
  | sources => cases h

def keptOperations (plan : List (Operation × Bool)) : List Operation :=
  (plan.filter (·.2)).map (·.1)

/-- The answers to the operations of a plan that are not left out, from a run of the whole plan. -/
def keptAnswers (plan : List (Operation × Bool)) (records : List Record) : List Answer :=
  ((plan.zip records).filter (·.1.2)).map (·.2.answer)

/-- Requests that are left out of a run change no other answer and no route. The induction carries
two stores that differ in their matchers only. -/
theorem run_without_requests (plan : List (Operation × Bool))
    (hleftOut : ∀ entry ∈ plan, entry.2 = false → entry.1.isRequest = true)
    (s t : RouteStore) (hs : s.Current) (ht : t.Current) (h : s.bare = t.bare) :
    keptAnswers plan (s.records (plan.map (·.1))) =
        (t.records (keptOperations plan)).map (·.answer) ∧
      (s.run (plan.map (·.1))).bare = (t.run (keptOperations plan)).bare := by
  induction plan generalizing s t with
  | nil => exact ⟨rfl, h⟩
  | cons entry rest ih =>
      obtain ⟨op, kept⟩ := entry
      have hrest : ∀ entry ∈ rest, entry.2 = false → entry.1.isRequest = true := by
        intro entry hentry
        exact hleftOut entry (List.mem_cons_of_mem _ hentry)
      have hsnext := perform_current s op hs
      cases kept with
      | true =>
          obtain ⟨hanswer, hbare⟩ := perform_bare s t hs ht h op
          obtain ⟨hanswers, hstores⟩ :=
            ih hrest _ _ hsnext (perform_current t op ht) hbare
          refine ⟨?_, hstores⟩
          simp only [keptAnswers, keptOperations, List.map_cons, records, List.zip_cons_cons,
            List.filter_cons, if_true]
          rw [hanswer]
          exact congrArg _ hanswers
      | false =>
          have hrequest := hleftOut (op, false) (by simp) rfl
          have hbare : (s.perform op).2.bare = t.bare := by
            rw [request_bare s op hrequest, h]
          exact ih hrest _ _ hsnext ht hbare

/-- A request tries to build the matcher anew. If the build succeeds, it is reported once and the
store keeps the matcher; if it fails, so does the request. -/
def TriesRebuild (s : RouteStore) (method : Value) (path : String) : Prop :=
  (∃ m answer, s.freshMatcher = .ok m ∧
    s.match? method (.text path) =
      .ok ⟨answer, s.withMatcher m, [.rebuilt s.patterns.size m.size]⟩) ∨
  (∃ e, s.freshMatcher = .error e ∧ s.match? method (.text path) = .error e)

/-- A request that is passed on to a good matcher is answered by it, and the store stays as it is.
-/
theorem match?_of_not_outdated (s : RouteStore) (method : Value) (path : String)
    (hold : s.isOutdated = false) :
    ∃ answer, s.match? method (.text path) = .ok ⟨answer, s, []⟩ := by
  obtain ⟨m, _, _, hprepared⟩ := prepared_of_not_outdated s hold
  unfold match?
  cases Method.ofValue? method with
  | none => exact ⟨.ok none, rfl⟩
  | some known =>
      change ∃ answer, s.matchTrimmed known (Path.trim path) = .ok ⟨answer, s, []⟩
      by_cases hconsults : s.ConsultsFor known (Path.trim path)
      · rw [matchTrimmed_of_consults s known _ hconsults, hprepared]
        exact ⟨m.match? known (Path.trim path), rfl⟩
      · exact ⟨_, matchTrimmed_of_not_consults s known _ hconsults⟩

theorem match?_of_not_consults (s : RouteStore) (method : Value) (path : String)
    (h : ¬ s.Consults method path) :
    ∃ answer, s.match? method (.text path) = .ok ⟨answer, s, []⟩ := by
  unfold match?
  cases hknown : Method.ofValue? method with
  | none => exact ⟨.ok none, rfl⟩
  | some known =>
      have hconsults : ¬ s.ConsultsFor known (Path.trim path) :=
        fun hfor => h ⟨known, hknown, hfor⟩
      exact ⟨_, matchTrimmed_of_not_consults s known _ hconsults⟩

theorem triesRebuild_of_consults (s : RouteStore) (method : Value) (path : String)
    (h : s.Consults method path) (hold : s.isOutdated = true) : s.TriesRebuild method path := by
  obtain ⟨known, hknown, hfor⟩ := h
  have hmatch : s.match? method (.text path) = s.matchTrimmed known (Path.trim path) := by
    simp [match?, hknown, Candidate.checkPath, bind, Except.bind]
  rw [matchTrimmed_of_consults s known _ hfor, prepared_of_outdated s hold] at hmatch
  cases hfresh : s.freshMatcher with
  | error e =>
      rw [hfresh] at hmatch
      exact Or.inr ⟨e, hfresh, hmatch⟩
  | ok m =>
      rw [hfresh] at hmatch
      exact Or.inl ⟨m, _, hfresh, hmatch⟩

theorem not_triesRebuild (s : RouteStore) (method : Value) (path : String)
    (answer : Except Error (Option RouteMatch))
    (h : s.match? method (.text path) = .ok ⟨answer, s, []⟩) : ¬ s.TriesRebuild method path := by
  rintro (⟨m, other, _, hmatch⟩ | ⟨e, _, hmatch⟩)
  · rw [h] at hmatch
    simp at hmatch
  · rw [h] at hmatch
    cases hmatch

/-- A request tries to build the matcher exactly when it is passed on to one that is out of date. -/
theorem triesRebuild_iff (s : RouteStore) (method : Value) (path : String) :
    s.TriesRebuild method path ↔ s.Consults method path ∧ s.isOutdated = true := by
  constructor
  · intro htries
    constructor
    · apply Classical.byContradiction
      intro hconsults
      obtain ⟨answer, h⟩ := match?_of_not_consults s method path hconsults
      exact not_triesRebuild s method path answer h htries
    · cases hold : s.isOutdated with
      | true => rfl
      | false =>
          obtain ⟨answer, h⟩ := match?_of_not_outdated s method path hold
          exact absurd htries (not_triesRebuild s method path answer h)
  · rintro ⟨hconsults, hold⟩
    exact triesRebuild_of_consults s method path hconsults hold

theorem quiet_of_not_triesRebuild (s : RouteStore) (method : Value) (path : String)
    (h : ¬ s.TriesRebuild method path) :
    ∃ answer, s.match? method (.text path) = .ok ⟨answer, s, []⟩ := by
  by_cases hconsults : s.Consults method path
  · cases hold : s.isOutdated with
    | true => exact absurd (triesRebuild_of_consults s method path hconsults hold) h
    | false => exact match?_of_not_outdated s method path hold
  · exact match?_of_not_consults s method path hconsults

/-- A store whose matcher cannot be built keeps what it has, whoever asks for the matcher. -/
theorem perform_of_failing_build (s : RouteStore) (op : Operation) (e : Error)
    (hfresh : s.freshMatcher = .error e) (hnone : (s.perform op).1.registered = []) :
    (s.perform op).2 = s := by
  have heffect := perform_effect s op
  generalize hstore : (s.perform op).2 = after at heffect
  cases heffect with
  | inserts => rw [hnone]; rfl
  | prepares _ _ hprepares =>
      generalize (s.perform op).1.events = events at hprepares
      cases hprepares with
      | kept => rfl
      | rebuilt m _ hok => rw [hfresh] at hok; cases hok

/-- The matcher is transparent. After every run of every store, (a) a matcher that is not stale is
the one for the present patterns; (b) a request tries to build the matcher exactly when it is passed
on to it and the records show that there is none yet or that a pattern was registered since the last
build, and otherwise it leaves the store alone; a build that fails changes nothing; and (c) requests
can be left out of a run without a change to any other answer or to any route. -/
theorem lazy_matcher_transparent (space : String) (chunkSize : Chunk.Size) (start : RouteStore)
    (hcreate : create space chunkSize = .ok start) :
    (∀ ops m, (start.run ops).matcher = some m → (start.run ops).stale = false →
      ChunkedMatcher.build (start.run ops).patterns chunkSize = .ok m) ∧
    (∀ ops method path,
      ((start.run ops).TriesRebuild method path ↔
        (start.run ops).Consults method path ∧ outdated (start.records ops) = true) ∧
      (¬ (start.run ops).TriesRebuild method path →
        ∃ answer, (start.run ops).match? method (.text path) = .ok ⟨answer, start.run ops, []⟩)) ∧
    (∀ ops op e, ChunkedMatcher.build (start.run ops).patterns chunkSize = .error e →
      ((start.run ops).perform op).1.registered = [] →
      ((start.run ops).perform op).2 = start.run ops) ∧
    (∀ plan : List (Operation × Bool),
      (∀ entry ∈ plan, entry.2 = false → entry.1.isRequest = true) →
      keptAnswers plan (start.records (plan.map (·.1))) =
          (start.records (keptOperations plan)).map (·.answer) ∧
        (start.run (plan.map (·.1))).bare = (start.run (keptOperations plan)).bare) := by
  have hcurrent := run_current space chunkSize start hcreate
  obtain ⟨cleaned, _, hstart⟩ := create_eq space chunkSize start hcreate
  have hsize : ∀ ops, (start.run ops).chunkSize = chunkSize := by
    intro ops
    rw [(run_settings start ops).2, hstart]
  have hfresh : ∀ ops, ChunkedMatcher.build (start.run ops).patterns chunkSize =
      (start.run ops).freshMatcher := by
    intro ops
    rw [freshMatcher, hsize ops]
  have houtdated : ∀ ops, (start.run ops).isOutdated = outdated (start.records ops) := by
    intro ops
    rw [run_isOutdated, hstart]
    rfl
  refine ⟨?_, ?_, ?_, ?_⟩
  · intro ops m hm hstale
    rw [hfresh]
    exact hcurrent ops m hm hstale
  · intro ops method path
    rw [triesRebuild_iff, houtdated]
    refine ⟨Iff.rfl, ?_⟩
    rw [← houtdated, ← triesRebuild_iff]
    exact quiet_of_not_triesRebuild _ method path
  · intro ops op e hbuild hnone
    exact perform_of_failing_build _ op e ((hfresh ops).symm.trans hbuild) hnone
  · intro plan hleftOut
    exact run_without_requests plan hleftOut start start (hcurrent []) (hcurrent []) rfl

/-- A plan that registers a pattern, sends a request that is left out, registers a fixed path and a
pattern that clashes with the first one, and sends the request again. -/
def interruptedPlan : List (Operation × Bool) :=
  let handler : Output := .function (.mk "show" true false none none .arguments)
  let request : Operation := .request (.text "GET") (.text "/api/users/7")
  [(.add ⟨.text "GET", .text "users/{id:i}", .text "user", handler⟩, true),
    (request, false),
    (.addAll [⟨.text "GET", .text "users/me", .text "me", handler⟩,
      ⟨.text "GET", .text "users/{number:i}", .text "other", handler⟩], true),
    (request, true)]

theorem lazy_matcher_transparent_for_interrupted_plan :
    let start : RouteStore := { space := "api", chunkSize := .whole 2 }
    create "/api/" (.whole 2) = .ok start ∧
    (∀ entry ∈ interruptedPlan, entry.2 = false → entry.1.isRequest = true) ∧
    keptAnswers interruptedPlan (start.records (interruptedPlan.map (·.1))) =
      (start.records (keptOperations interruptedPlan)).map (·.answer) := by
  intro start
  have hcreate : create "/api/" (.whole 2) = .ok start := rfl
  have hleftOut : ∀ entry ∈ interruptedPlan, entry.2 = false → entry.1.isRequest = true := by
    simp [interruptedPlan, Operation.isRequest]
  obtain ⟨_, _, _, hplan⟩ := lazy_matcher_transparent "/api/" (.whole 2) start hcreate
  exact ⟨hcreate, hleftOut, (hplan interruptedPlan hleftOut).1⟩

end NamedRoutes.RouteStore
