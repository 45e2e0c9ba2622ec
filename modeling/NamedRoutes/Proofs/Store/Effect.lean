import NamedRoutes.Proofs.Store.History

/-!
What an operation does to a store. It either adds the routes that it registers or asks for the
matcher, which is built first if there is none or if patterns were added since. Everything that a
run keeps follows from these cases.
-/

namespace NamedRoutes.RouteStore

/-- Without its matcher a store is what its routes make of it. -/
def bare (s : RouteStore) : RouteStore := { s with matcher := none, stale := false }

def withMatcher (s : RouteStore) (m : ChunkedMatcher) : RouteStore :=
  { s with matcher := some m, stale := false }

/-- The matcher that a store would build now. -/
def freshMatcher (s : RouteStore) : Except Error ChunkedMatcher :=
  ChunkedMatcher.build s.patterns s.chunkSize

/-- Whether a store has no matcher, or one that patterns were added after. -/
def isOutdated (s : RouteStore) : Bool := s.matcher.isNone || s.stale

theorem prepared_of_outdated (s : RouteStore) (h : s.isOutdated = true) :
    s.prepared = s.freshMatcher.map fun m =>
      ⟨m, s.withMatcher m, [.rebuilt s.patterns.size m.size]⟩ := by
  unfold isOutdated at h
  unfold prepared freshMatcher
  cases hm : s.matcher with
  | none => cases ChunkedMatcher.build s.patterns s.chunkSize <;> rfl
  | some m =>
      cases hs : s.stale with
      | false => simp [hm, hs] at h
      | true => cases ChunkedMatcher.build s.patterns s.chunkSize <;> rfl

theorem prepared_of_not_outdated (s : RouteStore) (h : s.isOutdated = false) :
    ∃ m, s.matcher = some m ∧ s.stale = false ∧ s.prepared = .ok ⟨m, s, []⟩ := by
  unfold isOutdated at h
  unfold prepared
  cases hm : s.matcher with
  | none => simp [hm] at h
  | some m =>
      cases hs : s.stale with
      | false => exact ⟨m, rfl, rfl, rfl⟩
      | true => simp [hs] at h

/-- A trimmed path is passed on to the matcher if it lies in the namespace and no fixed path answers
it. -/
def ConsultsFor (s : RouteStore) (method : Method) (path : String) : Prop :=
  s.space.toList.isPrefixOf path.toList = true ∧ s.fixed.find? path method = none

/-- A request is passed on to the matcher if its method is known and its path is passed on. -/
def Consults (s : RouteStore) (method : Value) (path : String) : Prop :=
  ∃ known, Method.ofValue? method = some known ∧ s.ConsultsFor known (Path.trim path)

def freshTrimmed (s : RouteStore) (method : Method) (path : String) :
    Except Error (Option RouteMatch) :=
  if !s.space.toList.isPrefixOf path.toList then .ok none
  else match s.fixed.find? path method with
    | some route => .ok (some ⟨route, []⟩)
    | none => s.freshMatcher >>= fun m => m.match? method path

/-- The answer to a request by a matcher that is built on the spot. -/
def freshAnswer (s : RouteStore) (method path : Value) : Except Error (Option RouteMatch) :=
  match Method.ofValue? method with
  | none => .ok none
  | some method => Candidate.checkPath path >>= s.freshTrimmed method

theorem matchTrimmed_of_consults (s : RouteStore) (method : Method) (path : String)
    (h : s.ConsultsFor method path) :
    s.matchTrimmed method path = s.prepared.map fun o =>
      ⟨o.value.match? method path, o.store, o.events⟩ := by
  obtain ⟨hspace, hfixed⟩ := h
  simp only [matchTrimmed, hspace, hfixed]
  cases s.prepared <;> rfl

theorem freshTrimmed_of_consults (s : RouteStore) (method : Method) (path : String)
    (h : s.ConsultsFor method path) :
    s.freshTrimmed method path = s.freshMatcher >>= fun m => m.match? method path := by
  obtain ⟨hspace, hfixed⟩ := h
  simp [freshTrimmed, hspace, hfixed]

/-- A path that is not passed on is answered at once, and nothing is prepared for it. -/
theorem matchTrimmed_of_not_consults (s : RouteStore) (method : Method) (path : String)
    (h : ¬ s.ConsultsFor method path) :
    s.matchTrimmed method path = .ok ⟨s.freshTrimmed method path, s, []⟩ := by
  unfold matchTrimmed freshTrimmed
  cases hspace : s.space.toList.isPrefixOf path.toList with
  | false => rfl
  | true =>
      cases hfixed : s.fixed.find? path method with
      | some route => rfl
      | none => exact absurd ⟨hspace, hfixed⟩ h

/-- How an operation that wants the matcher leaves its store: as it is, or with the matcher that was
built since there was no good one. -/
inductive Prepares (s : RouteStore) : RouteStore → List Event → Prop where
  | kept : Prepares s s []
  | rebuilt (m : ChunkedMatcher) (hold : s.isOutdated = true) (hfresh : s.freshMatcher = .ok m) :
      Prepares s (s.withMatcher m) [.rebuilt s.patterns.size m.size]

theorem prepared_prepares (s : RouteStore) (o : Outcome ChunkedMatcher)
    (h : s.prepared = .ok o) : s.Prepares o.store o.events := by
  cases hold : s.isOutdated with
  | true =>
      rw [prepared_of_outdated s hold] at h
      cases hfresh : s.freshMatcher with
      | error e => simp [hfresh, Except.map] at h
      | ok m =>
          simp only [hfresh, Except.map, Except.ok.injEq] at h
          subst h
          exact .rebuilt m hold hfresh
  | false =>
      obtain ⟨m, _, _, hprepared⟩ := prepared_of_not_outdated s hold
      rw [hprepared] at h
      cases h
      exact .kept

theorem matchTrimmed_prepares (s : RouteStore) (method : Method) (path : String) (o : Outcome _)
    (h : s.matchTrimmed method path = .ok o) : s.Prepares o.store o.events := by
  by_cases hconsults : s.ConsultsFor method path
  · rw [matchTrimmed_of_consults s method path hconsults] at h
    cases hprepared : s.prepared with
    | error e => simp [hprepared, Except.map] at h
    | ok prepared =>
        simp only [hprepared, Except.map, Except.ok.injEq] at h
        subst h
        exact prepared_prepares s prepared hprepared
  · rw [matchTrimmed_of_not_consults s method path hconsults] at h
    cases h
    exact .kept

theorem match?_prepares (s : RouteStore) (method path : Value) (o : Outcome _)
    (h : s.match? method path = .ok o) : s.Prepares o.store o.events := by
  unfold match? at h
  cases hmethod : Method.ofValue? method with
  | none =>
      simp only [hmethod] at h
      cases h
      exact .kept
  | some known =>
      simp only [hmethod] at h
      cases hpath : Candidate.checkPath path with
      | error e => simp [hpath, bind, Except.bind] at h
      | ok trimmed =>
          simp only [hpath, bind, Except.bind] at h
          exact matchTrimmed_prepares s known trimmed o h

/-- What holds of the pending routes and is kept with every route that is prepared holds of all. -/
theorem prepareAll_induction {s : RouteStore} {motive : List Route → Prop} (cs : List Candidate)
    {pending routes : List Route} (h : s.prepareAll pending cs = .ok routes)
    (hstart : motive pending)
    (hstep : ∀ c ∈ cs, ∀ pending route, motive pending → s.prepare pending c = .ok route →
      motive (pending ++ [route])) : motive routes := by
  induction cs generalizing pending with
  | nil =>
      cases h
      exact hstart
  | cons c rest ih =>
      unfold prepareAll at h
      cases hprepare : s.prepare pending c with
      | error e => simp [hprepare, bind, Except.bind] at h
      | ok route =>
          simp only [hprepare, bind, Except.bind] at h
          obtain ⟨hfirst, hrest⟩ := List.forall_mem_cons.mp hstep
          exact ih h (hfirst pending route hstart hprepare) hrest

/-- Stores that prepare single routes alike prepare batches alike. -/
theorem prepareAll_congr {s t : RouteStore}
    (h : ∀ pending c, s.prepare pending c = t.prepare pending c) (cs : List Candidate)
    (pending : List Route) : s.prepareAll pending cs = t.prepareAll pending cs := by
  induction cs generalizing pending with
  | nil => rfl
  | cons c rest ih => simp only [prepareAll, h, ih]

/-- What holds of no routes and is kept with every route that is prepared holds of those that an
operation registers. -/
theorem registered_induction (s : RouteStore) (op : Operation) {motive : List Route → Prop}
    (hnil : motive [])
    (hstep : ∀ c ∈ op.candidates, ∀ pending route, motive pending →
      s.prepare pending c = .ok route → motive (pending ++ [route])) :
    motive (s.perform op).1.registered := by
  cases op with
  | add c =>
      simp only [perform, add]
      cases hprepare : s.prepare [] c with
      | error e => exact hnil
      | ok route => exact hstep c (List.mem_singleton_self c) [] route hnil hprepare
  | addAll cs =>
      simp only [perform, addAll]
      cases hprepare : s.prepareAll [] cs with
      | error e => exact hnil
      | ok routes => exact prepareAll_induction cs hprepare hnil hstep
  | request method path =>
      simp only [perform]
      cases s.match? method path <;> exact hnil
  | sources =>
      simp only [perform]
      cases s.prepared <;> exact hnil

/-- What an operation can do to a store: it adds the routes that it registers, in their order, or it
wants the matcher. -/
inductive Effect (s : RouteStore) (r : Record) : RouteStore → Prop where
  | inserts (hevents : r.events = r.registered.map registration) :
      Effect s r (r.registered.foldl insert s)
  | prepares (store : RouteStore) (hnone : r.registered = [])
      (hprepares : s.Prepares store r.events) : Effect s r store

theorem perform_effect (s : RouteStore) (op : Operation) :
    s.Effect (s.perform op).1 (s.perform op).2 := by
  cases op with
  | add c =>
      simp only [perform, add]
      cases s.prepare [] c with
      | error e => exact .inserts rfl
      | ok route => exact .inserts rfl
  | addAll cs =>
      simp only [perform, addAll]
      cases s.prepareAll [] cs with
      | error e => exact .inserts rfl
      | ok routes => exact .inserts rfl
  | request method path =>
      simp only [perform]
      cases h : s.match? method path with
      | error e => exact .prepares s rfl .kept
      | ok o =>
          apply Effect.prepares _ _ (match?_prepares s method path o h)
          simp only [close, Record.registered]
  | sources =>
      simp only [perform]
      cases h : s.prepared with
      | error e => exact .prepares s rfl .kept
      | ok o => exact .prepares _ rfl (prepared_prepares s o h)

theorem insert_bare (s : RouteStore) (route : Route) :
    (s.insert route).bare = (s.bare.insert route).bare := by
  unfold insert bare
  cases route.isFixed <;> rfl

theorem foldl_insert_bare (s t : RouteStore) (routes : List Route) (h : s.bare = t.bare) :
    (routes.foldl insert s).bare = (routes.foldl insert t).bare := by
  induction routes generalizing s t with
  | nil => exact h
  | cons route rest ih =>
      apply ih
      rw [insert_bare, insert_bare t, h]

theorem prepares_bare (s t : RouteStore) (events : List Event) (h : s.Prepares t events) :
    t.bare = s.bare := by
  cases h <;> rfl

/-- Apart from the matcher, an operation does nothing but insert the routes it registers. -/
theorem effect_bare (s t : RouteStore) (r : Record) (h : s.Effect r t) :
    t.bare = (r.registered.foldl insert s).bare := by
  cases h with
  | inserts => rfl
  | prepares _ hnone hprepares =>
      rw [hnone]
      exact prepares_bare s t _ hprepares

theorem insert_settings (s : RouteStore) (route : Route) :
    (s.insert route).space = s.space ∧ (s.insert route).chunkSize = s.chunkSize := by
  unfold insert
  cases route.isFixed <;> exact ⟨rfl, rfl⟩

theorem foldl_insert_settings (s : RouteStore) (routes : List Route) :
    (routes.foldl insert s).space = s.space ∧
      (routes.foldl insert s).chunkSize = s.chunkSize := by
  induction routes generalizing s with
  | nil => exact ⟨rfl, rfl⟩
  | cons route rest ih =>
      obtain ⟨hspace, hsize⟩ := insert_settings s route
      obtain ⟨hspace', hsize'⟩ := ih (s.insert route)
      exact ⟨hspace'.trans hspace, hsize'.trans hsize⟩

/-- No operation changes the namespace or the size of chunks. -/
theorem perform_settings (s : RouteStore) (op : Operation) :
    (s.perform op).2.space = s.space ∧ (s.perform op).2.chunkSize = s.chunkSize := by
  have hbare := effect_bare s _ _ (perform_effect s op)
  obtain ⟨hspace, hsize⟩ := foldl_insert_settings s (s.perform op).1.registered
  exact ⟨(congrArg RouteStore.space hbare).trans hspace,
    (congrArg RouteStore.chunkSize hbare).trans hsize⟩

theorem run_settings (s : RouteStore) (ops : List Operation) :
    (s.run ops).space = s.space ∧ (s.run ops).chunkSize = s.chunkSize := by
  refine run_induction (motive := fun t => t.space = s.space ∧ t.chunkSize = s.chunkSize) s
    ⟨rfl, rfl⟩ ?_ ops
  intro t op ⟨hspace, hsize⟩
  obtain ⟨hspace', hsize'⟩ := perform_settings t op
  exact ⟨hspace'.trans hspace, hsize'.trans hsize⟩

end NamedRoutes.RouteStore
