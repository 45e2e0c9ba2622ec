import NamedRoutes.Proofs.Store.Tables

/-!
The names of a store. A route is only registered if no other one has its name, so that a lookup by
the name of a registered route finds that route.
-/

namespace NamedRoutes.RouteStore

variable {s : RouteStore} {pending registered : List Route} {c : Candidate} {route : Route}

/-- What else is known of a route that has passed the checks: its method is that of its candidate,
and its name is free. -/
theorem prepare_eq_ok (h : s.prepare pending c = .ok route) :
    Method.ofValue? c.method = some route.method ∧ s.contains route.name = false ∧
      ∀ r ∈ pending, r.name ≠ route.name := by
  obtain ⟨hdescribes, _, hfree, hdistinct⟩ := accepted_of_prepare h
  exact ⟨checkMethod_eq_ok.mp hdescribes.method, hfree, hdistinct⟩

/-- Whether every registered route is found by its name. -/
def Indexes (s : RouteStore) (registered : List Route) : Prop :=
  ∀ route ∈ registered, s.find? route.name = some route

theorem find?_insert_name (s : RouteStore) (route : Route) (name : String) :
    (s.insert route).find? name = if name = route.name then some route else s.find? name := by
  have hnames : (s.insert route).names = s.names.insert route.name route := by
    unfold insert
    cases route.isFixed <;> rfl
  unfold find?
  rw [hnames, OrderedMap.get?_insert]

theorem Indexes.insert (h : s.Indexes registered) (hfree : s.contains route.name = false) :
    (s.insert route).Indexes (registered ++ [route]) := by
  intro r hr
  rw [find?_insert_name]
  rcases List.mem_append.mp hr with hr | hr
  · have hne : r.name ≠ route.name := by
      intro hsame
      have hfound := h r hr
      rw [hsame] at hfound
      have hcontains : s.contains route.name = true := by
        change (s.find? route.name).isSome = true
        rw [hfound]
        rfl
      rw [hcontains] at hfree
      cases hfree
    rw [if_neg hne]
    exact h r hr
  · obtain rfl := List.mem_singleton.mp hr
    exact if_pos rfl

/-- Whether some routes can be added one after the other without a name being taken twice. -/
structure NamesFree (s : RouteStore) (routes : List Route) : Prop where
  free : ∀ r ∈ routes, s.contains r.name = false
  distinct : routes.Pairwise fun q r => q.name ≠ r.name

theorem NamesFree.tail {rest : List Route} (h : s.NamesFree (route :: rest)) :
    (s.insert route).NamesFree rest := by
  obtain ⟨hfirst, hdistinct⟩ := List.pairwise_cons.mp h.distinct
  refine ⟨fun r hr => ?_, hdistinct⟩
  change ((s.insert route).find? r.name).isSome = false
  rw [find?_insert_name, if_neg (Ne.symm (hfirst r hr))]
  exact h.free r (List.mem_cons_of_mem _ hr)

theorem Indexes.foldl (routes : List Route) (h : s.Indexes registered)
    (hroutes : s.NamesFree routes) :
    (routes.foldl RouteStore.insert s).Indexes (registered ++ routes) := by
  induction routes generalizing s registered with
  | nil =>
      rw [List.append_nil]
      exact h
  | cons route rest ih =>
      have hrest := ih (h.insert (hroutes.free route List.mem_cons_self)) hroutes.tail
      rw [List.append_assoc] at hrest
      exact hrest

/-- A route that passes the checks has a name that no other one takes. -/
theorem NamesFree.append (h : s.NamesFree pending) (hprepare : s.prepare pending c = .ok route) :
    s.NamesFree (pending ++ [route]) := by
  obtain ⟨_, hfree, hdistinct⟩ := prepare_eq_ok hprepare
  refine ⟨?_, ?_⟩
  · exact List.forall_mem_append.mpr ⟨h.free, List.forall_mem_singleton.mpr hfree⟩
  · refine List.pairwise_append.mpr ⟨h.distinct, List.pairwise_singleton _ _, ?_⟩
    intro q hq r hr
    rw [List.mem_singleton.mp hr]
    exact hdistinct q hq

/-- The routes that an operation registers have free names. -/
theorem perform_namesFree (s : RouteStore) (op : Operation) :
    s.NamesFree (s.perform op).1.registered :=
  s.registered_induction op ⟨List.forall_mem_nil _, .nil⟩ fun _ _ _ _ hfree hprepare =>
    hfree.append hprepare

/-- Whatever is done to a store, every registered route is found by its name. -/
theorem Indexes.run (h : s.Indexes registered) (ops : List Operation) :
    (s.run ops).Indexes (registered ++ history (s.records ops)) := by
  induction ops generalizing s registered with
  | nil =>
      rw [records, history, List.flatMap_nil, List.append_nil]
      exact h
  | cons op rest ih =>
      have hinserted := h.foldl _ (s.perform_namesFree op)
      have hnames := congrArg RouteStore.names (effect_bare s _ _ (s.perform_effect op))
      change (s.perform op).2.names = (_ : RouteStore).names at hnames
      have hstep : (s.perform op).2.Indexes (registered ++ (s.perform op).1.registered) := by
        intro route hroute
        unfold find?
        rw [hnames]
        exact hinserted route hroute
      have hrest := ih hstep
      rw [List.append_assoc] at hrest
      exact hrest

end NamedRoutes.RouteStore
