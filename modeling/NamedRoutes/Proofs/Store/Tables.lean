import NamedRoutes.ErrorClass
import NamedRoutes.Proofs.OrderedMap
import NamedRoutes.Proofs.Pattern.OwnMatch
import NamedRoutes.Proofs.Store.Effect

/-!
The tables of a store mirror what was registered. A route is only registered if no other one has its
key and its method, so that a lookup finds the one route of the history, and the patterns stand in
the order in which each was first registered.
-/

namespace NamedRoutes

namespace Route

/-- Whether the pattern of a route, if it has one, has been compiled from a path. -/
def IsSound (r : Route) : Prop := ∀ p, r.pattern? = some p → p.IsCompiled

/-- Whether a route stands in one of the tables under a key and a method. -/
def isAt (r : Route) (fixed : Bool) (key : String) (method : Method) : Bool :=
  r.isFixed == fixed && r.key == key && r.method == method

theorem pattern?_of_not_isFixed {r : Route} (h : r.isFixed = false) :
    ∃ p, r.pattern? = some p ∧ r.key = p.regex ∧ r.parameterNames = p.names := by
  unfold isFixed pattern? at h
  unfold key parameterNames pattern?
  cases htarget : r.target with
  | fixed path => simp [htarget] at h
  | pattern p => exact ⟨p, rfl, rfl, rfl⟩

theorem key_of_pattern? {r : Route} {p : RoutePattern} (h : r.pattern? = some p) :
    r.isFixed = false ∧ r.key = p.regex ∧ r.parameterNames = p.names := by
  have hfixed : r.isFixed = false := by
    unfold isFixed
    rw [h]
    rfl
  obtain ⟨q, hq, hkey, hnames⟩ := pattern?_of_not_isFixed hfixed
  obtain rfl := Option.some.inj (hq.symm.trans h)
  exact ⟨hfixed, hkey, hnames⟩

end Route

namespace RouteTable

theorem find?_add (table : RouteTable) (route : Route) (key : String) (method : Method) :
    (table.add route).find? key method =
      if key = route.key ∧ method = route.method then some route else table.find? key method := by
  unfold find? add
  rw [OrderedMap.get?_alter]
  by_cases hkey : key = route.key
  · rw [if_pos hkey, Option.bind_some, OrderedMap.get?_insert]
    by_cases hmethod : method = route.method
    · rw [if_pos hmethod, if_pos ⟨hkey, hmethod⟩]
    · rw [if_neg hmethod, if_neg (fun h => hmethod h.2), hkey]
      cases table.get? route.key with
      | none => rfl
      | some routes => rfl
  · rw [if_neg hkey, if_neg (fun h => hkey h.1)]

/-- What stands under a key after a route was added. -/
theorem get?_add_cases {table : RouteTable} {route : Route} {key : String}
    {group : OrderedMap Method Route} (h : (table.add route).get? key = some group) :
    (key = route.key ∧ ∃ old : OrderedMap Method Route,
        (old = .empty ∨ table.get? key = some old) ∧ group = old.insert route.method route) ∨
      table.get? key = some group := by
  unfold add at h
  rw [OrderedMap.get?_alter] at h
  split at h
  · next hkey =>
      subst hkey
      refine Or.inl ⟨rfl, _, ?_, (Option.some.inj h).symm⟩
      cases table.get? route.key with
      | none => exact Or.inl rfl
      | some old => exact Or.inr rfl
  · exact Or.inr h

end RouteTable

namespace RouteStore

def table (s : RouteStore) (fixed : Bool) : RouteTable := if fixed then s.fixed else s.patterns

/-- Whether the store has no route with the key and the method of a route. -/
def IsFresh (s : RouteStore) (route : Route) : Prop :=
  (s.table route.isFixed).find? route.key route.method = none

theorem table_insert (s : RouteStore) (route : Route) (fixed : Bool) :
    (s.insert route).table fixed =
      if route.isFixed = fixed then (s.table fixed).add route else s.table fixed := by
  unfold insert table
  cases route.isFixed <;> cases fixed <;> rfl

theorem find?_insert (s : RouteStore) (route : Route) (fixed : Bool) (key : String)
    (method : Method) :
    ((s.insert route).table fixed).find? key method =
      if route.isAt fixed key method then some route else (s.table fixed).find? key method := by
  rw [table_insert]
  by_cases hfixed : route.isFixed = fixed
  · rw [if_pos hfixed, RouteTable.find?_add]
    by_cases hplace : key = route.key ∧ method = route.method
    · have hat : route.isAt fixed key method = true := by
        simp [Route.isAt, hfixed, hplace.1, hplace.2]
      rw [if_pos hplace, hat, if_pos rfl]
    · have hat : ¬ route.isAt fixed key method = true := by
        intro hat
        simp only [Route.isAt, Bool.and_eq_true, beq_iff_eq] at hat
        exact hplace ⟨hat.1.2.symm, hat.2.symm⟩
      rw [if_neg hplace, if_neg hat]
  · have hat : ¬ route.isAt fixed key method = true := by
      intro hat
      simp only [Route.isAt, Bool.and_eq_true, beq_iff_eq] at hat
      exact hfixed hat.1.1
    rw [if_neg hfixed, if_neg hat]

/-- What the checks before a registration establish for some routes that are added one after the
other: each is new to the store, and no two of them have the same key and the same method. -/
structure Admits (s : RouteStore) (routes : List Route) : Prop where
  fresh : ∀ r ∈ routes, s.IsFresh r
  sound : ∀ r ∈ routes, r.IsSound
  distinct : routes.Pairwise fun q r => ¬ (q.method = r.method ∧ q.key = r.key)

theorem Admits.nil (s : RouteStore) : s.Admits [] :=
  ⟨List.forall_mem_nil _, List.forall_mem_nil _, .nil⟩

/-- After the first of some routes was added, the others can still be. -/
theorem Admits.tail {s : RouteStore} {route : Route} {rest : List Route}
    (h : s.Admits (route :: rest)) : (s.insert route).Admits rest := by
  obtain ⟨hfirst, hdistinct⟩ := List.pairwise_cons.mp h.distinct
  refine ⟨fun r hr => ?_, fun r hr => h.sound r (List.mem_cons_of_mem _ hr), hdistinct⟩
  unfold IsFresh
  rw [find?_insert, if_neg]
  · exact h.fresh r (List.mem_cons_of_mem _ hr)
  · intro hat
    simp only [Route.isAt, Bool.and_eq_true, beq_iff_eq] at hat
    exact hfirst r hr ⟨hat.2, hat.1.2⟩

/-- A path without placeholders leads to itself in the namespace, any other one to its pattern. -/
theorem target_eq_ok {s : RouteStore} {path : String} {target : RoutePath}
    (h : s.target path = .ok target) :
    (Path.isStatic path = true ∧ Path.isStaticText path.toList = true ∧
      target = .fixed (Path.join s.space path)) ∨
    ∃ p, Path.isStatic path = false ∧ RoutePattern.compile path s.space = .ok p ∧
      target = .pattern p := by
  unfold RouteStore.target at h
  cases hstatic : Path.isStatic path with
  | true =>
      unfold Path.checkStatic at h
      cases htext : Path.isStaticText path.toList with
      | false => simp [hstatic, htext, bind, Except.bind] at h
      | true =>
          simp only [hstatic, htext, if_true, bind, Except.bind, pure, Except.pure] at h
          exact Or.inl ⟨rfl, rfl, (Except.ok.inj h).symm⟩
  | false =>
      cases hcompile : RoutePattern.compile path s.space with
      | error e => simp [hstatic, hcompile, bind, Except.bind] at h
      | ok p =>
          simp only [hstatic, hcompile, Bool.false_eq_true, if_false, bind, Except.bind, pure,
            Except.pure] at h
          exact Or.inr ⟨p, rfl, rfl, (Except.ok.inj h).symm⟩

theorem compile_of_target {s : RouteStore} {path : String} {route : Route}
    (h : s.target path = .ok route.target) {p : RoutePattern} (hp : route.pattern? = some p) :
    RoutePattern.compile path s.space = .ok p := by
  unfold Route.pattern? at hp
  rcases target_eq_ok h with ⟨_, _, htarget⟩ | ⟨other, _, hcompile, htarget⟩
  · rw [htarget] at hp
    cases hp
  · rw [htarget] at hp
    obtain rfl := Option.some.inj hp
    exact hcompile

/-- Whether a route is what a candidate asks for, in the namespace of a store. -/
structure Describes (s : RouteStore) (c : Candidate) (route : Route) : Prop where
  method : Candidate.checkMethod c.method = .ok route.method
  name : Candidate.checkName c.name = .ok route.name
  handler : Candidate.checkHandler route.name c.handler = .ok route.handler
  target : (Candidate.checkPath c.path >>= s.target) = .ok route.target

/-- What is known of a route that has passed the checks. -/
structure Passes (s : RouteStore) (pending : List Route) (c : Candidate)
    (route : Route) : Prop where
  fresh : s.IsFresh route
  origin : (Candidate.checkPath c.path >>= s.target) = .ok route.target
  distinct : ∀ r ∈ pending, ¬ (r.method = route.method ∧ r.key = route.key)

/-- Only a text leads anywhere, and what it leads to is looked up for the trimmed text. -/
theorem exists_text_of_origin {s : RouteStore} {c : Candidate} {target : RoutePath}
    (h : (Candidate.checkPath c.path >>= s.target) = .ok target) :
    ∃ path, c.path = .text path ∧ s.target (Path.trim path) = .ok target := by
  unfold Candidate.checkPath at h
  split at h
  · next path hpath =>
      simp only [bind, Except.bind] at h
      exact ⟨path, hpath, h⟩
  · cases h

/-- The pattern of a route that has passed the checks was compiled from the path of its candidate.
-/
theorem Passes.compile {s : RouteStore} {pending : List Route} {c : Candidate} {route : Route}
    (h : s.Passes pending c route) {p : RoutePattern} (hp : route.pattern? = some p) :
    ∃ path, Candidate.checkPath c.path = .ok path ∧ RoutePattern.compile path s.space = .ok p := by
  obtain ⟨path, hpath, htarget⟩ := exists_text_of_origin h.origin
  refine ⟨Path.trim path, ?_, compile_of_target htarget hp⟩
  rw [hpath]
  rfl

theorem Passes.sound {s : RouteStore} {pending : List Route} {c : Candidate} {route : Route}
    (h : s.Passes pending c route) : route.IsSound := by
  intro p hp
  obtain ⟨path, _, hcompile⟩ := h.compile hp
  exact ⟨path, s.space, hcompile⟩

theorem checkMethod_eq_ok {value : Value} {method : Method} :
    Candidate.checkMethod value = .ok method ↔ Method.ofValue? value = some method := by
  unfold Candidate.checkMethod
  cases Method.ofValue? value <;> simp

theorem checkMethod_error {value : Value} {e : Error} (h : Candidate.checkMethod value = .error e) :
    e.isA .registration = true := by
  unfold Candidate.checkMethod at h
  split at h <;> cases h
  rfl

theorem checkName_error {value : Value} {e : Error} (h : Candidate.checkName value = .error e) :
    e.isA .registration = true := by
  unfold Candidate.checkName at h
  split at h
  · split at h <;> cases h
    rfl
  · cases h
    rfl

theorem checkHandler_error {name : String} {output : Output} {e : Error}
    (h : Candidate.checkHandler name output = .error e) : e.isA .registration = true := by
  unfold Candidate.checkHandler at h
  split at h <;> cases h
  rfl

/-- What asking for a registration leads to: a route that has passed the checks and has a free name,
an error about the registration, or the error of reading the path. -/
theorem prepare_cases (s : RouteStore) (pending : List Route) (c : Candidate) :
    (∃ route, s.prepare pending c = .ok route ∧ s.Describes c route ∧ s.Passes pending c route ∧
      s.contains route.name = false ∧ ∀ r ∈ pending, r.name ≠ route.name) ∨
    ∃ e, s.prepare pending c = .error e ∧
      (e.isA .registration = true ∨ Candidate.checkPath c.path >>= s.target = .error e) := by
  unfold prepare
  cases hmethod : Candidate.checkMethod c.method with
  | error e => exact Or.inr ⟨e, rfl, Or.inl (checkMethod_error hmethod)⟩
  | ok method =>
  cases hname : Candidate.checkName c.name with
  | error e => exact Or.inr ⟨e, rfl, Or.inl (checkName_error hname)⟩
  | ok name =>
  simp only [bind, Except.bind]
  cases hhandler : Candidate.checkHandler name c.handler with
  | error e => exact Or.inr ⟨e, rfl, Or.inl (checkHandler_error hhandler)⟩
  | ok handler =>
  by_cases htaken : (s.contains name || pending.any (·.name == name)) = true
  · simp only [htaken, if_true]
    exact Or.inr ⟨_, rfl, Or.inl rfl⟩
  simp only [htaken, Bool.false_eq_true, if_false]
  cases hpath : Candidate.checkPath c.path with
  | error e => exact Or.inr ⟨e, rfl, Or.inr rfl⟩
  | ok path =>
  cases htarget : s.target path with
  | error e => exact Or.inr ⟨e, by simp only [htarget], Or.inr htarget⟩
  | ok target =>
  simp only [htarget]
  split
  · exact Or.inr ⟨_, rfl, Or.inl rfl⟩
  · next hfree =>
      rw [Bool.not_eq_true, Bool.or_eq_false_iff] at hfree
      obtain ⟨hclashes, hpending⟩ := hfree
      rw [Bool.not_eq_true, Bool.or_eq_false_iff] at htaken
      have horigin : (Candidate.checkPath c.path >>= s.target) = .ok target := by
        rw [hpath]
        exact htarget
      refine Or.inl ⟨_, rfl, ⟨hmethod, hname, hhandler, horigin⟩, ⟨?_, horigin, ?_⟩, htaken.1, ?_⟩
      · exact Option.isSome_eq_false_iff.mp hclashes |> Option.isNone_iff_eq_none.mp
      · rintro r hr ⟨hsame, hkey⟩
        have hany := List.any_eq_false.mp hpending r hr
        simp [hsame, hkey] at hany
      · intro r hr hsame
        exact List.any_eq_false.mp htaken.2 r hr (beq_iff_eq.mpr hsame)

theorem accepted_of_prepare {s : RouteStore} {pending : List Route} {c : Candidate} {route : Route}
    (h : s.prepare pending c = .ok route) :
    s.Describes c route ∧ s.Passes pending c route ∧ s.contains route.name = false ∧
      ∀ r ∈ pending, r.name ≠ route.name := by
  rcases s.prepare_cases pending c with ⟨other, hother, haccepted⟩ | ⟨e, he, _⟩
  · obtain rfl := Except.ok.inj (hother.symm.trans h)
    exact haccepted
  · rw [he] at h
    cases h

theorem passes_of_prepare {s : RouteStore} {pending : List Route} {c : Candidate} {route : Route}
    (h : s.prepare pending c = .ok route) : s.Passes pending c route :=
  (accepted_of_prepare h).2.1

/-- A route that passes the checks can be added after the routes that are about to be. -/
theorem Admits.append {s : RouteStore} {pending : List Route} {c : Candidate} {route : Route}
    (h : s.Admits pending) (hroute : s.Passes pending c route) : s.Admits (pending ++ [route]) := by
  refine ⟨?_, ?_, ?_⟩
  · exact List.forall_mem_append.mpr ⟨h.fresh, List.forall_mem_singleton.mpr hroute.fresh⟩
  · exact List.forall_mem_append.mpr ⟨h.sound, List.forall_mem_singleton.mpr hroute.sound⟩
  · refine List.pairwise_append.mpr ⟨h.distinct, List.pairwise_singleton _ _, ?_⟩
    intro q hq r hr
    rw [List.mem_singleton.mp hr]
    exact hroute.distinct q hq

theorem admits_of_prepareAll {s : RouteStore} (cs : List Candidate) {pending routes : List Route}
    (hpending : s.Admits pending) (h : s.prepareAll pending cs = .ok routes) :
    s.Admits routes :=
  prepareAll_induction cs h hpending fun _ _ _ _ hadmits hprepare =>
    hadmits.append (passes_of_prepare hprepare)

/-- The routes that an operation registers have passed the checks. -/
theorem perform_admits (s : RouteStore) (op : Operation) :
    s.Admits (s.perform op).1.registered :=
  s.registered_induction op (.nil s) fun _ _ _ _ hadmits hprepare =>
    hadmits.append (passes_of_prepare hprepare)

/-- What the tables of a store have to do with the routes that were registered. -/
structure Mirrors (s : RouteStore) (registered : List Route) : Prop where
  find : ∀ fixed key method,
    (s.table fixed).find? key method = registered.find? (·.isAt fixed key method)
  /-- The first key with a property is that of the first registered pattern with the property. -/
  order : ∀ decides : String → Bool, s.patterns.keys.find? decides =
    ((registered.filterMap Route.pattern?).map (·.regex)).find? decides
  nodup : s.patterns.keys.Nodup
  filled : ∀ key routes, s.patterns.get? key = some routes → routes.values ≠ []
  members : ∀ key routes, s.patterns.get? key = some routes → ∀ route ∈ routes.values,
    route ∈ registered ∧ route.isFixed = false ∧ route.key = key
  sound : ∀ route ∈ registered, route.IsSound

theorem Mirrors.start {s : RouteStore} (hfixed : s.fixed = .empty)
    (hpatterns : s.patterns = .empty) :
    s.Mirrors [] := by
  refine ⟨?_, ?_, ?_, ?_, ?_, List.forall_mem_nil _⟩
  · intro fixed key method
    unfold table
    rw [hfixed, hpatterns]
    cases fixed <;> rfl
  · intro decides
    rw [hpatterns]
    rfl
  · rw [hpatterns]
    exact List.nodup_nil
  · intro key routes h
    rw [hpatterns] at h
    cases h
  · intro key routes h
    rw [hpatterns] at h
    cases h

theorem Mirrors.find_insert {s : RouteStore} {registered : List Route} {route : Route}
    (h : s.Mirrors registered) (hfresh : s.IsFresh route) (fixed : Bool) (key : String)
    (method : Method) : ((s.insert route).table fixed).find? key method =
      (registered ++ [route]).find? (·.isAt fixed key method) := by
  rw [find?_insert, List.find?_append, List.find?_singleton, h.find]
  by_cases hat : route.isAt fixed key method = true
  · have hnone := hfresh
    unfold IsFresh at hnone
    rw [h.find] at hnone
    have hplace := hat
    simp only [Route.isAt, Bool.and_eq_true, beq_iff_eq] at hplace
    obtain ⟨⟨rfl, rfl⟩, rfl⟩ := hplace
    rw [hnone, if_pos hat]
    rfl
  · rw [if_neg hat, if_neg hat, Option.or_none]

/-- A key that was there already is no news to a search for the first one. -/
theorem find?_append_of_mem {keys others : List String} {decides : String → Bool} {key : String}
    (h : keys.find? decides = others.find? decides) (hkey : key ∈ keys) :
    keys.find? decides = (others ++ [key]).find? decides := by
  rw [List.find?_append, ← h]
  cases hfind : keys.find? decides with
  | some found => rfl
  | none =>
      have hnot := List.find?_eq_none.mp hfind key hkey
      rw [List.find?_singleton, if_neg hnot]
      rfl

/-- A route with a pattern is added to the table of its pattern. -/
theorem Mirrors.insert_pattern {s : RouteStore} {registered : List Route} {route : Route}
    {p : RoutePattern} (h : s.Mirrors registered) (hfresh : s.IsFresh route)
    (hsound : route.IsSound) (hp : route.pattern? = some p) :
    (s.insert route).Mirrors (registered ++ [route]) := by
  obtain ⟨hfixed, hkey, _⟩ := Route.key_of_pattern? hp
  have hpatterns : (s.insert route).patterns = s.patterns.add route := by
    unfold insert
    rw [hfixed]
    rfl
  have hmem : ∀ old ∈ registered, old ∈ registered ++ [route] :=
    fun old hold => List.mem_append_left _ hold
  refine ⟨h.find_insert hfresh, ?_, ?_, ?_, ?_, ?_⟩
  · intro decides
    have hadded : ((registered ++ [route]).filterMap Route.pattern?).map (·.regex) =
        (registered.filterMap Route.pattern?).map (·.regex) ++ [route.key] := by
      simp [hp, hkey]
    rw [hpatterns, hadded]
    unfold RouteTable.add
    rw [OrderedMap.keys_alter]
    by_cases hknown : route.key ∈ s.patterns.keys
    · rw [if_pos hknown]
      exact find?_append_of_mem (h.order decides) hknown
    · rw [if_neg hknown, List.find?_append, List.find?_append, h.order]
  · rw [hpatterns]
    exact OrderedMap.nodup_keys_alter h.nodup _ _
  · intro key routes hroutes
    rw [hpatterns] at hroutes
    rcases RouteTable.get?_add_cases hroutes with ⟨_, group, _, rfl⟩ | hroutes
    · exact List.ne_nil_of_mem (OrderedMap.mem_values_insert_self group route.method route)
    · exact h.filled key routes hroutes
  · intro key routes hroutes old hold
    rw [hpatterns] at hroutes
    rcases RouteTable.get?_add_cases hroutes with ⟨rfl, group, hgroup, rfl⟩ | hroutes
    · rcases OrderedMap.mem_values_alter hold with hbefore | ⟨_, rfl⟩
      · rcases hgroup with rfl | hgroup
        · cases hbefore
        · obtain ⟨hold, hplace⟩ := h.members route.key group hgroup old hbefore
          exact ⟨hmem old hold, hplace⟩
      · exact ⟨List.mem_append_right _ (List.mem_singleton_self _), hfixed, rfl⟩
    · obtain ⟨hold, hplace⟩ := h.members key routes hroutes old hold
      exact ⟨hmem old hold, hplace⟩
  · exact List.forall_mem_append.mpr ⟨h.sound, List.forall_mem_singleton.mpr hsound⟩

theorem Mirrors.insert {s : RouteStore} {registered : List Route} {route : Route}
    (h : s.Mirrors registered) (hfresh : s.IsFresh route) (hsound : route.IsSound) :
    (s.insert route).Mirrors (registered ++ [route]) := by
  cases hp : route.pattern? with
  | some p => exact h.insert_pattern hfresh hsound hp
  | none =>
      have hpatterns : (s.insert route).patterns = s.patterns := by
        unfold RouteStore.insert Route.isFixed
        rw [hp]
        rfl
      refine ⟨h.find_insert hfresh, ?_, ?_, ?_, ?_, ?_⟩
      · intro decides
        have hnone : (registered ++ [route]).filterMap Route.pattern? =
            registered.filterMap Route.pattern? := by
          simp [hp]
        rw [hpatterns, hnone]
        exact h.order decides
      · rw [hpatterns]
        exact h.nodup
      · rw [hpatterns]
        exact h.filled
      · intro key routes hroutes old hold
        rw [hpatterns] at hroutes
        obtain ⟨hold, hplace⟩ := h.members key routes hroutes old hold
        exact ⟨List.mem_append_left _ hold, hplace⟩
      · exact List.forall_mem_append.mpr ⟨h.sound, List.forall_mem_singleton.mpr hsound⟩

theorem Mirrors.foldl {s : RouteStore} {registered : List Route} (routes : List Route)
    (h : s.Mirrors registered) (hroutes : s.Admits routes) :
    (routes.foldl RouteStore.insert s).Mirrors (registered ++ routes) := by
  induction routes generalizing s registered with
  | nil =>
      rw [List.append_nil]
      exact h
  | cons route rest ih =>
      obtain ⟨hfresh, _⟩ := List.forall_mem_cons.mp hroutes.fresh
      obtain ⟨hsound, _⟩ := List.forall_mem_cons.mp hroutes.sound
      have hrest := ih (h.insert hfresh hsound) hroutes.tail
      rw [List.append_assoc] at hrest
      exact hrest

/-- The tables do not depend on the matcher. -/
theorem Mirrors.of_bare {s t : RouteStore} {registered : List Route} (h : s.Mirrors registered)
    (hbare : t.bare = s.bare) : t.Mirrors registered := by
  have hfixed := congrArg RouteStore.fixed hbare
  have hpatterns := congrArg RouteStore.patterns hbare
  change t.fixed = s.fixed at hfixed
  change t.patterns = s.patterns at hpatterns
  refine ⟨?_, ?_, ?_, ?_, ?_, h.sound⟩
  · unfold table
    rw [hfixed, hpatterns]
    exact h.find
  · rw [hpatterns]
    exact h.order
  · rw [hpatterns]
    exact h.nodup
  · rw [hpatterns]
    exact h.filled
  · rw [hpatterns]
    exact h.members

/-- Whatever is done to a store, its tables mirror what was registered. -/
theorem Mirrors.run {s : RouteStore} {registered : List Route} (h : s.Mirrors registered)
    (ops : List Operation) : (s.run ops).Mirrors (registered ++ history (s.records ops)) := by
  induction ops generalizing s registered with
  | nil =>
      rw [records, history, List.flatMap_nil, List.append_nil]
      exact h
  | cons op rest ih =>
      have hinserted := h.foldl _ (s.perform_admits op)
      have hstep := hinserted.of_bare (effect_bare s _ _ (s.perform_effect op))
      have hrest := ih hstep
      rw [List.append_assoc] at hrest
      exact hrest

end RouteStore

end NamedRoutes
