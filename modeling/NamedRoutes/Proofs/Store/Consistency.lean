import NamedRoutes.Proofs.Pattern.Layout
import NamedRoutes.Proofs.Store.Batch
import NamedRoutes.Proofs.Store.Names

/-!
How the maps of a store fit together. A registration changes a table and the names, after checks
that look at the store before it. Whatever is done to a store, the names and the tables hold the
same routes, each in its place, and every path lies in the namespace.
-/

namespace NamedRoutes

namespace Path

/-- Whether a path is a namespace or goes on from it with a slash. -/
def LiesIn (space path : String) : Prop := path = space ∨ (space ++ "/").toList <+: path.toList

theorem liesIn_append (space path : String) : LiesIn space (space ++ "/" ++ path) :=
  Or.inr ⟨path.toList, by simp⟩

theorem liesIn_join {space : String} (hspace : space ≠ "") (path : String) :
    LiesIn space (join space path) := by
  unfold join
  rw [if_neg (by simpa using hspace)]
  split
  · exact Or.inl rfl
  · exact liesIn_append space path

end Path

namespace RouteTable

/-- A route under a new place comes after the others, or at least among those with its key. -/
theorem routes_add {table : RouteTable} {route : Route}
    (h : table.find? route.key route.method = none) :
    (table.add route).routes.Perm (table.routes ++ [route]) := by
  refine OrderedMap.flatMap_values_alter OrderedMap.values [route] table route.key _ ?_
  unfold find? at h
  cases hgroup : table.get? route.key with
  | none => exact OrderedMap.values_insert_of_get?_none rfl route
  | some group =>
      rw [hgroup] at h
      exact OrderedMap.values_insert_of_get?_none h route

/-- No key of a table is without routes after one was added. -/
theorem values_ne_nil_add {table : RouteTable} (h : ∀ group ∈ table.values, group.values ≠ [])
    (route : Route) : ∀ group ∈ (table.add route).values, group.values ≠ [] := by
  intro group hgroup
  rcases OrderedMap.mem_values_alter hgroup with hold | ⟨old, rfl⟩
  · exact h group hold
  · exact List.ne_nil_of_mem (OrderedMap.mem_values_insert_self _ route.method route)

end RouteTable

/-- Whether two routes can stand in one store: neither their names nor their places are the same. -/
def Route.Apart (q r : Route) : Prop :=
  q.name ≠ r.name ∧ ¬ (q.isFixed = r.isFixed ∧ q.key = r.key ∧ q.method = r.method)

namespace RouteStore

/-- How the tables and the names of a store fit together. -/
structure Consistent (s : RouteStore) : Prop where
  /-- A name leads to the listed route that has it. -/
  indexed : ∀ name route, s.find? name = some route ↔ route ∈ s.routes ∧ route.name = name
  /-- The listed routes are the values of the index. -/
  listed : s.routes.Perm s.names.values
  /-- Under a key and a method of a table stands the listed route that has them. -/
  filed : ∀ fixed key method route, (s.table fixed).find? key method = some route ↔
    route ∈ s.routes ∧ route.isAt fixed key method = true
  /-- No two listed routes have the same name or the same place. -/
  apart : s.routes.Pairwise Route.Apart
  /-- Every key of a table has a route. -/
  filled : ∀ fixed, ∀ group ∈ (s.table fixed).values, group.values ≠ []
  /-- Every path lies in the namespace. -/
  within : s.space ≠ "" → ∀ route ∈ s.routes, Path.LiesIn s.space route.path

variable {s t : RouteStore} {route : Route}

theorem Consistent.create {space : String} {chunkSize : Chunk.Size}
    (h : RouteStore.create space chunkSize = .ok s) : s.Consistent := by
  obtain ⟨cleaned, _, rfl⟩ := create_eq space chunkSize s h
  refine ⟨?_, .refl _, ?_, .nil, ?_, fun _ => List.forall_mem_nil _⟩
  · intro name route
    constructor
    · exact fun hfind => nomatch hfind
    · exact fun hmem => nomatch hmem.1
  · intro fixed key method route
    constructor
    · cases fixed <;> exact fun hfind => nomatch hfind
    · exact fun hmem => nomatch hmem.1
  · intro fixed
    cases fixed <;> exact List.forall_mem_nil _

/-- The listed routes are those of the two tables, in whichever of them a new route is put. -/
theorem routes_insert (hfresh : s.IsFresh route) :
    (s.insert route).routes.Perm (s.routes ++ [route]) := by
  unfold IsFresh table at hfresh
  unfold insert routes
  cases hfixed : route.isFixed with
  | true =>
      rw [hfixed] at hfresh
      simp only [if_true, List.append_assoc]
      refine ((RouteTable.routes_add hfresh).append_right _).trans ?_
      rw [List.append_assoc]
      exact List.perm_append_comm.append_left _
  | false =>
      rw [hfixed] at hfresh
      simp only [Bool.false_eq_true, if_false, List.append_assoc]
      exact (RouteTable.routes_add hfresh).append_left _

theorem mem_routes_insert (hfresh : s.IsFresh route) (r : Route) :
    r ∈ (s.insert route).routes ↔ r ∈ s.routes ∨ r = route := by
  rw [(routes_insert hfresh).mem_iff, List.mem_append, List.mem_singleton]

/-- A route in a new place and with a free name is apart from the others. -/
theorem Consistent.apart_of_fresh (h : s.Consistent) (hfresh : s.IsFresh route)
    (hfree : s.contains route.name = false) : ∀ q ∈ s.routes, q.Apart route := by
  refine fun q hq => ⟨fun hname => ?_, fun ⟨hfixed, hkey, hmethod⟩ => ?_⟩
  · have hfound := (h.indexed route.name q).mpr ⟨hq, hname⟩
    have hcontains : s.contains route.name = true := Option.isSome_iff_exists.mpr ⟨q, hfound⟩
    rw [hcontains] at hfree
    cases hfree
  · have hat : q.isAt route.isFixed route.key route.method = true := by
      simp [Route.isAt, hfixed, hkey, hmethod]
    have hfound := (h.filed _ _ _ q).mpr ⟨hq, hat⟩
    rw [hfresh] at hfound
    cases hfound

/-- What is looked up in a consistent store after a registration. -/
theorem found_iff_insert (place : Route → Prop) [DecidablePred place] {found : Option Route}
    (hfound : ∀ r, found = some r ↔ r ∈ s.routes ∧ place r) (hfresh : s.IsFresh route)
    (hplace : ∀ q ∈ s.routes, place q → ¬ place route) (r : Route) :
    (if place route then some route else found) = some r ↔
      r ∈ (s.insert route).routes ∧ place r := by
  rw [mem_routes_insert hfresh]
  by_cases hroute : place route
  · rw [if_pos hroute, Option.some.injEq]
    constructor
    · rintro rfl
      exact ⟨Or.inr rfl, hroute⟩
    · rintro ⟨hold | rfl, hr⟩
      · exact absurd hroute (hplace r hold hr)
      · rfl
  · rw [if_neg hroute, hfound]
    constructor
    · exact fun ⟨hmem, hr⟩ => ⟨Or.inl hmem, hr⟩
    · rintro ⟨hold | rfl, hr⟩
      · exact ⟨hold, hr⟩
      · exact absurd hr hroute

/-- Adding a route keeps a store consistent if its place is new, its name is free and its path lies
in the namespace. -/
theorem Consistent.insert (h : s.Consistent) (hfresh : s.IsFresh route)
    (hfree : s.contains route.name = false)
    (hwithin : s.space ≠ "" → Path.LiesIn s.space route.path) : (s.insert route).Consistent := by
  have hapart := h.apart_of_fresh hfresh hfree
  have hspace := (insert_settings s route).1
  refine ⟨?_, ?_, ?_, ?_, ?_, ?_⟩
  · intro name r
    rw [find?_insert_name]
    have hfound := found_iff_insert (fun r => r.name = name) (h.indexed name) hfresh
      (fun q hq hname hroute => (hapart q hq).1 (hname.trans hroute.symm)) r
    simpa only [eq_comm] using hfound
  · have hnames : (s.insert route).names = s.names.insert route.name route := by
      unfold RouteStore.insert
      cases route.isFixed <;> rfl
    rw [hnames]
    exact (routes_insert hfresh).trans ((h.listed.append_right _).trans
      (OrderedMap.values_insert_of_get?_none (Option.isSome_eq_false_iff.mp hfree |>
        Option.isNone_iff_eq_none.mp) route).symm)
  · intro fixed key method r
    rw [find?_insert]
    refine found_iff_insert (fun r => r.isAt fixed key method = true)
      (h.filed fixed key method) hfresh
      (fun q hq hat hroute => ?_) r
    simp only [Route.isAt, Bool.and_eq_true, beq_iff_eq] at hat hroute
    exact (hapart q hq).2 ⟨hat.1.1.trans hroute.1.1.symm, hat.1.2.trans hroute.1.2.symm,
      hat.2.trans hroute.2.symm⟩
  · have hsymm : ∀ {q r : Route}, q.Apart r → r.Apart q := fun hqr =>
      ⟨Ne.symm hqr.1, fun hsame => hqr.2 ⟨hsame.1.symm, hsame.2.1.symm, hsame.2.2.symm⟩⟩
    rw [(routes_insert hfresh).pairwise_iff hsymm]
    refine List.pairwise_append.mpr ⟨h.apart, List.pairwise_singleton _ _, fun q hq r hr => ?_⟩
    rw [List.mem_singleton.mp hr]
    exact hapart q hq
  · intro fixed
    rw [table_insert]
    split
    · exact RouteTable.values_ne_nil_add (h.filled fixed) route
    · exact h.filled fixed
  · intro hne r hr
    rw [hspace] at hne ⊢
    rcases (mem_routes_insert hfresh r).mp hr with hold | rfl
    · exact h.within hne r hold
    · exact hwithin hne

theorem Consistent.foldl (routes : List Route) (h : s.Consistent) (hadmits : s.Admits routes)
    (hnames : s.NamesFree routes)
    (hwithin : ∀ r ∈ routes, s.space ≠ "" → Path.LiesIn s.space r.path) :
    (routes.foldl RouteStore.insert s).Consistent := by
  induction routes generalizing s with
  | nil => exact h
  | cons route rest ih =>
      have hnext := h.insert (hadmits.fresh route List.mem_cons_self)
        (hnames.free route List.mem_cons_self) (hwithin route List.mem_cons_self)
      refine ih hnext hadmits.tail hnames.tail fun r hr => ?_
      rw [(insert_settings s route).1]
      exact hwithin r (List.mem_cons_of_mem _ hr)

/-- The matcher has no part in it. -/
theorem Consistent.of_bare (h : s.Consistent) (hbare : t.bare = s.bare) : t.Consistent := by
  obtain ⟨space, size, fixed, patterns, names, matcher, stale⟩ := t
  obtain ⟨rfl, rfl, rfl, rfl, rfl⟩ : space = s.space ∧ size = s.chunkSize ∧ fixed = s.fixed ∧
      patterns = s.patterns ∧ names = s.names := by
    simpa [bare] using hbare
  exact ⟨h.indexed, h.listed, h.filed, h.apart, h.filled, h.within⟩

/-- What a path leads to lies in the namespace. -/
theorem liesIn_of_target {path : String} (h : s.target path = .ok route.target)
    (hspace : s.space ≠ "") :
    Path.LiesIn s.space route.path := by
  unfold Route.path
  rcases target_eq_ok h with ⟨_, _, htarget⟩ | ⟨p, _, hcompile, htarget⟩
  · rw [htarget]
    exact Path.liesIn_join hspace path
  · obtain ⟨t, hassembled⟩ := RoutePattern.assembled_of_compile hcompile
    rw [htarget]
    change Path.LiesIn s.space p.path
    rw [hassembled.path, if_neg (by simpa using hspace)]
    exact Path.liesIn_append _ _

/-- A route that has passed the checks has a path in the namespace. -/
theorem Passes.liesIn {pending : List Route} {c : Candidate} (h : s.Passes pending c route)
    (hspace : s.space ≠ "") : Path.LiesIn s.space route.path := by
  obtain ⟨path, _, htarget⟩ := exists_text_of_origin h.origin
  exact liesIn_of_target htarget hspace

/-- No operation makes a store inconsistent. -/
theorem Consistent.perform (h : s.Consistent) (op : Operation) : (s.perform op).2.Consistent := by
  have hinserted := h.foldl _ (s.perform_admits op) (s.perform_namesFree op) fun r hr hspace => by
    obtain ⟨c, _, pending, hpasses⟩ := s.passes_of_registered op r hr
    exact hpasses.liesIn hspace
  exact hinserted.of_bare (effect_bare s _ _ (s.perform_effect op))

/-- Whatever is done to a new store, it is consistent. -/
theorem consistent_of_create {space : String} {chunkSize : Chunk.Size} {start : RouteStore}
    (hstart : RouteStore.create space chunkSize = .ok start) (ops : List Operation) :
    (start.run ops).Consistent :=
  run_induction start (.create hstart) (fun _ op hconsistent => hconsistent.perform op) ops

/-- A name is listed as often as it is a key of the index. -/
theorem Consistent.size_eq (h : s.Consistent) : s.size = s.routes.length := by
  rw [h.listed.length_eq]
  exact (List.length_map _).symm

theorem Consistent.nodup (h : s.Consistent) : s.routes.Nodup :=
  h.apart.imp fun hapart hsame => hapart.1 (congrArg Route.name hsame)

/-- A single registration that is refused answers with its error. -/
theorem answer_of_rejection {c : Candidate} {e : Error}
    (h : (s.perform (.add c)).1.answer.rejection? = some e) :
    (s.perform (.add c)).1.answer = .added (.error e) := by
  rw [perform_add] at h ⊢
  cases hprepare : s.prepare [] c with
  | error cause =>
      rw [hprepare] at h
      cases h
      rfl
  | ok route =>
      rw [hprepare] at h
      cases h

/-- Whatever is done to a new store, its names and its tables fit together, every listed route is
listed once, there are as many as there are names, and a registration that is refused changes
nothing at all. -/
theorem reachable_store_consistent (space : String) (chunkSize : Chunk.Size) (start : RouteStore)
    (hstart : RouteStore.create space chunkSize = .ok start) (ops : List Operation) :
    let s := start.run ops
    s.Consistent ∧ s.routes.Nodup ∧ s.size = s.routes.length ∧
      ∀ c e, (s.perform (.add c)).1.answer = .added (.error e) → (s.perform (.add c)).2 = s := by
  intro s
  have h : s.Consistent := consistent_of_create hstart ops
  refine ⟨h, h.nodup, h.size_eq, fun c e hrefused => ?_⟩
  rw [perform_add] at hrefused ⊢
  cases hprepare : s.prepare [] c with
  | error cause => rfl
  | ok route =>
      rw [hprepare] at hrefused
      cases hrefused

/-- Two fixed routes and two patterns that share their places but for the method, a request in
between, and a batch that is refused for its last name. -/
def crossedPlan : List Operation :=
  let handler : Output := .function (.mk "show" true false none none .arguments)
  [.add ⟨.text "GET", .text "/", .text "home", handler⟩,
    .addAll [⟨.text "GET", .text "u/{id:i}", .text "user", handler⟩,
      ⟨.text "POST", .text "u/{number:[0-9]+}", .text "change", handler⟩],
    .request (.text "GET") (.text "/v/u/7/"),
    .addAll [⟨.text "PUT", .text "u/{id:i}", .text "replace", handler⟩,
      ⟨.text "GET", .text "about", .text "user", handler⟩],
    .add ⟨.text "POST", .text "", .text "enter", handler⟩]

def crossingCandidate : Candidate :=
  ⟨.text "POST", .text "/u/{key:i}/", .text "other",
    .function (.mk "show" true false none none .arguments)⟩

theorem reachable_store_consistent_for_crossed_plan :
    let start : RouteStore := { space := "v", chunkSize := .whole 10 }
    let s := start.run crossedPlan
    create "/v/" (.whole 10) = .ok start ∧
    s.routes.map (·.name) = ["home", "enter", "user", "change"] ∧ s.Consistent ∧ s.size = 4 ∧
    ∃ e, e.message = "Cannot register two routes matching 'v/u/([0-9]+)' for method 'POST'." ∧
      (s.perform (.add crossingCandidate)).1.answer = .added (.error e) ∧
      (s.perform (.add crossingCandidate)).2 = s := by
  intro start s
  have hcreate : create "/v/" (.whole 10) = .ok start := rfl
  have hreachable : s.Consistent ∧ s.routes.Nodup ∧ s.size = s.routes.length ∧
      ∀ c e, (s.perform (.add c)).1.answer = .added (.error e) → (s.perform (.add c)).2 = s :=
    reachable_store_consistent "/v/" (.whole 10) start hcreate crossedPlan
  obtain ⟨hconsistent, _, hsize, hunchanged⟩ := hreachable
  have hnames : s.routes.map (·.name) = ["home", "enter", "user", "change"] := by decide +kernel
  have hlength : s.routes.length = 4 := by
    have hcount := congrArg List.length hnames
    rwa [List.length_map] at hcount
  have hrefused : (s.perform (.add crossingCandidate)).1.answer.rejection?.map Error.message =
      some "Cannot register two routes matching 'v/u/([0-9]+)' for method 'POST'." := by
    decide +kernel
  obtain ⟨e, he, hmessage⟩ := Option.map_eq_some_iff.mp hrefused
  have hanswer := answer_of_rejection he
  exact ⟨hcreate, hnames, hconsistent, hsize.trans hlength, e, hmessage, hanswer,
    hunchanged crossingCandidate e hanswer⟩

end RouteStore

end NamedRoutes
