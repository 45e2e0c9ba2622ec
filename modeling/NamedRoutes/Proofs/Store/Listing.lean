import NamedRoutes.Proofs.Store.ExactBinding

/-!
The order in which a store lists its routes. A table keeps its keys in the order of their first
routes, and under each key the routes in the order of their registration. So a route is listed right
after the others with its path or its expression, even if routes with other ones were registered in
between.
-/

namespace NamedRoutes

theorem eraseDups_concat {κ : Type} [DecidableEq κ] (keys : List κ) (key : κ) :
    (keys ++ [key]).eraseDups = keys.eraseDups ++ if key ∈ keys then [] else [key] := by
  rw [List.eraseDups_append]
  by_cases h : key ∈ keys
  · simp [List.removeAll, h]
  · simp [List.removeAll, h, List.eraseDups_cons]

theorem nodup_eraseDups {κ : Type} [DecidableEq κ] (keys : List κ) : keys.eraseDups.Nodup := by
  induction keys using List.reverseRecOn with
  | nil => simp
  | append_singleton keys key ih =>
      rw [eraseDups_concat]
      split
      · rw [List.append_nil]
        exact ih
      · next hnew =>
          refine List.nodup_append.mpr ⟨ih, List.pairwise_singleton _ _, ?_⟩
          rintro old hold _ hkey rfl
          rw [List.mem_singleton.mp hkey] at hold
          exact hnew (List.mem_eraseDups.mp hold)

namespace RouteTable

variable {routes : List Route} {route : Route} {key : String}

def groupOf (routes : List Route) (key : String) : OrderedMap Method Route :=
  ⟨(routes.filter (·.key == key)).map fun r => (r.method, r)⟩

def ofRoutes (routes : List Route) : RouteTable :=
  ⟨(routes.map Route.key).eraseDups.map fun key => (key, groupOf routes key)⟩

/-- Some routes, key by key in the order of the first ones. -/
def inGroups (routes : List Route) : List Route :=
  (routes.map Route.key).eraseDups.flatMap fun key => routes.filter (·.key == key)

theorem routes_ofRoutes (routes : List Route) : (ofRoutes routes).routes = inGroups routes := by
  simp [RouteTable.routes, ofRoutes, inGroups, OrderedMap.values, groupOf, List.flatMap_map,
    Function.comp_def]

theorem groupOf_concat_of_ne (h : route.key ≠ key) :
    groupOf (routes ++ [route]) key = groupOf routes key := by
  simp [groupOf, h]

theorem groupOf_concat_self (h : route.method ∉ (groupOf routes route.key).keys) :
    groupOf (routes ++ [route]) route.key =
      (groupOf routes route.key).insert route.method route := by
  rw [OrderedMap.insert_of_not_mem h]
  simp [groupOf]

theorem groupOf_of_not_mem (h : key ∉ routes.map Route.key) : groupOf routes key = .empty := by
  have hnone : routes.filter (·.key == key) = [] := by
    refine List.filter_eq_nil_iff.mpr fun r hr hkey => h ?_
    exact List.mem_map.mpr ⟨r, hr, beq_iff_eq.mp hkey⟩
  unfold groupOf
  rw [hnone]
  rfl

/-- A route in a new place comes last under its key, and a new key comes last of all. -/
theorem add_ofRoutes (h : route.method ∉ (groupOf routes route.key).keys) :
    (ofRoutes routes).add route = ofRoutes (routes ++ [route]) := by
  have hothers : ∀ keys : List String, route.key ∉ keys →
      keys.map (fun key => (key, groupOf (routes ++ [route]) key)) =
        keys.map fun key => (key, groupOf routes key) := fun keys hkeys =>
    List.map_congr_left fun key hkey => by rw [groupOf_concat_of_ne fun heq => hkeys (heq ▸ hkey)]
  have hnodup := nodup_eraseDups (routes.map Route.key)
  have hmem : route.key ∈ (routes.map Route.key).eraseDups ↔ route.key ∈ routes.map Route.key :=
    List.mem_eraseDups
  unfold ofRoutes
  rw [List.map_append, List.map_singleton, eraseDups_concat]
  generalize (routes.map Route.key).eraseDups = keys at hnodup hmem
  by_cases hknown : route.key ∈ routes.map Route.key
  · obtain ⟨before, after, rfl⟩ := List.append_of_mem (hmem.mpr hknown)
    obtain ⟨_, hafter, hbefore⟩ := List.nodup_append.mp hnodup
    have hfirst : route.key ∉ before := fun hin => hbefore _ hin _ List.mem_cons_self rfl
    have hlast : route.key ∉ after := (List.nodup_cons.mp hafter).1
    unfold add OrderedMap.alter
    rw [if_pos hknown, List.append_nil, List.map_append, List.map_append, List.map_cons,
      List.map_cons, OrderedMap.alterEntries_append (by simpa using hfirst),
      OrderedMap.alterEntries, if_pos rfl, hothers before hfirst, hothers after hlast,
      groupOf_concat_self h]
    rfl
  · have hnew : route.key ∉ keys := mt hmem.mp hknown
    rw [if_neg hknown, List.map_append, hothers keys hnew, List.map_singleton,
      groupOf_concat_self h, groupOf_of_not_mem hknown, add_of_not_mem (by simpa using hnew)]
    rfl

/-- A table of some routes has them in their places. -/
theorem find?_ofRoutes (routes : List Route) (key : String) (method : Method) :
    (ofRoutes routes).find? key method = (groupOf routes key).get? method := by
  have hkeys : (ofRoutes routes).keys = (routes.map Route.key).eraseDups := by
    simp [ofRoutes, OrderedMap.keys, Function.comp_def]
  unfold find?
  by_cases hknown : key ∈ routes.map Route.key
  · have hentry : (key, groupOf routes key) ∈ (ofRoutes routes).entries :=
      List.mem_map.mpr ⟨key, List.mem_eraseDups.mpr hknown, rfl⟩
    rw [OrderedMap.get?_of_mem (hkeys ▸ nodup_eraseDups _) hentry]
    rfl
  · have hnone : (ofRoutes routes).get? key = none := by
      refine List.lookup_eq_none_iff.mpr fun entry hentry => bne_iff_ne.mpr ?_
      rintro rfl
      have hmem : entry.1 ∈ (ofRoutes routes).keys := List.mem_map_of_mem hentry
      exact hknown (List.mem_eraseDups.mp (hkeys ▸ hmem))
    rw [hnone, groupOf_of_not_mem hknown]
    rfl

/-- The way in which routes are grouped: those with the key of the first one, and then the others.
-/
theorem grouping_induction {motive : List Route → Prop} (nil : motive [])
    (cons : ∀ route rest, motive (rest.filter (!·.key == route.key)) → motive (route :: rest))
    (routes : List Route) : motive routes := by
  induction hlength : routes.length using Nat.strong_induction_on generalizing routes with
  | h length ih =>
      cases routes with
      | nil => exact nil
      | cons route rest =>
          refine cons route rest (ih _ ?_ _ rfl)
          rw [← hlength, List.length_cons]
          exact Nat.lt_succ_of_le (List.length_filter_le _ rest)

theorem inGroups_cons (route : Route) (rest : List Route) : inGroups (route :: rest) =
    route ::
      (rest.filter (·.key == route.key) ++ inGroups (rest.filter (!·.key == route.key))) := by
  have hkeys : ((route :: rest).map Route.key).eraseDups =
      route.key :: ((rest.filter (!·.key == route.key)).map Route.key).eraseDups := by
    rw [List.map_cons, List.eraseDups_cons, List.filter_map]
    rfl
  have hothers : ∀ key ∈ ((rest.filter (!·.key == route.key)).map Route.key).eraseDups,
      (route :: rest).filter (·.key == key) =
        (rest.filter (!·.key == route.key)).filter (·.key == key) := by
    intro key hkey
    obtain ⟨r, hr, rfl⟩ := List.mem_map.mp (List.mem_eraseDups.mp hkey)
    have hne : r.key ≠ route.key := by simpa using (List.mem_filter.mp hr).2
    rw [List.filter_cons, if_neg (by simpa using hne.symm), List.filter_filter]
    refine List.filter_congr fun q _ => ?_
    by_cases hq : q.key = r.key
    · simp [hq, hne]
    · simp [hq]
  unfold inGroups
  rw [hkeys, List.flatMap_cons, List.filter_cons, if_pos (beq_self_eq_true _), List.cons_append,
    List.flatMap_congr hothers]

theorem inGroups_perm (routes : List Route) : (inGroups routes).Perm routes := by
  induction routes using grouping_induction with
  | nil => exact .nil
  | cons route rest ih =>
      rw [inGroups_cons]
      exact ((ih.append_left _).trans (List.filter_append_perm _ rest)).cons route

/-- Whether routes with one key have no route with another key between them. -/
def Unbroken (routes : List Route) : Prop :=
  ∀ q r q' : Route, [q, r, q'].Sublist routes → q.key = q'.key → r.key = q.key

/-- Those with a property come first if none comes after one without it. -/
theorem filter_append_filter_not {α : Type} {p : α → Bool} {items : List α}
    (h : items.Pairwise fun x y => p y = true → p x = true) :
    items.filter p ++ items.filter (!p ·) = items := by
  induction items with
  | nil => rfl
  | cons item rest ih =>
      obtain ⟨hitem, hrest⟩ := List.pairwise_cons.mp h
      cases hp : p item with
      | true => simp [hp, ih hrest]
      | false =>
          have hnone : ∀ other ∈ rest, ¬ p other = true := fun other hother htrue => by
            rw [hitem other hother htrue] at hp
            cases hp
          have hall : rest.filter (!p ·) = rest := List.filter_eq_self.mpr (by simpa using hnone)
          simp [hp, List.filter_eq_nil_iff.mpr hnone, hall]

theorem unbroken_cons_iff (route : Route) (rest : List Route) : Unbroken (route :: rest) ↔
    rest.filter (·.key == route.key) ++ rest.filter (!·.key == route.key) = rest ∧
      Unbroken (rest.filter (!·.key == route.key)) := by
  constructor
  · intro h
    refine ⟨filter_append_filter_not (List.pairwise_iff_forall_sublist.mpr fun hpair hlast => ?_),
      ?_⟩
    · rw [beq_iff_eq] at hlast ⊢
      exact h _ _ _ (hpair.cons_cons route) hlast.symm
    · exact fun q r q' hsub => h q r q' ((hsub.trans List.filter_sublist).cons route)
  · rintro ⟨hrest, h⟩ q r q' hsub hkey
    rw [← hrest, ← List.cons_append] at hsub
    obtain ⟨first, last, hparts, hfirst, hlast⟩ := List.sublist_append_iff.mp hsub
    have hsame : ∀ x ∈ first, x.key = route.key := fun x hx => by
      rcases List.mem_cons.mp (hfirst.subset hx) with rfl | hx
      · rfl
      · exact beq_iff_eq.mp (List.mem_filter.mp hx).2
    have hother : ∀ x ∈ last, x.key ≠ route.key := fun x hx => by
      simpa using (List.mem_filter.mp (hlast.subset hx)).2
    -- where the three routes go over from the group of the first key to the others
    match first, hparts with
    | [], hparts =>
        obtain rfl : [q, r, q'] = last := hparts
        exact h q r q' hlast hkey
    | [x], hparts =>
        cases hparts
        exact absurd (hkey.symm.trans (hsame _ (by simp))) (hother _ (by simp))
    | x :: y :: more, hparts =>
        obtain ⟨rfl, rfl, _⟩ : q = x ∧ r = y ∧ _ := by simpa using hparts
        rw [hsame q (by simp), hsame r (by simp)]

theorem inGroups_eq_self_iff (routes : List Route) : inGroups routes = routes ↔
    Unbroken routes := by
  induction routes using grouping_induction with
  | nil =>
      refine iff_of_true rfl fun q r q' hsub => ?_
      cases hsub
  | cons route rest ih =>
      rw [inGroups_cons, List.cons_inj_right, unbroken_cons_iff, ← ih]
      constructor
      · intro h
        have hothers : inGroups (rest.filter (!·.key == route.key)) =
            rest.filter (!·.key == route.key) := by
          have hmem : ∀ r ∈ inGroups (rest.filter (!·.key == route.key)),
              (!r.key == route.key) = true :=
            fun r hr => (List.mem_filter.mp ((inGroups_perm _).subset hr)).2
          have hsplit := congrArg (List.filter (!·.key == route.key)) h
          rw [List.filter_append, List.filter_eq_self.mpr hmem, List.filter_filter] at hsplit
          simpa using hsplit
        exact ⟨by rwa [hothers] at h, hothers⟩
      · rintro ⟨hrest, hothers⟩
        rw [hothers, hrest]

end RouteTable

namespace RouteStore

open RouteTable

variable {s : RouteStore} {registered : List Route}

/-- Routes that can be added one after the other join those of a table in their order. -/
theorem table_foldl_ofRoutes {routes : List Route} (h : s.Admits routes) {fixed : Bool}
    (htable : s.table fixed = ofRoutes registered) : (routes.foldl insert s).table fixed =
      ofRoutes (registered ++ routes.filter (·.isFixed == fixed)) := by
  induction routes generalizing s registered with
  | nil =>
      rw [List.filter_nil, List.append_nil]
      exact htable
  | cons route rest ih =>
      rw [List.foldl_cons, List.filter_cons]
      by_cases hfixed : route.isFixed = fixed
      · have hfresh := h.fresh route List.mem_cons_self
        unfold IsFresh at hfresh
        rw [hfixed, htable, find?_ofRoutes] at hfresh
        have hmethod : route.method ∉ (groupOf registered route.key).keys := fun hmem => by
          obtain ⟨entry, hentry, hplace⟩ := List.mem_map.mp hmem
          have hother := List.lookup_eq_none_iff.mp hfresh entry hentry
          rw [hplace, bne_self_eq_false] at hother
          cases hother
        have hadded : (s.insert route).table fixed = ofRoutes (registered ++ [route]) := by
          rw [table_insert, if_pos hfixed, htable, add_ofRoutes hmethod]
        rw [if_pos (beq_iff_eq.mpr hfixed), ih h.tail hadded, List.append_assoc,
          List.singleton_append]
      · have hkept : (s.insert route).table fixed = ofRoutes registered := by
          rw [table_insert, if_neg hfixed, htable]
        rw [if_neg (by simpa using hfixed), ih h.tail hkept]

theorem table_run (ops : List Operation) {fixed : Bool}
    (htable : s.table fixed = ofRoutes registered) :
    (s.run ops).table fixed =
      ofRoutes (registered ++ (history (s.records ops)).filter (·.isFixed == fixed)) := by
  induction ops generalizing s registered with
  | nil =>
      rw [records, history, List.flatMap_nil, List.filter_nil, List.append_nil]
      exact htable
  | cons op rest ih =>
      have hstep : (s.perform op).2.table fixed = _ :=
        (s.table_perform op fixed).trans (table_foldl_ofRoutes (s.perform_admits op) htable)
      rw [run, ih hstep, List.append_assoc, ← List.filter_append]
      rfl

/-- A store lists the routes with fixed paths and then the others, path by path and expression by
expression: the paths and the expressions in the order in which each was first registered, and the
routes under each in the order of registration. The routes of each kind are in the order of
registration exactly if none of them was registered between two routes with another path or
expression in common. -/
theorem routes_are_listed_in_groups (text : String) (chunkSize : Chunk.Size) (start : RouteStore)
    (hstart : create text chunkSize = .ok start) (ops : List Operation) :
    let registered := history (start.records ops)
    let fixed := registered.filter (·.isFixed)
    let others := registered.filter (!·.isFixed)
    (start.run ops).routes = inGroups fixed ++ inGroups others ∧
    ((start.run ops).routes = fixed ++ others ↔ Unbroken fixed ∧ Unbroken others) := by
  intro registered fixed others
  have hempty : ∀ part, start.table part = ofRoutes [] := fun part => by
    obtain ⟨_, _, rfl⟩ := create_eq text chunkSize start hstart
    cases part <;> rfl
  have hfixed : (start.run ops).fixed = ofRoutes fixed := by
    have htable := table_run ops (hempty true)
    simpa [table] using htable
  have hothers : (start.run ops).patterns = ofRoutes others := by
    have htable := table_run ops (hempty false)
    simpa [table] using htable
  have hlisted : (start.run ops).routes = inGroups fixed ++ inGroups others := by
    unfold RouteStore.routes
    rw [hfixed, hothers, routes_ofRoutes, routes_ofRoutes]
  refine ⟨hlisted, ?_⟩
  rw [hlisted, ← inGroups_eq_self_iff, ← inGroups_eq_self_iff]
  constructor
  · exact fun h => List.append_inj h (inGroups_perm fixed).length_eq
  · rintro ⟨hfirst, hlast⟩
    rw [hfirst, hlast]

/-- Two paths and two patterns, one of each registered for two methods, and a registration that is
refused. The routes with the first pattern are registered before and after the other one. -/
def interleavedPlan : List Operation :=
  let handler : Output := .function (.mk "show" true false none none .arguments)
  [.add ⟨.text "GET", .text "posts/{slug}", .text "post", handler⟩,
    .add ⟨.text "GET", .text "posts", .text "posts", handler⟩,
    .addAll [⟨.text "GET", .text "tags", .text "tags", handler⟩,
      ⟨.text "GET", .text "tags/{name}", .text "tag", handler⟩],
    .add ⟨.text "POST", .text "tags", .text "new_tag", handler⟩,
    .add ⟨.text "GET", .text "posts/", .text "again", handler⟩,
    .add ⟨.text "PUT", .text "posts/{name}", .text "change", handler⟩]

theorem routes_are_listed_in_groups_for_interleaved_plan :
    let start : RouteStore := { space := "", chunkSize := .whole 10 }
    let registered := history (start.records interleavedPlan)
    let fixed := registered.filter (·.isFixed)
    let others := registered.filter (!·.isFixed)
    create "" (.whole 10) = .ok start ∧
    fixed.map (·.name) = ["posts", "tags", "new_tag"] ∧
      others.map (·.name) = ["post", "tag", "change"] ∧
    (start.run interleavedPlan).routes.map (·.name) =
      ["posts", "tags", "new_tag", "post", "change", "tag"] ∧
    (start.run interleavedPlan).routes = inGroups fixed ++ inGroups others ∧
    ((start.run interleavedPlan).routes = fixed ++ others ↔ Unbroken fixed ∧ Unbroken others) := by
  intro start registered fixed others
  have hstart : create "" (.whole 10) = .ok start := rfl
  exact ⟨hstart, by decide +kernel, by decide +kernel, by decide +kernel,
    routes_are_listed_in_groups "" (.whole 10) start hstart interleavedPlan⟩

def resumedCandidates : List Candidate :=
  let handler : Output := .function (.mk "show" true false none none .arguments)
  [⟨.text "GET", .text "a", .text "first", handler⟩,
    ⟨.text "GET", .text "b", .text "second", handler⟩,
    ⟨.text "POST", .text "a", .text "third", handler⟩]

theorem listing_can_leave_order : ¬ ∀ (text : String) (chunkSize : Chunk.Size) (start : RouteStore),
    create text chunkSize = .ok start → ∀ candidates : List Candidate,
      let ops := candidates.map Operation.add
      let registered := history (start.records ops)
      (start.run ops).routes = registered.filter (·.isFixed) ++ registered.filter (!·.isFixed) := by
  intro h
  let start : RouteStore := { space := "", chunkSize := .whole 10 }
  have hlisted := congrArg (List.map (·.name)) (h "" (.whole 10) start rfl resumedCandidates)
  revert hlisted
  decide +kernel

end RouteStore

end NamedRoutes
