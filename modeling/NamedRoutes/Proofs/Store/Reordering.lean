import NamedRoutes.PathBuilder
import NamedRoutes.Proofs.Store.Admission
import NamedRoutes.Proofs.Store.RightRoute

/-!
The order of registrations. Fixed paths and names are only looked up, and patterns are tried in
turn. So registrations that are made in another order are accepted all the same, and nobody can tell
the order from an answer, as long as the patterns among them come in the same order.
-/

namespace NamedRoutes

def Candidate.hasPattern (c : Candidate) : Bool :=
  match c.path with
  | .text path => !Path.isStatic (Path.trim path)
  | _ => false

namespace RouteStore

/-- Whether two stores have the same patterns in the same order and find the same routes. -/
structure Resembles (t s : RouteStore) : Prop where
  space : t.space = s.space
  chunkSize : t.chunkSize = s.chunkSize
  patterns : t.patterns = s.patterns
  fixed : ∀ key method, t.fixed.find? key method = s.fixed.find? key method
  names : ∀ name, t.find? name = s.find? name

variable {s t : RouteStore} {c : Candidate} {route : Route}

theorem Resembles.prepare (h : t.Resembles s) (pending : List Route) (c : Candidate) :
    t.prepare pending c = s.prepare pending c := by
  have htarget : t.target = s.target := target_congr h.space
  have hcontains : ∀ name, t.contains name = s.contains name := fun name =>
    congrArg Option.isSome (h.names name)
  have hclashes : ∀ route, t.clashes route = s.clashes route := fun route => by
    rw [clashes_eq, clashes_eq]
    unfold table
    cases route.isFixed with
    | true => exact congrArg Option.isSome (h.fixed route.key route.method)
    | false => exact congrArg (fun table => (RouteTable.find? table _ _).isSome) h.patterns
  unfold RouteStore.prepare
  simp only [htarget, hcontains, hclashes]

theorem Resembles.prepareAll (h : t.Resembles s) (pending : List Route) (cs : List Candidate) :
    t.prepareAll pending cs = s.prepareAll pending cs :=
  prepareAll_congr h.prepare cs pending

theorem Resembles.freshMatcher (h : t.Resembles s) : t.freshMatcher = s.freshMatcher := by
  unfold RouteStore.freshMatcher
  rw [h.patterns, h.chunkSize]

theorem Resembles.freshAnswer (h : t.Resembles s) (method path : Value) :
    t.freshAnswer method path = s.freshAnswer method path := by
  have htrimmed : ∀ known, t.freshTrimmed known = s.freshTrimmed known := fun known => by
    funext text
    unfold freshTrimmed
    rw [h.space, h.fixed, h.freshMatcher]
  unfold RouteStore.freshAnswer
  simp only [htrimmed]

theorem Resembles.bareAnswer (h : t.Resembles s) (op : Operation) :
    t.bareAnswer op = s.bareAnswer op := by
  cases op with
  | add c => exact congrArg Answer.added (h.prepare [] c)
  | addAll cs => exact congrArg Answer.addedAll (h.prepareAll [] cs)
  | request method path => exact congrArg Answer.found (h.freshAnswer method path)
  | sources => exact congrArg (fun m => Answer.sources (Except.map _ m)) h.freshMatcher

theorem Resembles.insert (h : t.Resembles s) (route : Route) :
    (t.insert route).Resembles (s.insert route) := by
  obtain ⟨hspace, hsize⟩ := insert_settings t route
  obtain ⟨hspace', hsize'⟩ := insert_settings s route
  refine ⟨by rw [hspace, hspace', h.space], by rw [hsize, hsize', h.chunkSize], ?_, ?_, ?_⟩
  · change (t.insert route).table false = (s.insert route).table false
    rw [table_insert, table_insert]
    unfold table
    simp only [h.patterns, Bool.false_eq_true, if_false]
  · intro key method
    have hfixed := h.fixed key method
    change (t.table true).find? key method = (s.table true).find? key method at hfixed
    change ((t.insert route).table true).find? key method =
      ((s.insert route).table true).find? key method
    rw [find?_insert, find?_insert, hfixed]
  · intro name
    rw [find?_insert_name, find?_insert_name, h.names]

theorem Resembles.foldl (h : t.Resembles s) (routes : List Route) :
    (routes.foldl RouteStore.insert t).Resembles (routes.foldl RouteStore.insert s) := by
  induction routes generalizing s t with
  | nil => exact h
  | cons route rest ih => exact ih (h.insert route)

/-- The matchers have no part in it. -/
theorem Resembles.of_bare {s' t' : RouteStore} (h : t.Resembles s) (hs : s'.bare = s.bare)
    (ht : t'.bare = t.bare) : t'.Resembles s' := by
  obtain ⟨space, size, fixed, patterns, names, matcher, stale⟩ := s'
  obtain ⟨space', size', fixed', patterns', names', matcher', stale'⟩ := t'
  obtain ⟨rfl, rfl, rfl, rfl, rfl⟩ : space = s.space ∧ size = s.chunkSize ∧ fixed = s.fixed ∧
      patterns = s.patterns ∧ names = s.names := by
    simpa [bare] using hs
  obtain ⟨rfl, rfl, rfl, rfl, rfl⟩ : space' = t.space ∧ size' = t.chunkSize ∧ fixed' = t.fixed ∧
      patterns' = t.patterns ∧ names' = t.names := by
    simpa [bare] using ht
  exact ⟨h.space, h.chunkSize, h.patterns, h.fixed, h.names⟩

/-- An operation is answered alike, and leaves stores that resemble each other. -/
theorem Resembles.perform (h : t.Resembles s) (ht : t.Current) (hs : s.Current) (op : Operation) :
    (t.perform op).1.answer = (s.perform op).1.answer ∧
    (t.perform op).2.Resembles (s.perform op).2 := by
  have hanswer : (t.perform op).1.answer = (s.perform op).1.answer := by
    rw [perform_answer t ht, perform_answer s hs, h.bareAnswer]
  refine ⟨hanswer, ?_⟩
  have hregistered : (t.perform op).1.registered = (s.perform op).1.registered := by
    unfold Record.registered
    rw [hanswer]
  refine (h.foldl (s.perform op).1.registered).of_bare (effect_bare s _ _ (perform_effect s op)) ?_
  rw [← hregistered]
  exact effect_bare t _ _ (perform_effect t op)

/-- So it is for a whole run. -/
theorem Resembles.records (h : t.Resembles s) (ht : t.Current) (hs : s.Current)
    (ops : List Operation) :
    (t.records ops).map (·.answer) = (s.records ops).map (·.answer) := by
  induction ops generalizing s t with
  | nil => rfl
  | cons op rest ih =>
      obtain ⟨hanswer, hnext⟩ := h.perform ht hs op
      simp only [RouteStore.records, List.map_cons, hanswer,
        ih hnext (perform_current t op ht) (perform_current s op hs)]

theorem isFixed_of_target {path : String} (h : s.target path = .ok route.target) :
    route.isFixed = Path.isStatic path := by
  unfold Route.isFixed Route.pattern?
  rcases target_eq_ok h with ⟨hstatic, _, htarget⟩ | ⟨p, hstatic, _, htarget⟩
  · rw [htarget, hstatic]
    rfl
  · rw [htarget, hstatic]
    rfl

/-- A route has a pattern if that is what its candidate asks for. -/
theorem Describes.hasPattern (h : s.Describes c route) : c.hasPattern = !route.isFixed := by
  obtain ⟨path, hpath, htarget⟩ := h.exists_text
  unfold Candidate.hasPattern
  rw [hpath, isFixed_of_target htarget]

theorem mem_routes_foldl {routes : List Route} (h : s.Admits routes) (r : Route) :
    r ∈ (routes.foldl insert s).routes ↔ r ∈ s.routes ∨ r ∈ routes := by
  induction routes generalizing s with
  | nil => simp
  | cons route rest ih =>
      have hfresh := h.fresh route List.mem_cons_self
      rw [List.foldl_cons, ih h.tail, mem_routes_insert hfresh, List.mem_cons, or_assoc]

/-- Routes in another order lead to the same lookups, and to the same patterns if those are in
order. -/
theorem resembles_of_perm {first second : List Route} (hperm : first.Perm second)
    (hpatterns : first.filter (!·.isFixed) = second.filter (!·.isFixed))
    (hadmits : s.Admits first) (hadmits' : s.Admits second)
    (hfirst : (first.foldl insert s).Consistent) (hsecond : (second.foldl insert s).Consistent) :
    (second.foldl insert s).Resembles (first.foldl insert s) := by
  have hsame : ∀ r, r ∈ (second.foldl insert s).routes ↔
      r ∈ (first.foldl insert s).routes := fun r => by
    rw [mem_routes_foldl hadmits, mem_routes_foldl hadmits', hperm.mem_iff]
  obtain ⟨hspace, hsize⟩ := foldl_insert_settings s first
  obtain ⟨hspace', hsize'⟩ := foldl_insert_settings s second
  refine ⟨hspace'.trans hspace.symm, hsize'.trans hsize.symm, ?_, ?_, ?_⟩
  · change (second.foldl insert s).table false = (first.foldl insert s).table false
    simp only [table_foldl_insert, beq_false, hpatterns]
  · intro key method
    refine Option.ext fun r => ?_
    exact (hsecond.filed true key method r).trans
      ((and_congr_left fun _ => hsame r).trans (hfirst.filed true key method r).symm)
  · intro name
    refine Option.ext fun r => ?_
    exact (hsecond.indexed name r).trans
      ((and_congr_left fun _ => hsame r).trans (hfirst.indexed name r).symm)

/-- Results that are all routes are those routes. -/
theorem eq_map_ok {results : List (Except Error Route)}
    (h : ∀ r ∈ results, ∃ route, r = .ok route) :
    results = (results.filterMap Except.toOption).map .ok := by
  induction results with
  | nil => rfl
  | cons r rest ih =>
      obtain ⟨⟨route, rfl⟩, hrest⟩ := List.forall_mem_cons.mp h
      rw [List.filterMap_cons_some (show Except.toOption (Except.ok route) = some route from rfl),
        List.map_cons, ← ih hrest]

/-- The routes with patterns come from the candidates that ask for some. -/
theorem filter_accepted (s : RouteStore) (cs : List Candidate) :
    ((cs.map (s.prepare [])).filterMap Except.toOption).filter (!·.isFixed) =
      ((cs.filter Candidate.hasPattern).map (s.prepare [])).filterMap Except.toOption := by
  rw [List.filterMap_map, List.filterMap_map, List.filter_filterMap, List.filterMap_filter]
  congr 1
  funext c
  cases hprepare : s.prepare [] c with
  | error e => simp [hprepare, Except.toOption]
  | ok route =>
      have hroute := (prepare_eq_ok_iff.mp hprepare).1.hasPattern
      simp [hprepare, Except.toOption, hroute, Option.filter]

/-- Candidates that are all accepted by themselves, in another order: so are their routes. -/
theorem exists_reordered {first second : List Candidate} (hperm : first.Perm second)
    (hpatterns : first.filter Candidate.hasPattern = second.filter Candidate.hasPattern)
    {routes : List Route} (h : first.map (s.prepare []) = routes.map .ok) :
    ∃ reordered, second.map (s.prepare []) = reordered.map .ok ∧ routes.Perm reordered ∧
      routes.filter (!·.isFixed) = reordered.filter (!·.isFixed) := by
  have hresults := hperm.map (s.prepare [])
  have hroutes : routes = (first.map (s.prepare [])).filterMap Except.toOption := by
    rw [h, List.filterMap_map]
    exact List.filterMap_some.symm
  refine ⟨(second.map (s.prepare [])).filterMap Except.toOption, eq_map_ok fun r hr => ?_, ?_, ?_⟩
  · rw [← hresults.mem_iff, h] at hr
    obtain ⟨route, _, hroute⟩ := List.mem_map.mp hr
    exact ⟨route, hroute.symm⟩
  · rw [hroutes]
    exact hresults.filterMap _
  · rw [hroutes, filter_accepted, filter_accepted, hpatterns]

/-- Candidates that are all accepted one after the other are accepted in every order that keeps that
of the patterns, and whoever uses the store sees no difference. -/
theorem reordered {first second : List Candidate} (hspace : '(' ∉ s.space.toList)
    (hperm : first.Perm second)
    (hpatterns : first.filter Candidate.hasPattern = second.filter Candidate.hasPattern)
    (haccepted : ∀ r ∈ s.records (first.map .add), r.answer.rejection? = none)
    (hconsistent : ∀ ops, (s.run ops).Consistent) :
    (∀ r ∈ s.records (second.map .add), r.answer.rejection? = none) ∧
      (s.run (second.map .add)).Resembles (s.run (first.map .add)) := by
  have hall := (prepareAll_eq_ok_iff_adds hspace first).mpr ⟨haccepted, rfl⟩
  obtain ⟨routes, hroutes, hmap, _, hpairs⟩ := (prepareAll_eq_ok_iff first).mp hall
  rw [List.nil_append] at hroutes
  obtain ⟨others, hothers, hsame, hfilter⟩ := exists_reordered hperm hpatterns hmap
  have hall' : s.prepareAll [] second = .ok others :=
    (prepareAll_eq_ok_iff second).mpr ⟨others, rfl, hothers, fun _ hq => (nomatch hq),
      (hsame.pairwise_iff fun h => h.symm).mp hpairs⟩
  obtain ⟨haccepted', hhistory⟩ := (prepareAll_eq_ok_iff_adds hspace second).mp hall'
  have hrun : s.run (first.map .add) = routes.foldl insert s := by
    rw [(run_adds s first).1, hroutes]
  have hrun' : s.run (second.map .add) = others.foldl insert s := by
    rw [(run_adds s second).1, hhistory]
  refine ⟨haccepted', ?_⟩
  rw [hrun, hrun']
  refine resembles_of_perm hsame hfilter ?_ ?_ (hrun ▸ hconsistent _) (hrun' ▸ hconsistent _)
  · exact admits_of_prepareAll first (.nil s) (hroutes ▸ hall)
  · exact admits_of_prepareAll second (.nil s) hall'

/-- Only the order of the patterns matters. Registrations that are all accepted are accepted in
every other order too that leaves the patterns among them in theirs. The stores then answer every
request alike, find the same routes and build the same paths, and give the same answers to whatever
is asked of them from then on. -/
theorem only_order_of_patterns_matters (space : String) (chunkSize : Chunk.Size)
    (start : RouteStore) (hstart : create space chunkSize = .ok start) (before : List Operation)
    (first second : List Candidate) (hperm : first.Perm second)
    (hpatterns : first.filter Candidate.hasPattern = second.filter Candidate.hasPattern)
    (haccepted : ∀ r ∈ (start.run before).records (first.map .add), r.answer.rejection? = none) :
    let s := (start.run before).run (first.map .add)
    let t := (start.run before).run (second.map .add)
    (∀ r ∈ (start.run before).records (second.map .add), r.answer.rejection? = none) ∧
    (∀ method path : Value, (t.perform (.request method path)).1.answer =
      (s.perform (.request method path)).1.answer) ∧
    (∀ name, t.find? name = s.find? name ∧
      ∀ values, t.buildPath name values = s.buildPath name values) ∧
    ∀ ops, (t.records ops).map (·.answer) = (s.records ops).map (·.answer) := by
  intro s t
  have hspace : '(' ∉ (start.run before).space.toList := by
    intro hmem
    obtain ⟨cleaned, hcleaned, rfl⟩ := create_eq space chunkSize start hstart
    rw [(run_settings _ before).1] at hmem
    cases Path.isNamespaceChar_of_parse hcleaned hmem
  have hconsistent : ∀ ops, ((start.run before).run ops).Consistent := fun ops => by
    rw [← run_append]
    exact consistent_of_create hstart (before ++ ops)
  have hcurrent : ∀ ops, ((start.run before).run ops).Current := fun ops => by
    rw [← run_append]
    exact run_current space chunkSize start hstart (before ++ ops)
  obtain ⟨haccepted', hresembles⟩ := reordered hspace hperm hpatterns haccepted hconsistent
  refine ⟨haccepted', fun method path => ?_,
    fun name => ⟨hresembles.names name, fun values => ?_⟩, ?_⟩
  · exact (hresembles.perform (hcurrent _) (hcurrent _) (.request method path)).1
  · unfold buildPath
    rw [hresembles.names]
  · exact hresembles.records (hcurrent _) (hcurrent _)

/-- A fixed path for two methods, a pattern that another one comes before and that the fixed path
hides for one of the methods, and a custom expression. -/
def shadowedPlan : List Candidate :=
  let handler : Output := .function (.mk "show" true false none none .arguments)
  [⟨.text "GET", .text "u/me", .text "me", handler⟩,
    ⟨.text "GET", .text "u/{word:[a-m]+}", .text "early", handler⟩,
    ⟨.text "POST", .text "/u/me/", .text "enter", handler⟩,
    ⟨.text "GET", .text "u/{any}", .text "user", handler⟩,
    ⟨.text "PUT", .text "u/{name}", .text "change", handler⟩]

/-- The patterns come first, and then the fixed paths from the last to the first. -/
def patternsFirst (plan : List Candidate) : List Candidate :=
  plan.filter Candidate.hasPattern ++ (plan.filter (!·.hasPattern)).reverse

theorem patternsFirst_perm (plan : List Candidate) : plan.Perm (patternsFirst plan) :=
  (List.filter_append_perm Candidate.hasPattern plan).symm.trans
    ((List.reverse_perm _).symm.append_left _)

theorem filter_patternsFirst (plan : List Candidate) :
    (patternsFirst plan).filter Candidate.hasPattern = plan.filter Candidate.hasPattern := by
  unfold patternsFirst
  simp [List.filter_filter]

theorem only_order_of_patterns_matters_for_shadowed_plan :
    let start : RouteStore := { space := "api", chunkSize := .whole 2 }
    let s := start.run (shadowedPlan.map .add)
    let t := start.run ((patternsFirst shadowedPlan).map .add)
    create "/api/" (.whole 2) = .ok start ∧ shadowedPlan.Perm (patternsFirst shadowedPlan) ∧
    shadowedPlan.filter Candidate.hasPattern =
      (patternsFirst shadowedPlan).filter Candidate.hasPattern ∧
    (∀ r ∈ start.records (shadowedPlan.map .add), r.answer.rejection? = none) ∧
    s.routes.map (·.name) = ["me", "enter", "early", "user", "change"] ∧
    t.routes.map (·.name) = ["enter", "me", "early", "user", "change"] ∧
    (∀ r ∈ start.records ((patternsFirst shadowedPlan).map .add), r.answer.rejection? = none) ∧
    (s.perform (.request (.text "GET") (.text "/api/u/me"))).1.answer.match?.map (·.route.name) =
      some "me" ∧
    (t.perform (.request (.text "GET") (.text "/api/u/me"))).1.answer =
      (s.perform (.request (.text "GET") (.text "/api/u/me"))).1.answer ∧
    t.find? "me" = s.find? "me" ∧
    t.buildPath "user" [some (.int 7)] = s.buildPath "user" [some (.int 7)] := by
  intro start s t
  have hstart : create "/api/" (.whole 2) = .ok start := rfl
  have hfacts : (start.records (shadowedPlan.map .add)).all (·.answer.rejection?.isNone) = true ∧
      s.routes.map (·.name) = ["me", "enter", "early", "user", "change"] ∧
      t.routes.map (·.name) = ["enter", "me", "early", "user", "change"] ∧
      (s.perform (.request (.text "GET") (.text "/api/u/me"))).1.answer.match?.map (·.route.name) =
        some "me" := by decide +kernel
  obtain ⟨hnone, hroutes, hroutes', hfound⟩ := hfacts
  have haccepted : ∀ r ∈ start.records (shadowedPlan.map .add), r.answer.rejection? =
      none := fun r hr =>
    Option.isNone_iff_eq_none.mp (List.all_eq_true.mp hnone r hr)
  have hsame :
      (∀ r ∈ start.records ((patternsFirst shadowedPlan).map .add), r.answer.rejection? = none) ∧
      (∀ method path : Value, (t.perform (.request method path)).1.answer =
        (s.perform (.request method path)).1.answer) ∧
      (∀ name, t.find? name = s.find? name ∧
        ∀ values, t.buildPath name values = s.buildPath name values) ∧
      ∀ ops, (t.records ops).map (·.answer) = (s.records ops).map (·.answer) :=
    only_order_of_patterns_matters "/api/" (.whole 2) start hstart [] shadowedPlan
      (patternsFirst shadowedPlan) (patternsFirst_perm _) (filter_patternsFirst _).symm haccepted
  obtain ⟨haccepted', hanswers, hnames, _⟩ := hsame
  exact ⟨hstart, patternsFirst_perm _, (filter_patternsFirst _).symm, haccepted, hroutes, hroutes',
    haccepted', hfound, hanswers _ _, (hnames _).1, (hnames _).2 _⟩

end RouteStore

end NamedRoutes
