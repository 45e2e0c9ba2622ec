import NamedRoutes.Proofs.Store.Reloading

/-!
Fixed paths are always reachable. The path that is built of the name of a route with a fixed path is
that path between slashes. Trimmed again it is in the namespace, and there the table of fixed paths
holds the route: no other route of its path and method was ever accepted, and no pattern is asked
before.
-/

namespace NamedRoutes

namespace Path

variable {text space path : String}

/-- The first and the last character of a namespace count. -/
theorem not_isMargin_of_parse (h : parseNamespace text = .ok space) {c : Char}
    (hc : space.toList.head? = some c ∨ space.toList.getLast? = some c) : isMargin c = false := by
  obtain ⟨hblank, hfirst, hlast, _⟩ := parseNamespace_eq_ok h
  have hmem : c ∈ space.toList := hc.elim List.mem_of_head? List.mem_of_getLast?
  have hne : c ≠ ' ' := fun heq => hblank (heq ▸ hmem)
  have hslash : c ≠ '/' := by
    rintro rfl
    exact hc.elim hfirst hlast
  simp [isMargin, hne, hslash]

theorem head?_join (space : String) {path : String} {c : Char}
    (h : (join space path).toList.head? = some c) :
    space.toList.head? = some c ∨ path.toList.head? = some c := by
  unfold join at h
  split at h
  · exact Or.inr h
  · next hspace =>
      split at h
      · exact Or.inl h
      · rw [toList_under, List.append_assoc, List.head?_append, Option.or_eq_some_iff] at h
        refine Or.inl (h.resolve_right fun hnone => hspace ?_)
        simpa using hnone.1

theorem getLast?_join (space : String) {path : String} {c : Char}
    (h : (join space path).toList.getLast? = some c) :
    space.toList.getLast? = some c ∨ path.toList.getLast? = some c := by
  unfold join at h
  split at h
  · exact Or.inr h
  · split at h
    · exact Or.inl h
    · next hpath =>
        rw [toList_under, List.getLast?_append, Option.or_eq_some_iff] at h
        refine Or.inr (h.resolve_right fun hnone => hpath ?_)
        simpa using hnone.1

/-- A trimmed path in a namespace is found between slashes. -/
theorem trim_wrap_join (h : parseNamespace text = .ok space) (htrim : trim path = path) :
    trim (wrap (join space path)) = join space path := by
  refine trim_wrap (fun c hc => ?_) fun c hc => ?_
  · rcases head?_join space hc with hspace | hpath
    · exact not_isMargin_of_parse h (Or.inl hspace)
    · rw [← htrim, trim, String.toList_ofList] at hpath
      exact Text.head?_trim hpath
  · rcases getLast?_join space hc with hspace | hpath
    · exact not_isMargin_of_parse h (Or.inr hspace)
    · rw [← htrim] at hpath
      exact isMargin_of_getLast?_trim hpath

/-- A path in a namespace starts with it. -/
theorem prefix_join (space path : String) : space.toList <+: (join space path).toList := by
  unfold join
  split
  · next hspace =>
      rw [beq_iff_eq.mp hspace]
      exact List.nil_prefix
  · split
    · exact List.prefix_refl _
    · rw [toList_under, List.append_assoc]
      exact List.prefix_append _ _

end Path

namespace RouteStore

variable {s : RouteStore} {text : String} {chunkSize : Chunk.Size} {start : RouteStore}
  {route : Route}

/-- The path of a listed route is one that was trimmed, in the namespace. -/
theorem exists_path (hstart : create text chunkSize = .ok start) (ops : List Operation)
    (h : route ∈ (start.run ops).routes) :
    ∃ path, Path.trim path = path ∧ route.path = Path.join start.space path := by
  obtain ⟨c, hdescribes⟩ := describes_of_history ops (mem_history_of_mem_routes hstart ops h)
  obtain ⟨asked, _, htarget⟩ := hdescribes.exists_text
  obtain ⟨path, htrim, _, hpath⟩ := exists_shown htarget
  exact ⟨path, htrim, hpath⟩

/-- A request for a path that a fixed route stands under is answered by that route, and changes
nothing. -/
theorem request_of_find? {method : Method} {path : String}
    (hspace : s.space.toList <+: (Path.trim path).toList)
    (hfind : s.fixed.find? (Path.trim path) method = some route) :
    s.perform (.request (.text method.name) (.text path)) =
      (⟨.found (.ok (some ⟨route, []⟩)), []⟩, s) := by
  have hmatch : s.match? (.text method.name) (.text path) =
      .ok ⟨.ok (some ⟨route, []⟩), s, []⟩ := by
    unfold match?
    rw [Method.ofValue?_name]
    simp only [Candidate.checkPath, bind, Except.bind, matchTrimmed,
      List.isPrefixOf_iff_prefix.mpr hspace, Bool.not_true, Bool.false_eq_true, if_false, hfind]
  rw [perform, hmatch]
  rfl

/-- A route with a fixed path is always reachable: whatever was done to its store, its name alone is
enough to build a path, and a request for that path with its method is answered by the route itself,
without parameters. Nothing is reported of such a request, and the store stays as it is. -/
theorem fixed_path_is_reachable (text : String) (chunkSize : Chunk.Size) (start : RouteStore)
    (hstart : create text chunkSize = .ok start) (ops : List Operation) (route : Route)
    (hroute : route ∈ (start.run ops).routes) (hfixed : route.isFixed = true) :
    let s := start.run ops
    s.buildPath route.name [] = .ok (Path.wrap route.path) ∧
      s.perform (.request (.text route.method.name) (.text (Path.wrap route.path))) =
        (⟨.found (.ok (some ⟨route, []⟩)), []⟩, s) := by
  intro s
  have hconsistent : s.Consistent := consistent_of_create hstart ops
  have htarget := Route.target_of_isFixed hfixed
  have hkey : route.path = route.key := by simp [Route.path, htarget]
  constructor
  · have hfind := (hconsistent.indexed route.name route).mpr ⟨hroute, rfl⟩
    simp [buildPath, hfind, Route.build, htarget, hkey]
  · obtain ⟨_, hcleaned, hfields⟩ := create_eq text chunkSize start hstart
    have hparse : Path.parseNamespace text = .ok start.space := by rw [hcleaned, hfields]
    obtain ⟨path, htrim, hpath⟩ := exists_path hstart ops hroute
    have hwrap : Path.trim (Path.wrap route.path) = route.path := by
      rw [hpath, Path.trim_wrap_join hparse htrim]
    have hat : route.isAt true route.key route.method = true := by simp [Route.isAt, hfixed]
    refine request_of_find? ?_ ?_
    · rw [hwrap, hpath, (start.run_settings ops).1]
      exact Path.prefix_join _ _
    · rw [hwrap, hkey]
      exact (hconsistent.filed true _ _ route).mpr ⟨hroute, hat⟩

/-- The root of a namespace and a further path, each among patterns that match it too, and a request
for which these patterns are merged before the further path comes. -/
def overlappingPlan : List Operation :=
  let handler : Output := .function (.mk "show" true false none none .arguments)
  [.add ⟨.text "GET", .text "{any:.*}?", .text "any", handler⟩,
    .add ⟨.text "GET", .text "/", .text "home", handler⟩,
    .request (.text "GET") (.text "/v/about/"),
    .addAll [⟨.text "GET", .text "about", .text "about", handler⟩,
      ⟨.text "GET", .text "{page:about|home}", .text "page", handler⟩]]

theorem fixed_path_is_reachable_for_overlapping_plan :
    let start : RouteStore := { space := "v", chunkSize := .whole 10 }
    let s := start.run overlappingPlan
    create "/v/" (.whole 10) = .ok start ∧ s.routes.map (·.name) =
      ["home", "about", "any", "page"] ∧
    ∀ name path, (name, path) ∈ [("home", "/v/"), ("about", "/v/about/")] →
      ∃ route ∈ s.routes, route.isFixed = true ∧ s.buildPath name [] = .ok path ∧
        s.perform (.request (.text "GET") (.text path)) =
          (⟨.found (.ok (some ⟨route, []⟩)), []⟩, s) := by
  intro start s
  have hcreate : create "/v/" (.whole 10) = .ok start := rfl
  have hnames : s.routes.map (·.name) = ["home", "about", "any", "page"] := by decide +kernel
  refine ⟨hcreate, hnames, fun name path hmem => ?_⟩
  have hlisted : ∀ pair ∈ [("home", "/v/"), ("about", "/v/about/")], (s.routes.any fun r =>
      r.isFixed && (r.name == pair.1 && (Path.wrap r.path == pair.2 && r.method == .get))) =
        true := by
    decide +kernel
  obtain ⟨route, hroute, hfacts⟩ := List.any_eq_true.mp (hlisted _ hmem)
  simp only [Bool.and_eq_true, beq_iff_eq] at hfacts
  obtain ⟨hfixed, rfl, rfl, hmethod⟩ := hfacts
  obtain ⟨hbuilt, hanswer⟩ :=
    fixed_path_is_reachable "/v/" (.whole 10) start hcreate overlappingPlan route
    hroute hfixed
  rw [hmethod] at hanswer
  exact ⟨route, hroute, hfixed, hbuilt, hanswer⟩

end RouteStore

end NamedRoutes
