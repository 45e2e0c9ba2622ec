import NamedRoutes.Proofs.Pattern.WholeParameters
import NamedRoutes.Proofs.Store.BuiltPath
import NamedRoutes.Proofs.Store.Rejection
import NamedRoutes.Proofs.Store.RightRoute

/-!
A matched path is rebuilt. The values that a match holds lead back to the path that was matched,
between slashes, as long as each parameter fills a whole component of its path and has no written
out expression.
-/

namespace NamedRoutes

theorem Route.target_of_isFixed {r : Route} (h : r.isFixed = true) : r.target = .fixed r.key := by
  unfold isFixed pattern? at h
  unfold key
  cases htarget : r.target with
  | fixed path => rfl
  | pattern p =>
      rw [htarget] at h
      cases h

theorem Route.of_find?_isAt {r : Route} {registered : List Route} {fixed : Bool} {key : String}
    {method : Method} (h : registered.find? (·.isAt fixed key method) = some r) :
    r ∈ registered ∧ r.isFixed = fixed ∧ r.key = key := by
  have hat := List.find?_some h
  simp only [isAt, Bool.and_eq_true, beq_iff_eq] at hat
  exact ⟨List.mem_of_find?_eq_some h, hat.1⟩

namespace LinearScan

variable {registered : List Route} {path : String} {m : RouteMatch}

/-- A match of the patterns is one of the pattern of its route. -/
theorem searchPatterns_eq_some {method : Method} (hsound : ∀ route ∈ registered, route.IsSound)
    (h : searchPatterns registered method path = .ok (some m)) :
    m.route ∈ registered ∧ m.IsRight path := by
  unfold searchPatterns at h
  cases hdecider : decider? registered path with
  | none => simp [hdecider] at h
  | some p =>
      cases hmatch : p.expression.fullMatch? path with
      | error cause => simp [hdecider, hmatch] at h
      | ok found =>
          simp only [hdecider, hmatch, Except.ok.injEq] at h
          obtain ⟨own, rfl, hresolve⟩ := Option.bind_eq_some_iff.mp h
          obtain ⟨route, hroute, rfl⟩ := Option.map_eq_some_iff.mp hresolve
          obtain ⟨hmem, hfixed, hat⟩ := Route.of_find?_isAt hroute
          obtain ⟨q, hq, hkey, hnames⟩ := Route.pattern?_of_not_isFixed hfixed
          obtain ⟨other, hother, hp⟩ := RouteStore.decider?_mem hdecider
          have hsame : q.expression = p.expression :=
            RoutePattern.expression_congr (hsound route hmem q hq) (hsound other hother p hp)
              (hkey.symm.trans hat)
          exact ⟨hmem, q, own, hq, hsame ▸ hmatch, by rw [hnames]⟩

/-- What a match stands for: the fixed path of its route, or a match of the pattern of its route. -/
theorem search_eq_some {space : String} {method : Value}
    (hsound : ∀ route ∈ registered, route.IsSound)
    (h : search space registered method path = .ok (some m)) :
    m.route ∈ registered ∧
    (m.route.target = .fixed (Path.trim path) ∨ m.IsRight (Path.trim path)) := by
  unfold search at h
  cases hknown : Method.ofValue? method with
  | none => simp [hknown] at h
  | some known =>
      simp only [hknown, searchTrimmed] at h
      split at h
      · cases h
      · cases hfixed : registered.find? (·.isAt true (Path.trim path) known) with
        | none =>
            rw [hfixed] at h
            obtain ⟨hmem, hright⟩ := searchPatterns_eq_some hsound h
            exact ⟨hmem, Or.inr hright⟩
        | some route =>
            rw [hfixed] at h
            cases h
            obtain ⟨hmem, hroute, hkey⟩ := Route.of_find?_isAt hfixed
            exact ⟨hmem, Or.inl (hkey ▸ Route.target_of_isFixed hroute)⟩

end LinearScan

namespace RouteStore

variable {s : RouteStore}

theorem mem_records {r : Record} (ops : List Operation) (h : r ∈ s.records ops) :
    ∃ (t : RouteStore) (op : Operation), t.space = s.space ∧ r = (t.perform op).1 := by
  induction ops generalizing s with
  | nil => cases h
  | cons op rest ih =>
      rcases List.mem_cons.mp h with rfl | h
      · exact ⟨s, op, rfl, rfl⟩
      · obtain ⟨t, other, hspace, hr⟩ := ih h
        exact ⟨t, other, hspace.trans (s.perform_settings op).1, hr⟩

/-- Every registered route has passed the checks of a store with the same namespace. -/
theorem exists_passes {route : Route} (ops : List Operation) (h : route ∈ history (s.records ops)) :
    ∃ (t : RouteStore) (pending : List Route) (c : Candidate),
      t.space = s.space ∧ t.Passes pending c route := by
  obtain ⟨r, hr, hroute⟩ := List.mem_flatMap.mp h
  obtain ⟨t, op, hspace, rfl⟩ := mem_records ops hr
  obtain ⟨c, _, pending, hpasses⟩ := t.passes_of_registered op route hroute
  exact ⟨t, pending, c, hspace, hpasses⟩

/-- Whatever else is done, a registered route is found by its name. -/
theorem find?_of_registered {route : Route} (ops : List Operation)
    (h : route ∈ history (s.records ops)) (op : Operation) :
    ((s.run ops).perform op).2.find? route.name = some route := by
  have hnone : s.Indexes [] := List.forall_mem_nil _
  have hindexes := hnone.run (ops ++ [op])
  rw [run_append, records_append, history, List.flatMap_append, List.nil_append] at hindexes
  exact hindexes route (List.mem_append_left _ h)

/-- The path of a registered route is built of what its pattern has found in the path. -/
theorem Passes.build_found {pending : List Route} {c : Candidate} {route : Route} {p : RoutePattern}
    (h : s.Passes pending c route) (hp : route.pattern? = some p) {space : String}
    (hspace : Path.parseNamespace space = .ok s.space) (hstock : ∀ q ∈ p.parameters, ¬ q.IsCustom)
    (hwhole : p.HasWholeParameters) {path : String} {found : Matched}
    (hmatch : p.expression.fullMatch? (Path.trim path) = .ok (some found)) :
    route.build (route.parameterNames.map fun name =>
        ((found.parameters 0 p.names).lookup name).map Value.text) =
        .ok (Path.wrap (Path.trim path)) := by
  obtain ⟨_, t, hassembled, hproper⟩ := h.assembled hp hspace
  obtain ⟨d, hfill, hpath⟩ := hassembled.fill_found hproper hwhole
    (RoutePattern.allStock_of_parameters hstock) (Path.getLast?_trim path) hmatch route.name
  obtain ⟨_, _, hnames⟩ := Route.key_of_pattern? hp
  rw [hnames]
  exact (Route.build_eq_ok hp).mpr ⟨d, hfill, congrArg Path.wrap hpath.symm⟩

/-- A matched path is rebuilt: the name of the route and the values that are found lead back to the
path between slashes, in a store whose placeholders have no written out expressions and fill whole
components of their paths. -/
theorem matched_path_is_rebuilt (space : String) (chunkSize : Chunk.Size) (start : RouteStore)
    (hstart : create space chunkSize = .ok start) (hsize : chunkSize.IsOrdinary)
    (ops : List Operation) (hstock : ∀ p ∈ (history (start.records ops)).filterMap Route.pattern?,
      ∀ q ∈ p.parameters, ¬ q.IsCustom)
    (hwhole : ∀ p ∈ (history (start.records ops)).filterMap Route.pattern?, p.HasWholeParameters)
    (method : Value) (path : String) (m : RouteMatch)
    (hfound : ((start.run ops).perform (.request method (.text path))).1.answer =
      .found (.ok (some m))) :
    ((start.run ops).perform (.request method (.text path))).2.buildPath m.route.name
        (m.route.parameterNames.map fun name => (m.parameters.lookup name).map Value.text) =
      .ok (Path.wrap (Path.trim path)) := by
  have hself : SelfContained (history (start.records ops)) := fun p hp q hq hcustom =>
    absurd hcustom (hstock p hp q hq)
  rw [answer_refines hstart hsize ops hself] at hfound
  have hmirrors := mirrors_of_create hstart ops
  obtain ⟨hmem, hstands⟩ := LinearScan.search_eq_some hmirrors.sound (Answer.found.inj hfound)
  obtain ⟨cleaned, hcleaned, hfields⟩ := create_eq space chunkSize start hstart
  have hspace : Path.parseNamespace space = .ok start.space := by rw [hcleaned, hfields]
  have hfind : ((start.run ops).perform (.request method (.text path))).2.find? m.route.name =
      some m.route := find?_of_registered ops hmem _
  have hbuild : m.route.build (m.route.parameterNames.map fun name =>
      (m.parameters.lookup name).map Value.text) = .ok (Path.wrap (Path.trim path)) := by
    rcases hstands with hfixed | ⟨p, own, hp, hmatch, hparameters⟩
    · simp [Route.build, Route.parameterNames, Route.pattern?, hfixed]
    · obtain ⟨t, pending, c, hsame, hpasses⟩ := exists_passes ops hmem
      have hpattern := List.mem_filterMap.mpr ⟨m.route, hmem, hp⟩
      rw [hparameters]
      exact hpasses.build_found hp (hsame ▸ hspace) (hstock p hpattern) (hwhole p hpattern) hmatch
  unfold buildPath
  rw [hfind]
  exact hbuild

/-- Posts and an archive, with optional parameters at the start, in a row and at the end, and a
request in between. -/
def archivePlan : List Operation :=
  let handler : Output := .function (.mk "show" true false none none .arguments)
  [.add ⟨.text "GET", .text "/{lang:a}?/posts/", .text "posts", handler⟩,
    .request (.text "GET") (.text "/v/posts/"),
    .addAll [⟨.text "GET", .text "/about/", .text "about", handler⟩,
      ⟨.text "POST", .text "archive/{year:i}/{month:i}?/{title}?", .text "archive", handler⟩]]

theorem matched_path_is_rebuilt_for_archive :
    let start : RouteStore := { space := "v", chunkSize := .whole 1 }
    let registered := history (start.records archivePlan)
    create "/v/" (.whole 1) = .ok start ∧ (Chunk.Size.whole 1).IsOrdinary ∧
    (∀ p ∈ registered.filterMap Route.pattern?, ∀ q ∈ p.parameters, ¬ q.IsCustom) ∧
    (∀ p ∈ registered.filterMap Route.pattern?, p.HasWholeParameters) ∧
    ∃ m,
      ((start.run archivePlan).perform
        (.request (.text "POST") (.text "v/archive/1999/may "))).1.answer =
        .found (.ok (some m)) ∧
      m.parameters = [("year", "1999"), ("title", "may")] ∧
      ((start.run archivePlan).perform
          (.request (.text "POST") (.text "v/archive/1999/may "))).2.buildPath m.route.name
        (m.route.parameterNames.map fun name => (m.parameters.lookup name).map Value.text) =
          .ok "/v/archive/1999/may/" := by
  intro start registered
  have hcreate : create "/v/" (.whole 1) = .ok start := rfl
  have hsize : (Chunk.Size.whole 1).IsOrdinary := .whole (by decide) (by decide +kernel)
  have hpatterns : ∀ p ∈ registered.filterMap Route.pattern?,
      (∀ q ∈ p.parameters, ¬ q.IsCustom) ∧ p.HasWholeParameters := by decide +kernel
  have hstock := fun p hp => (hpatterns p hp).1
  have hwhole := fun p hp => (hpatterns p hp).2
  have hmatch : (((start.run archivePlan).perform
      (.request (.text "POST") (.text "v/archive/1999/may "))).1.answer.match?.any fun m =>
        decide (m.parameters = [("year", "1999"), ("title", "may")])) = true := by
    decide +kernel
  obtain ⟨m, hm, hparameters⟩ := (Option.any_eq_true _ _).mp hmatch
  have hrebuilt := matched_path_is_rebuilt "/v/" (.whole 1) start hcreate hsize
    archivePlan hstock hwhole
    (.text "POST") "v/archive/1999/may " m (Answer.eq_found hm)
  have hpath : Path.wrap (Path.trim "v/archive/1999/may ") = "/v/archive/1999/may/" := by
    decide +kernel
  rw [hpath] at hrebuilt
  exact ⟨hcreate, hsize, hstock, hwhole, m, Answer.eq_found hm,
    of_decide_eq_true hparameters, hrebuilt⟩

end RouteStore

end NamedRoutes
