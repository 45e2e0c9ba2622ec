import NamedRoutes.Proofs.Pattern.GivenValues
import NamedRoutes.Proofs.Store.Reloading

/-!
Binding is exact when every value is given. In a store with a single route, whose parameters fill
whole components and have no written out expressions, the path that is built of a value for each
parameter leads back to the route and to these values.
-/

namespace NamedRoutes.RouteStore

variable {s t : RouteStore} {text : String} {chunkSize : Chunk.Size} {start : RouteStore}
  {route : Route} {p : RoutePattern}

theorem routes_of_bare (hbare : t.bare = s.bare) : t.routes = s.routes := by
  change t.bare.routes = s.bare.routes
  rw [hbare]

theorem routes_foldl {routes : List Route} (h : s.Admits routes) :
    (routes.foldl insert s).routes.Perm (s.routes ++ routes) := by
  induction routes generalizing s with
  | nil => simp
  | cons route rest ih =>
      have hinserted := (routes_insert (h.fresh route List.mem_cons_self)).append_right rest
      rw [List.append_assoc] at hinserted
      exact (ih h.tail).trans hinserted

/-- An operation lists what it registers besides the routes that were listed before. -/
theorem routes_perform (s : RouteStore) (op : Operation) :
    (s.perform op).2.routes.Perm (s.routes ++ (s.perform op).1.registered) := by
  rw [routes_of_bare (effect_bare s _ _ (s.perform_effect op))]
  exact routes_foldl (s.perform_admits op)

/-- The listed routes are those that were ever registered. -/
theorem routes_run (s : RouteStore) (ops : List Operation) :
    (s.run ops).routes.Perm (s.routes ++ history (s.records ops)) := by
  induction ops generalizing s with
  | nil => simp [records, history, run]
  | cons op rest ih =>
      have hstep := (s.routes_perform op).append_right (history ((s.perform op).2.records rest))
      rw [List.append_assoc] at hstep
      exact (ih (s.perform op).2).trans hstep

/-- A store that lists a single route has registered no other. -/
theorem history_of_single (hstart : create text chunkSize = .ok start) {ops : List Operation}
    (h : (start.run ops).routes = [route]) : history (start.records ops) = [route] := by
  have hempty : start.routes = [] := by
    obtain ⟨_, _, rfl⟩ := create_eq text chunkSize start hstart
    rfl
  have hperm := start.routes_run ops
  rw [h, hempty, List.nil_append] at hperm
  exact List.perm_singleton.mp hperm.symm

/-- The only route of a store answers what its pattern matches, if it has no written out expression.
-/
theorem answer_single (hstart : create text chunkSize = .ok start) (hsize : chunkSize.IsOrdinary)
    {ops : List Operation} (hroutes : (start.run ops).routes = [route])
    (hp : route.pattern? = some p) (hstock : ∀ q ∈ p.parameters, ¬ q.IsCustom) {path : String}
    (hspace : start.space.toList <+: (Path.trim path).toList) {m : Matched}
    (hmatch : p.expression.fullMatch? (Path.trim path) = .ok (some m)) :
    ((start.run ops).perform (.request (.text route.method.name) (.text path))).1.answer =
      .found (.ok (some ⟨route, m.parameters 0 route.parameterNames⟩)) := by
  have hhistory := history_of_single hstart hroutes
  have hself : SelfContained (history (start.records ops)) := by
    rw [hhistory]
    intro q hq parameter hparameter hcustom
    obtain rfl : q = p := by simpa [hp] using hq
    exact absurd hcustom (hstock parameter hparameter)
  have hmethod := Method.ofValue?_name route.method
  rw [answer_refines hstart hsize ops hself, hhistory,
    LinearScan.search_only hp hmethod hspace hmatch]

/-- Binding is exact when every value is given: if a store has a single route, whose parameters fill
whole components and have no written out expressions, then the path that is built of as many values
as there are parameters is answered by the route, with the text of each value under the name of its
parameter. The path must not start or end with a blank between its slashes. -/
theorem given_values_are_bound (text : String) (chunkSize : Chunk.Size) (start : RouteStore)
    (hstart : create text chunkSize = .ok start) (hsize : chunkSize.IsOrdinary)
    (ops : List Operation) (route : Route) (hroutes : (start.run ops).routes = [route])
    (p : RoutePattern) (hp : route.pattern? = some p) (hstock : ∀ q ∈ p.parameters, ¬ q.IsCustom)
    (hwhole : p.HasWholeParameters) (values : List Value)
    (hcount : values.length = p.parameters.length) (built : String)
    (hbuilt : (start.run ops).buildPath route.name (values.map some) = .ok built)
    (hfirst : (Text.trim (· == '/') built.toList).head? ≠ some ' ')
    (hlast : (Text.trim (· == '/') built.toList).getLast? ≠ some ' ') :
    ((start.run ops).perform (.request (.text route.method.name) (.text built))).1.answer =
      .found (.ok (some ⟨route, (p.parameters.map (·.name)).zip (values.map Value.display)⟩)) := by
  have hmem : route ∈ (start.run ops).routes := by rw [hroutes]; exact List.mem_singleton_self _
  have hfind := ((consistent_of_create hstart ops).indexed route.name route).mpr ⟨hmem, rfl⟩
  have hregistered := List.mem_filterMap.mpr ⟨route, mem_history_of_mem_routes hstart ops hmem, hp⟩
  obtain ⟨_, t, hassembled, hproper, _⟩ := assembled_of_registered hstart hregistered
  have hbuild : route.build (values.map some) = .ok built := by
    simpa [buildPath, hfind] using hbuilt
  obtain ⟨d, hfill, rfl⟩ := (Route.build_eq_ok hp).mp hbuild
  obtain ⟨hhead, hend, hspace, m, hmatch, hbound⟩ := hassembled.bound_exactly hproper hwhole
    (RoutePattern.allStock_of_parameters hstock) hcount hfill
  have hslashes : Text.trim (· == '/') (Path.wrap d.path).toList = d.path.toList :=
    Path.trim_toList_wrap rfl (fun c hc => beq_false_of_ne fun heq => hhead (heq ▸ hc))
      fun c hc => beq_false_of_ne fun heq => hend (heq ▸ hc)
  rw [hslashes] at hfirst hlast
  have hmargin : ∀ c : Char, c ≠ ' ' → c ≠ '/' → Path.isMargin c = false :=
    fun c hblank hslash => by
    simp [Path.isMargin, hblank, hslash]
  have htrim : Path.trim (Path.wrap d.path) = d.path :=
    Path.trim_wrap
      (fun c hc => hmargin c (fun heq => hfirst (heq ▸ hc)) fun heq => hhead (heq ▸ hc))
      fun c hc => hmargin c (fun heq => hlast (heq ▸ hc)) fun heq => hend (heq ▸ hc)
  obtain ⟨_, _, hnames⟩ := Route.key_of_pattern? hp
  rw [answer_single hstart hsize hroutes hp hstock (by rw [htrim]; exact hspace)
    (by rw [htrim]; exact hmatch), hnames, hbound, hassembled.parameterNames]

/-- Notes by their author and their kind, and perhaps of some year. Blanks and signs can be part of
what is given. -/
def notePlan : List Operation :=
  let handler : Output := .function (.mk "show" true false none none .arguments)
  [.request (.text "GET") (.text "/notes/"),
    .add ⟨.text "GET", .text "/{year:i}?/{author}/notes/{kind:s}?/{page:a}?/",
      .text "notes", handler⟩,
    .add ⟨.text "GET", .text "notes//old", .text "broken", handler⟩]

def noteStart : RouteStore := { space := "v", chunkSize := .whole 10 }

def noteValues : List Value := [.int 1999, .text "Zoë B. (?)", .text "long-form.v2", .text "i"]

theorem given_values_are_bound_for_notes :
    create "/v/" (.whole 10) = .ok noteStart ∧ (Chunk.Size.whole 10).IsOrdinary ∧
    ∃ route p, (noteStart.run notePlan).routes = [route] ∧ route.pattern? = some p ∧
      (∀ q ∈ p.parameters, ¬ q.IsCustom) ∧ p.HasWholeParameters ∧
      noteValues.length = p.parameters.length ∧
      (noteStart.run notePlan).buildPath route.name (noteValues.map some) =
        .ok "/v/1999/Zoë B. (?)/notes/long-form.v2/i/" ∧
      ((noteStart.run notePlan).perform
          (.request (.text "GET") (.text "/v/1999/Zoë B. (?)/notes/long-form.v2/i/"))).1.answer =
        .found
          (.ok (some ⟨route, [("year", "1999"), ("author", "Zoë B. (?)"), ("kind", "long-form.v2"),
          ("page", "i")]⟩)) := by
  have hcreate : create "/v/" (.whole 10) = .ok noteStart := rfl
  have hsize : (Chunk.Size.whole 10).IsOrdinary := .whole (by decide) (by decide +kernel)
  have hsingle : (noteStart.run notePlan).routes.length = 1 := by decide +kernel
  obtain ⟨route, hroutes⟩ := List.length_eq_one_iff.mp hsingle
  have hlisted : ((noteStart.run notePlan).routes.all fun r => r.method == .get &&
      ((noteStart.run notePlan).buildPath r.name (noteValues.map some)).toOption ==
        some "/v/1999/Zoë B. (?)/notes/long-form.v2/i/" && r.pattern?.any fun p =>
      decide ((∀ q ∈ p.parameters, ¬ q.IsCustom) ∧ p.HasWholeParameters ∧
        p.parameters.map (·.name) = ["year", "author", "kind", "page"])) = true := by
    decide +kernel
  have hroute := List.all_eq_true.mp hlisted route (hroutes ▸ List.mem_singleton_self _)
  simp only [Bool.and_eq_true, beq_iff_eq] at hroute
  obtain ⟨⟨hmethod, hpath⟩, hpattern⟩ := hroute
  obtain ⟨p, hp, hfacts⟩ := (Option.any_eq_true _ _).mp hpattern
  obtain ⟨hstock, hwhole, hnames⟩ := of_decide_eq_true hfacts
  have hcount : noteValues.length = p.parameters.length := by
    rw [← List.length_map (f := fun q : Parameter => q.name), hnames]
    rfl
  have hbuilt := eq_ok_of_toOption hpath
  have hbound := given_values_are_bound "/v/" (.whole 10) noteStart hcreate hsize notePlan
    route hroutes p hp
    hstock hwhole noteValues hcount _ hbuilt (by decide +kernel) (by decide +kernel)
  have hget : Method.get.name = "GET" := rfl
  have hentries : ["year", "author", "kind", "page"].zip (noteValues.map Value.display) =
      [("year", "1999"), ("author", "Zoë B. (?)"), ("kind", "long-form.v2"), ("page", "i")] := by
    decide +kernel
  rw [hmethod, hget, hnames, hentries] at hbound
  exact ⟨hcreate, hsize, route, p, hroutes, hp, hstock, hwhole, hcount, hbuilt, hbound⟩

end NamedRoutes.RouteStore
