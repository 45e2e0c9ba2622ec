import NamedRoutes.Proofs.Store.Tables

/-!
The table of the patterns as it is matched. Its entries stand for the registered patterns, and the
first entry that matches a path stands for the first registered pattern that does.
-/

namespace NamedRoutes

open Regex

namespace Chunk.Entry

/-- Whether an entry is a pattern: it has its text and its groups, and matches what it matches. -/
structure StandsFor (e : Entry) (p : RoutePattern) : Prop where
  text : e.pair.1 = p.regex
  count : e.part.count = p.names.length
  own : ∀ path, e.part.ownMatch? path = p.expression.fullMatch? path

/-- An entry stands for every pattern with its text. -/
theorem StandsFor.congr {e : Entry} {p q : RoutePattern} (h : e.StandsFor p)
    (hp : p.IsCompiled) (hq : q.IsCompiled) (htext : p.regex = q.regex) : e.StandsFor q := by
  refine ⟨h.text.trans htext, h.count.trans (RoutePattern.length_names_congr hp hq htext),
    fun path => ?_⟩
  rw [← RoutePattern.expression_congr hp hq htext]
  exact h.own path

/-- Some routes of one pattern make an entry. -/
theorem exists_standsFor {p : RoutePattern} (hp : p.IsCompiled)
    (hrefers : p.expression.regex.refers = false) (routes : OrderedMap Method Route)
    (hcount : p.names.length = parameterCount routes) :
    ∃ e : Entry, e.pair = (p.regex, routes) ∧ e.StandsFor p := by
  obtain ⟨r, hown, hmatch⟩ := RoutePattern.exists_ownReading hp hrefers
  have htext : (⟨RoutePattern.part hown, routes, hcount⟩ : Entry).pair = (p.regex, routes) :=
    congrArg (·, routes) (String.ofList_toList ..)
  exact ⟨_, htext, congrArg Prod.fst htext, rfl, hmatch⟩

end Chunk.Entry

namespace RouteStore

/-- Whether every pattern of some routes is an expression that refers to no group. -/
def Unreferring (registered : List Route) : Prop :=
  ∀ p ∈ registered.filterMap Route.pattern?, p.expression.regex.refers = false

/-- What an entry of the pattern table is: the routes of a registered pattern. -/
structure Lists (s : RouteStore) (registered : List Route) (e : Chunk.Entry) : Prop where
  routes : s.patterns.get? e.pair.1 = some e.routes
  pattern : ∃ route ∈ registered, ∃ p, route.pattern? = some p ∧ e.StandsFor p

instance (registered : List Route) : Decidable (Unreferring registered) :=
  inferInstanceAs (Decidable (∀ _ ∈ _, _))

theorem exists_map {α β : Type} {f : α → β} {P : α → Prop} (items : List β)
    (h : ∀ item ∈ items, ∃ a, f a = item ∧ P a) :
    ∃ as : List α, as.map f = items ∧ ∀ a ∈ as, P a := by
  induction items with
  | nil => exact ⟨[], rfl, List.forall_mem_nil _⟩
  | cons item rest ih =>
      obtain ⟨hitem, hrest⟩ := List.forall_mem_cons.mp h
      obtain ⟨a, rfl, ha⟩ := hitem
      obtain ⟨as, rfl, has⟩ := ih hrest
      exact ⟨a :: as, rfl, List.forall_mem_cons.mpr ⟨ha, has⟩⟩

/-- The pattern table is a list of registered patterns. -/
theorem Mirrors.exists_entries {s : RouteStore} {registered : List Route}
    (h : s.Mirrors registered) (hrefers : Unreferring registered) :
    ∃ entries : List Chunk.Entry, entries.map Chunk.Entry.pair = s.patterns.entries ∧
      ∀ e ∈ entries, s.Lists registered e := by
  apply exists_map
  intro ⟨key, routes⟩ hpair
  have hroutes := OrderedMap.get?_of_mem h.nodup hpair
  cases hvalues : routes.values with
  | nil => exact absurd hvalues (h.filled key routes hroutes)
  | cons route rest =>
      obtain ⟨hmem, hfixed, hkey⟩ := h.members key routes hroutes route (by simp [hvalues])
      obtain ⟨p, hp, hregex, hnames⟩ := Route.pattern?_of_not_isFixed hfixed
      have hcount : p.names.length = Chunk.parameterCount routes := by
        unfold Chunk.parameterCount
        rw [hvalues, ← hnames]
      obtain ⟨e, he, hstands⟩ := Chunk.Entry.exists_standsFor (h.sound route hmem p hp)
        (hrefers p (List.mem_filterMap.mpr ⟨route, hmem, hp⟩)) routes hcount
      rw [hregex] at hkey
      subst hkey
      refine ⟨e, he, ?_, route, hmem, p, hp, hstands⟩
      have hentry : e.routes = routes := congrArg Prod.snd he
      rw [he, hentry]
      exact hroutes

/-- An entry of the table stands for every registered pattern with its text. -/
theorem Lists.standsFor {s : RouteStore} {registered : List Route} {e : Chunk.Entry}
    (he : s.Lists registered e) (h : s.Mirrors registered)
    {route : Route} (hroute : route ∈ registered) {p : RoutePattern} (hp : route.pattern? = some p)
    (hkey : e.pair.1 = p.regex) : e.StandsFor p := by
  obtain ⟨_, other, hother, q, hq, hstands⟩ := he
  exact hstands.congr (h.sound other hother q hq) (h.sound route hroute p hp)
    (hstands.text.symm.trans hkey)

/-- The routes of an entry have patterns that it stands for. -/
theorem Lists.pattern_of_mem {s : RouteStore} {registered : List Route} {e : Chunk.Entry}
    (he : s.Lists registered e) (h : s.Mirrors registered)
    {route : Route} (hroute : route ∈ e.routes.values) :
    ∃ p, route.pattern? = some p ∧ route.parameterNames = p.names ∧ e.StandsFor p := by
  obtain ⟨hmem, hfixed, hkey⟩ := h.members _ _ he.routes route hroute
  obtain ⟨p, hp, hregex, hnames⟩ := Route.pattern?_of_not_isFixed hfixed
  exact ⟨p, hp, hnames, he.standsFor h hmem hp (hkey.symm.trans hregex)⟩

theorem Lists.length_parameterNames {s : RouteStore} {registered : List Route} {e : Chunk.Entry}
    (he : s.Lists registered e) (h : s.Mirrors registered)
    {route : Route} (hroute : route ∈ e.routes.values) :
    route.parameterNames.length = e.part.count := by
  obtain ⟨p, _, hnames, hstands⟩ := he.pattern_of_mem h hroute
  rw [hnames, hstands.count]

end RouteStore

end NamedRoutes
