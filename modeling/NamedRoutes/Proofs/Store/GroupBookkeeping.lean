import NamedRoutes.Proofs.Chunk.GroupCount
import NamedRoutes.Proofs.Pattern.Layout
import NamedRoutes.Proofs.Store.Refinement

/-!
The groups of patterns and of the chunks they are merged into. Whatever someone writes for a
placeholder, a pattern that compiles has one group for each of its parameters, so routes with one
expression have the same number of parameters. The markers of a chunk are laid out by such numbers,
and they are exact.
-/

namespace NamedRoutes

open Regex

namespace RouteStore

/-- The routes under a key of the pattern table have patterns with this text. -/
theorem Mirrors.pattern_of_mem {s : RouteStore} {registered : List Route} (h : s.Mirrors registered)
    {entry : String × OrderedMap Method Route} (hentry : entry ∈ s.patterns.entries) {route : Route}
    (hroute : route ∈ entry.2.values) :
    ∃ p : RoutePattern, p.IsCompiled ∧ p.regex = entry.1 ∧ route.parameterNames = p.names := by
  have hroutes := OrderedMap.get?_of_mem h.nodup hentry
  obtain ⟨hmem, hfixed, hkey⟩ := h.members entry.1 entry.2 hroutes route hroute
  obtain ⟨p, hp, hregex, hnames⟩ := Route.pattern?_of_not_isFixed hfixed
  exact ⟨p, h.sound route hmem p hp, hregex.symm.trans hkey, hnames⟩

/-- The first route under a key speaks for all of them, and for the groups of their text. -/
theorem Mirrors.parameterCount {s : RouteStore} {registered : List Route} (h : s.Mirrors registered)
    {entry : String × OrderedMap Method Route} (hentry : entry ∈ s.patterns.entries) :
    Reader.Opens entry.1.toList (Chunk.parameterCount entry.2) ∧
      ∀ route ∈ entry.2.values, route.parameterNames.length = Chunk.parameterCount entry.2 := by
  have hfilled := h.filled entry.1 entry.2 (OrderedMap.get?_of_mem h.nodup hentry)
  cases hvalues : entry.2.values with
  | nil => exact absurd hvalues hfilled
  | cons first rest =>
      have hfirst : first ∈ entry.2.values := by simp [hvalues]
      obtain ⟨p, hp, hregex, hnames⟩ := h.pattern_of_mem hentry hfirst
      have hcount : Chunk.parameterCount entry.2 = p.names.length := by
        unfold Chunk.parameterCount
        rw [hvalues, ← hnames]
      rw [hcount, ← hregex, ← hvalues]
      refine ⟨hp.opens, fun route hroute => ?_⟩
      obtain ⟨q, hq, hregex', hnames'⟩ := h.pattern_of_mem hentry hroute
      rw [hnames']
      exact RoutePattern.length_names_congr hq hp (hregex'.trans hregex.symm)

/-- Any entries of the pattern table that can be merged make an exact chunk. -/
theorem Mirrors.isExact {s : RouteStore} {registered : List Route} (h : s.Mirrors registered)
    {piece : List (String × OrderedMap Method Route)} (hpiece : piece ≠ [])
    (hentries : ∀ entry ∈ piece, entry ∈ s.patterns.entries) {c : Chunk}
    (hbuild : Chunk.build piece = .ok c) : c.IsExact :=
  Chunk.isExact_of_build hpiece (fun entry hentry => (h.parameterCount (hentries entry hentry)).1)
    (fun entry hentry => (h.parameterCount (hentries entry hentry)).2) hbuild

theorem prepared_of_current {s : RouteStore} (h : s.Current) {out : Outcome ChunkedMatcher}
    (hprepared : s.prepared = .ok out) : s.freshMatcher = .ok out.value := by
  rw [← prepared_value s h, hprepared]
  rfl

/-- A path that compiles, in whatever namespace and with whatever expressions for its placeholders,
has one group for each of its parameters, which bear its names in order. After every run of
operations on a new store, routes under one key have the same number of parameters, and every chunk
of patterns that can be merged is exact, those of the matcher that answers requests among them. -/
theorem groups_are_counted_exactly :
    (∀ path space p, RoutePattern.compile path space = .ok p →
      Expression.compile ("^" ++ p.regex ++ "$") = .ok p.expression ∧
      p.expression.groups = p.names.length ∧ p.parameters.length = p.names.length ∧
      p.parameters.map (·.name) = p.names) ∧
    ∀ space chunkSize start, create space chunkSize = .ok start → ∀ ops,
      (∀ entry ∈ (start.run ops).patterns.entries, ∀ route ∈ entry.2.values,
        ∀ other ∈ entry.2.values, route.parameterNames.length = other.parameterNames.length) ∧
      (∀ piece, piece ≠ [] → (∀ entry ∈ piece, entry ∈ (start.run ops).patterns.entries) →
        ∀ c, Chunk.build piece = .ok c → c.IsExact) ∧
      ∀ out, (start.run ops).prepared = .ok out → ∀ c ∈ out.value.chunks, c.IsExact := by
  refine ⟨fun path space p hp => ?_, fun space chunkSize start hstart ops => ?_⟩
  · obtain ⟨t, hassembled⟩ := RoutePattern.assembled_of_compile hp
    have hgroups := RoutePattern.IsCompiled.groups ⟨path, space, hp⟩
    have hnames := hassembled.parameterNames
    exact ⟨hassembled.expression, hgroups, by rw [← hnames, List.length_map], hnames⟩
  · have h := mirrors_of_create hstart ops
    refine ⟨fun entry hentry route hroute other hother => ?_, fun piece hpiece hentries c hbuild =>
      h.isExact hpiece hentries hbuild, fun out hprepared c hc => ?_⟩
    · have hcount := (h.parameterCount hentry).2
      rw [hcount route hroute, hcount other hother]
    · have hfresh := prepared_of_current (run_current space chunkSize start hstart ops) hprepared
      obtain ⟨piece, hpiece, hentries, hbuild⟩ := Chunk.exists_entries_of_build hfresh hc
      exact h.isExact hpiece hentries hbuild

/-- Two methods share a pattern under other names. Its first placeholder closes its parenthesis and
opens another one, so that an alternative closes no group, and its second one can be left out. -/
def loosePlan : List Operation :=
  let handler : Output := .function (.mk "show" true false none none .arguments)
  [.add ⟨.text "GET", .text "x/{n:a)|b|(?:c}/{m:i}?", .text "odd", handler⟩,
    .add ⟨.text "POST", .text "x/{word:a)|b|(?:c}/{number:i}?", .text "even", handler⟩,
    .request (.text "GET") (.text "/api/b"),
    .add ⟨.text "GET", .text "u/{id:i}", .text "user", handler⟩]

def looseStart : RouteStore := { space := "api", chunkSize := .whole 10 }

theorem groups_are_counted_exactly_for_loose_plan :
    create "/api/" (.whole 10) = .ok looseStart ∧
    (∃ p, RoutePattern.compile "x/{n:a)|b|(?:c}/{m:i}?" "api" = .ok p ∧ p.names = ["n", "m"] ∧
      p.expression.groups = 2 ∧ p.parameters.map (·.name) = ["n", "m"]) ∧
    ((looseStart.run loosePlan).patterns.entries.map fun entry => entry.2.values.map (·.name)) =
      [["odd", "even"], ["user"]] ∧
    (∀ entry ∈ (looseStart.run loosePlan).patterns.entries, ∀ route ∈ entry.2.values,
      ∀ other ∈ entry.2.values, route.parameterNames.length = other.parameterNames.length) ∧
    ∃ c, Chunk.build (looseStart.run loosePlan).patterns.entries = .ok c ∧ c.expression.groups = 5 ∧
      c.alternatives.map (·.marker) = [3, 5] ∧ c.IsExact ∧
      ∃ out, (looseStart.run loosePlan).prepared = .ok out ∧ ∀ d ∈ out.value.chunks, d.IsExact := by
  have hstart : create "/api/" (.whole 10) = .ok looseStart := rfl
  have hpattern : (RoutePattern.compile "x/{n:a)|b|(?:c}/{m:i}?" "api").toOption.map (·.names) =
      some ["n", "m"] := by decide +kernel
  have hfacts : ((looseStart.run loosePlan).patterns.entries.map fun entry =>
        entry.2.values.map (·.name)) = [["odd", "even"], ["user"]] ∧
      (Chunk.build (looseStart.run loosePlan).patterns.entries).toOption.map (fun c =>
        (c.expression.groups, c.alternatives.map (·.marker))) = some (5, [3, 5]) ∧
      (looseStart.run loosePlan).prepared.toOption.isSome = true := by decide +kernel
  obtain ⟨p, hp, hnames⟩ := Option.map_eq_some_iff.mp hpattern
  obtain ⟨hentries, hchunk, hprepared⟩ := hfacts
  obtain ⟨c, hc, hcounts⟩ := Option.map_eq_some_iff.mp hchunk
  obtain ⟨hgroups, hmarkers⟩ := Prod.mk.inj hcounts
  obtain ⟨out, hout⟩ := Option.isSome_iff_exists.mp hprepared
  obtain ⟨hpatterns, hstores⟩ := groups_are_counted_exactly
  obtain ⟨_, hcount, _, hparameters⟩ := hpatterns _ _ p (eq_ok_of_toOption hp)
  obtain ⟨hsame, hpieces, hmatcher⟩ := hstores "/api/" (.whole 10) looseStart hstart loosePlan
  have hfilled : (looseStart.run loosePlan).patterns.entries ≠ [] := by
    intro hnone
    rw [hnone] at hentries
    cases hentries
  rw [hnames] at hcount hparameters
  have hexact := hpieces _ hfilled (fun _ hentry => hentry) c (eq_ok_of_toOption hc)
  exact ⟨hstart, ⟨p, eq_ok_of_toOption hp, hnames, hcount, hparameters⟩, hentries, hsame, c,
    eq_ok_of_toOption hc, hgroups, hmarkers, hexact, out, eq_ok_of_toOption hout,
    hmatcher out (eq_ok_of_toOption hout)⟩

end RouteStore

end NamedRoutes
