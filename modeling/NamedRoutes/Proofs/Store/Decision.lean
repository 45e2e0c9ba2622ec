import NamedRoutes.Proofs.Store.LinearScan

/-!
How a prepared matcher decides. Its chunks are pieces of the table of patterns, and the chunk that
matches a path first holds the pattern at which the linear scan ends. If that match has closed a
group, the route and the parameters are those of the linear scan.
-/

namespace NamedRoutes.RouteStore

open Regex

variable {s : RouteStore} {registered : List Route} {m : ChunkedMatcher}
  {entries : List Chunk.Entry} {pieces : List (List Chunk.Entry)} {path : String}

/-- What a matcher is made of: the entries of the pattern table, cut into pieces. -/
structure Comprises (s : RouteStore) (registered : List Route) (m : ChunkedMatcher)
    (entries : List Chunk.Entry) (pieces : List (List Chunk.Entry)) : Prop where
  table : entries.map Chunk.Entry.pair = s.patterns.entries
  lists : ∀ e ∈ entries, s.Lists registered e
  split : Chunk.split entries s.chunkSize = .ok pieces
  built : (pieces.map (List.map Chunk.Entry.pair)).mapM Chunk.build = .ok m.chunks

theorem Mirrors.comprises (h : s.Mirrors registered) (hrefers : Unreferring registered)
    (hm : s.freshMatcher = .ok m) : ∃ entries pieces, s.Comprises registered m entries pieces := by
  obtain ⟨entries, htable, hlists⟩ := h.exists_entries hrefers
  unfold freshMatcher ChunkedMatcher.build at hm
  rw [← htable, Chunk.split_map] at hm
  cases hsplit : Chunk.split entries s.chunkSize with
  | error e => simp [hsplit, Except.map, bind, Except.bind] at hm
  | ok pieces =>
      simp only [hsplit, Except.map, bind, Except.bind] at hm
      cases hbuilt : (pieces.map (List.map Chunk.Entry.pair)).mapM Chunk.build with
      | error e => simp [hbuilt] at hm
      | ok chunks =>
          simp only [hbuilt] at hm
          cases hm
          exact ⟨entries, pieces, htable, hlists, hsplit, hbuilt⟩

/-- How a matcher decides at a pattern: the entry that stands for it, and the match of its chunk. -/
structure DecidesAt (s : RouteStore) (registered : List Route) (path : String) (p : RoutePattern)
    (before : List Chunk.Entry) (e : Chunk.Entry) (after : List Chunk.Entry) (own : Matched)
    (chunk : Chunk) (found : Matched) : Prop where
  matching : p.expression.fullMatch? path = .ok (some own)
  lists : ∀ entry ∈ before ++ e :: after, s.Lists registered entry
  stands : e.StandsFor p
  decides : Chunk.Entry.Decides path before e after own chunk found

/-- Whether the search of a matcher ends as the linear scan does: at no pattern, at a match that
cannot be reported, or at a match of a chunk. -/
def Agrees (s : RouteStore) (registered : List Route) (m : ChunkedMatcher) (path : String) : Prop :=
  (LinearScan.decider? registered path = none ∧
    ChunkedMatcher.decision? path m.chunks = .ok none) ∨
  ∃ p, LinearScan.decider? registered path = some p ∧
    ((p.expression.fullMatch? path = .error .reversedGroup ∧
      ChunkedMatcher.decision? path m.chunks = .error .reversedGroup) ∨
    ∃ before e after own chunk found,
      ChunkedMatcher.decision? path m.chunks = .ok (some (chunk, found)) ∧
        s.DecidesAt registered path p before e after own chunk found)

theorem decider?_mem {p : RoutePattern} (h : LinearScan.decider? registered path = some p) :
    ∃ route ∈ registered, route.pattern? = some p :=
  List.mem_filterMap.mp (List.mem_of_find?_eq_some h)

/-- The pieces are searched as the linear scan searches the patterns. -/
theorem Comprises.agrees (hm : s.Comprises registered m entries pieces)
    (h : s.Mirrors registered) (hflatten : pieces.flatten = entries)
    (path : String) : s.Agrees registered m path := by
  have hnonempty := (Chunk.split_eq_ok hm.split).2
  have hfirst := h.first? hm.table hm.lists path
  rcases Chunk.decision?_of_pieces path hnonempty hm.built with
    ⟨hnone, hdecision⟩ | ⟨e, he, hdecided⟩
  · rw [hflatten] at hnone
    rw [hnone] at hfirst
    exact Or.inl ⟨Option.map_eq_none_iff.mp hfirst.symm, hdecision⟩
  · rw [hflatten] at he
    rw [he] at hfirst
    obtain ⟨p, hp, hkey⟩ := Option.map_eq_some_iff.mp hfirst.symm
    obtain ⟨route, hroute, hpattern⟩ := decider?_mem hp
    have hmem := List.mem_of_find?_eq_some he
    have hstands := (hm.lists e hmem).standsFor h hroute hpattern hkey.symm
    refine Or.inr ⟨p, hp, ?_⟩
    rw [← hstands.own]
    rcases hdecided with hreversed | ⟨before, after, own, chunk, found, hdecision, hpiece, hdecides⟩
    · exact Or.inl hreversed
    · refine Or.inr ⟨before, e, after, own, chunk, found, hdecision, ?_, ?_, hstands, hdecides⟩
      · rw [← hstands.own]
        exact hdecides.matching
      · intro entry hentry
        apply hm.lists
        rw [← hflatten]
        exact List.mem_flatten.mpr ⟨_, hpiece, hentry⟩

theorem Lists.get? {e : Chunk.Entry} {p : RoutePattern} (he : s.Lists registered e)
    (h : s.Mirrors registered) (hstands : e.StandsFor p) (method : Method) :
    e.routes.get? method = registered.find? (·.isAt false p.regex method) := by
  have hfind := h.find false p.regex method
  have hroutes := he.routes
  rw [hstands.text] at hroutes
  change s.patterns.find? p.regex method = _ at hfind
  unfold RouteTable.find? at hfind
  rw [hroutes] at hfind
  exact hfind

/-- A match that has closed a group leads to the route and the parameters of the linear scan. -/
theorem DecidesAt.resolve {p : RoutePattern} {before after : List Chunk.Entry} {e : Chunk.Entry}
    {own found : Matched} {chunk : Chunk}
    (hd : s.DecidesAt registered path p before e after own chunk found)
    (h : s.Mirrors registered) (hlast : found.lastGroup ≠ 0)
    (method : Method) : ChunkedMatcher.resolve method chunk found =
      LinearScan.resolve registered method p own := by
  have he := hd.lists e (List.mem_append_right _ (List.mem_cons_self ..))
  have hget := he.get? h hd.stands method
  have hresolve := Chunk.Entry.resolve_eq hd.decides.alternatives hd.decides.answers hlast method
    fun route hroute => Nat.le_of_eq
      (he.length_parameterNames h (OrderedMap.mem_values_of_get? hroute))
  rw [hresolve, hget]
  rfl

end NamedRoutes.RouteStore
