import NamedRoutes.Proofs.Chunk.Search
import NamedRoutes.Proofs.Regex.Numbering

/-!
The groups of a chunk, counted before its texts are merged. The markers are laid out by adding up
numbers of parameters, while the groups are numbered by reading the merged text. Both agree as long
as every text closes all its parentheses, so that the group that a match closes last always leads to
an alternative, and the groups of its parameters exist.
-/

namespace NamedRoutes.Chunk

open Regex

/-- The number of groups that some alternatives are to have. -/
def extent : List (String × OrderedMap Method Route) → Nat
  | [] => 0
  | entry :: rest => parameterCount entry.2 + 1 + extent rest

/-- The last marker is the number of groups up to it. -/
theorem last_layOut (base : Nat) {entries : List (String × OrderedMap Method Route)}
    (h : entries ≠ []) :
    (layOut base entries).getLast?.map Alternative.marker = some (base + extent entries) := by
  induction entries generalizing base with
  | nil => exact absurd rfl h
  | cons entry rest ih =>
      obtain ⟨regex, routes⟩ := entry
      rw [extent]
      cases rest with
      | nil => rfl
      | cons next rest =>
          have hlast := ih (base + parameterCount routes + 1) (List.cons_ne_nil next rest)
          rw [layOut, layOut, List.getLast?_cons_cons]
          rw [layOut] at hlast
          rw [hlast, Nat.add_assoc base, Nat.add_assoc base]

/-- Where an alternative lies: its groups come after `base` others, and no marker lies beyond the
last. -/
theorem marker_of_mem_layOut {base : Nat} {entries : List (String × OrderedMap Method Route)}
    {a : Alternative} (h : a ∈ layOut base entries) :
    (∃ entry ∈ entries, a.routes = entry.2) ∧
      a.marker = a.base + parameterCount a.routes + 1 ∧ a.marker ≤ base + extent entries := by
  induction entries generalizing base with
  | nil => cases h
  | cons entry rest ih =>
      obtain ⟨regex, routes⟩ := entry
      rw [extent]
      rcases List.mem_cons.mp h with rfl | hrest
      · refine ⟨⟨_, List.mem_cons_self .., rfl⟩, rfl, ?_⟩
        change base + parameterCount routes + 1 ≤ base + (parameterCount routes + 1 + extent rest)
        omega
      · obtain ⟨⟨other, hother, hroutes⟩, hmarker, hle⟩ := ih hrest
        refine ⟨⟨other, List.mem_cons_of_mem _ hother, hroutes⟩, hmarker, ?_⟩
        change a.marker ≤ base + (parameterCount routes + 1 + extent rest)
        omega

variable {entries : List (String × OrderedMap Method Route)}

/-- Texts that close their parentheses do so between the signs for alternatives, each followed by
its marker. -/
theorem opens_merged
    (h : ∀ entry ∈ entries, Reader.Opens entry.1.toList (parameterCount entry.2)) :
    Reader.Opens ("|".intercalate (entries.map fun (regex, _) => regex ++ "()")).toList
      (extent entries) := by
  induction entries with
  | nil => exact Reader.Opens.nil
  | cons entry rest ih =>
      obtain ⟨hentry, hrest⟩ := List.forall_mem_cons.mp h
      have hmarked : Reader.Opens (entry.1 ++ "()").toList (parameterCount entry.2 + 1) := by
        rw [String.toList_append]
        exact hentry.append Reader.Opens.marker
      rw [extent]
      cases rest with
      | nil => exact hmarked
      | cons next rest =>
          have hmore := hmarked.append (Reader.Opens.bar.append (ih hrest))
          rw [Nat.zero_add] at hmore
          simp only [List.map_cons, String.intercalate_cons_cons, String.toList_append] at hmore ⊢
          simpa using hmore

/-- The merged expression has the groups that were counted. -/
theorem groups_of_build
    (hopens : ∀ entry ∈ entries, Reader.Opens entry.1.toList (parameterCount entry.2)) {c : Chunk}
    (h : build entries = .ok c) : c.expression.groups = extent entries := by
  have hparse := (Expression.compile_eq_ok (build_eq_ok h).1).1
  have htext : (source entries).toList = '^' :: (("(?:".toList ++
      (("|".intercalate (entries.map fun (regex, _) => regex ++ "()")).toList ++ [')'])) ++
      ['$']) := by
    simp [source]
  rw [htext] at hparse
  exact (opens_merged hopens).wrapped.groups_eq hparse

/-- The bookkeeping of a chunk: the groups are those up to the last marker, every match leads to an
alternative, and the groups of the parameters of its routes lie before its marker. -/
structure IsExact (c : Chunk) : Prop where
  last : c.alternatives.getLast?.map Alternative.marker = some c.expression.groups
  found : ∀ path m, c.expression.fullMatch? path = .ok (some m) →
    m.lastGroup ≤ c.expression.groups ∧ ∃ a ∈ c.alternatives, c.find? m.lastGroup = some a
  fits : ∀ a ∈ c.alternatives, a.marker ≤ c.expression.groups ∧
    ∀ route ∈ a.routes.values, a.marker = a.base + route.parameterNames.length + 1

/-- A group up to the last marker leads to an alternative. -/
theorem exists_find? {c : Chunk} {group : Nat}
    (h : c.alternatives.getLast?.map Alternative.marker = some c.expression.groups)
    (hgroup : group ≤ c.expression.groups) : ∃ a ∈ c.alternatives, c.find? group = some a := by
  obtain ⟨last, hlast, hmarker⟩ := Option.map_eq_some_iff.mp h
  cases hfind : c.find? group with
  | some a => exact ⟨a, List.mem_of_find?_eq_some hfind, rfl⟩
  | none =>
      have hno := List.find?_eq_none.mp hfind last (List.mem_of_getLast? hlast)
      simp only [decide_eq_true_eq] at hno
      exact absurd (hmarker ▸ hgroup) hno

theorem isExact_of_build (hentries : entries ≠ [])
    (hopens : ∀ entry ∈ entries, Reader.Opens entry.1.toList (parameterCount entry.2))
    (hroutes : ∀ entry ∈ entries, ∀ route ∈ entry.2.values,
      route.parameterNames.length = parameterCount entry.2) {c : Chunk}
    (h : build entries = .ok c) : c.IsExact := by
  obtain ⟨hcompile, halternatives⟩ := build_eq_ok h
  have hgroups := groups_of_build hopens h
  have hlast : c.alternatives.getLast?.map Alternative.marker = some c.expression.groups := by
    rw [halternatives, last_layOut 0 hentries, hgroups, Nat.zero_add]
  refine ⟨hlast, fun path m hmatch => ?_, fun a ha => ?_⟩
  · have hle := Expression.lastGroup_le hcompile hmatch
    exact ⟨hle, exists_find? hlast hle⟩
  · rw [halternatives] at ha
    obtain ⟨⟨entry, hentry, hsame⟩, hmarker, hle⟩ := marker_of_mem_layOut ha
    rw [Nat.zero_add] at hle
    refine ⟨hgroups ▸ hle, fun route hroute => ?_⟩
    rw [hsame] at hroute hmarker
    rw [hmarker, hroutes entry hentry route hroute]

/-- The chunks that a table is cut into are made of entries of it, at least one each. -/
theorem exists_entries_of_build {table : RouteTable} {size : Size} {matcher : ChunkedMatcher}
    (h : ChunkedMatcher.build table size = .ok matcher) {c : Chunk} (hc : c ∈ matcher.chunks) :
    ∃ piece : List (String × OrderedMap Method Route), piece ≠ [] ∧
      (∀ entry ∈ piece, entry ∈ table.entries) ∧ build piece = .ok c := by
  unfold ChunkedMatcher.build at h
  cases hsplit : split table.entries size with
  | error e => simp [hsplit, bind, Except.bind] at h
  | ok pieces =>
      simp only [hsplit, bind, Except.bind] at h
      cases hchunks : pieces.mapM build with
      | error e => simp [hchunks] at h
      | ok chunks =>
          simp only [hchunks] at h
          cases h
          obtain ⟨hflatten, hfilled⟩ := split_eq_ok hsplit
          obtain ⟨piece, hpiece, hbuild⟩ := exists_of_mem_mapM hchunks hc
          refine ⟨piece, hfilled piece hpiece, fun entry hentry => ?_, hbuild⟩
          rcases hflatten with rfl | hflatten
          · cases hpiece
          · rw [← hflatten]
            exact List.mem_flatten.mpr ⟨piece, hpiece, hentry⟩

end NamedRoutes.Chunk
