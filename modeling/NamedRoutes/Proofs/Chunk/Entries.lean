import NamedRoutes.Chunk
import NamedRoutes.Proofs.Chunk.MergedMatch

/-!
A chunk beside its entries. Merged into one expression, the entries answer a path as they do by
themselves in their order: the first one that matches decides. Its groups are found again, and the
group that was closed last leads to it.
-/

namespace NamedRoutes

open Regex

namespace Regex.Part

theorem total_append (first second : List Part) :
    total (first ++ second) = total first + total second := by
  induction first with
  | nil => exact (Nat.zero_add _).symm
  | cons p rest ih =>
      rw [List.cons_append, total, total, ih]
      omega

/-- How a text by itself matches a whole path. -/
def ownMatch? (p : Part) (path : String) : Except MatchError (Option Matched) :=
  match p.reader.own? path.toList with
  | none => .ok none
  | some marks =>
      if ((List.range p.count).map (· + 1)).any marks.isReversed then .error .reversedGroup
      else .ok (some ⟨path.toList, marks⟩)

theorem ownMatch?_eq_none_iff (p : Part) (path : String) :
    p.ownMatch? path = .ok none ↔ p.reader.own? path.toList = none := by
  unfold ownMatch?
  cases p.reader.own? path.toList with
  | none => simp
  | some m =>
      simp only [reduceCtorEq, iff_false]
      split <;> simp

end Regex.Part

namespace Chunk

/-- What merging some texts leads to. -/
theorem build_eq_ok {entries : List (String × OrderedMap Method Route)} {c : Chunk}
    (h : build entries = .ok c) :
    Expression.compile (source entries) = .ok c.expression ∧ c.alternatives = layOut 0 entries := by
  unfold build at h
  cases hcompile : Expression.compile (source entries) with
  | error cause =>
      rw [hcompile] at h
      cases h
  | ok expression =>
      rw [hcompile] at h
      cases h
      exact ⟨rfl, rfl⟩

/-- An entry of a table whose text can be read by itself. -/
structure Entry where
  part : Part
  routes : OrderedMap Method Route
  count : part.count = parameterCount routes

namespace Entry

def pair (e : Entry) : String × OrderedMap Method Route := (.ofList e.part.text, e.routes)

theorem toList_intercalate (entries : List Entry) :
    ("|".intercalate ((entries.map pair).map fun (regex, _) => regex ++ "()")).toList =
      Part.mergedText (entries.map part) := by
  induction entries with
  | nil => rfl
  | cons e rest ih =>
      cases rest with
      | nil => simp [pair, Part.mergedText]
      | cons next rest =>
          simp only [List.map_cons] at ih ⊢
          rw [String.intercalate_cons_cons, String.toList_append, ih]
          simp [pair, Part.mergedText]

theorem toList_source (entries : List Entry) :
    (Chunk.source (entries.map pair)).toList = Part.source (entries.map part) := by
  unfold Chunk.source Part.source
  rw [String.toList_append, String.toList_append, toList_intercalate]
  simp

/-- What a chunk of some entries is. -/
theorem of_build {entries : List Entry} (hentries : entries ≠ []) {c : Chunk}
    (h : Chunk.build (entries.map pair) = .ok c) :
    c.expression.regex = Part.regex (entries.map part) ∧
      c.expression.groups = Part.total (entries.map part) ∧
      c.alternatives = layOut 0 (entries.map pair) := by
  obtain ⟨hcompile, halternatives⟩ := build_eq_ok h
  have hparse := (Expression.compile_eq_ok hcompile).1
  rw [toList_source] at hparse
  have hparts : entries.map part ≠ [] := by simpa using hentries
  obtain ⟨hregex, hcount⟩ := Part.regex_of_parse hparts hparse
  exact ⟨hregex, hcount, halternatives⟩

def total (entries : List Entry) : Nat := Part.total (entries.map part)

/-- A group leads to the entry that it belongs to. -/
theorem find?_layOut (before : List Entry) (e : Entry) (after : List Entry) (base group : Nat)
    (hbelow : base + total before < group)
    (habove : group ≤ base + total before + e.part.count + 1) :
    (layOut base ((before ++ e :: after).map pair)).find? (fun a => decide (group ≤ a.marker)) =
      some ⟨base + total before, base + total before + e.part.count + 1, e.routes⟩ := by
  induction before generalizing base with
  | nil =>
      have hcount := e.count
      have hmarker : group ≤ base + parameterCount e.routes + 1 := by
        rw [← hcount]
        exact habove
      simp only [List.nil_append, List.map_cons, pair, layOut, List.find?_cons, hmarker,
        decide_true, hcount]
      rfl
  | cons first rest ih =>
      have hcount := first.count
      have htotal : total (first :: rest) = first.part.count + 1 + total rest := rfl
      have hpassed : ¬ group ≤ base + parameterCount first.routes + 1 := by omega
      simp only [List.cons_append, List.map_cons, pair, layOut, List.find?_cons, hpassed,
        decide_false]
      have hnext := ih (base + parameterCount first.routes + 1) (by omega) (by omega)
      refine hnext.trans ?_
      have hbase : base + parameterCount first.routes + 1 + total rest =
          base + total (first :: rest) := by omega
      rw [hbase]

/-- No group at all leads to the first entry. -/
theorem find?_layOut_zero (e : Entry) (after : List Entry) (base : Nat) :
    (layOut base ((e :: after).map pair)).find? (fun a => decide (0 ≤ a.marker)) =
      some ⟨base, base + e.part.count + 1, e.routes⟩ := by
  simp only [List.map_cons, pair, layOut, List.find?_cons, Nat.zero_le, decide_true, e.count]

/-- How a match of the whole goes back to a match of an entry by itself. -/
structure Answers (before : List Entry) (e : Entry) (own found : Matched) : Prop where
  groups : ∀ number, 0 < number → number ≤ e.part.count →
    found.group? (number + total before) = own.group? number
  last : found.lastGroup = 0 ∨
    (total before < found.lastGroup ∧ found.lastGroup ≤ total before + e.part.count + 1)
  single : e.part.reader.settled.top.branches = [] → found.lastGroup ≠ 0

theorem any_groupNumbers (e : Expression) (marks : Marks) :
    e.groupNumbers.any marks.isReversed = true ↔
      ∃ number, 0 < number ∧ number ≤ e.groups ∧ marks.isReversed number = true := by
  unfold Expression.groupNumbers
  rw [List.any_map, List.any_eq_true]
  constructor
  · rintro ⟨index, hindex, hreversed⟩
    exact ⟨index + 1, Nat.succ_pos index, List.mem_range.mp hindex, hreversed⟩
  · rintro ⟨number, hpositive, hle, hreversed⟩
    refine ⟨number - 1, List.mem_range.mpr (by omega), ?_⟩
    have hnumber : number - 1 + 1 = number := by omega
    simpa [hnumber] using hreversed

theorem any_range (count : Nat) (marks : Marks) :
    ((List.range count).map (· + 1)).any marks.isReversed = true ↔
      ∃ number, 0 < number ∧ number ≤ count ∧ marks.isReversed number = true :=
  any_groupNumbers ⟨"", .empty, count⟩ marks

theorem total_le (before : List Entry) (e : Entry) (after : List Entry) :
    total before + e.part.count ≤ total (before ++ e :: after) := by
  unfold total
  rw [List.map_append, Part.total_append]
  change _ ≤ _ + (e.part.count + 1 + _)
  omega

/-- A group of the whole ends before it starts if and only if one of the entry by itself does. -/
theorem any_isReversed {before : List Entry} {e : Entry} {expression : Expression} {m found : Marks}
    (hstems : e.part.Stems m found) (hbound : m.Within e.part.count)
    (hgroups : total before + e.part.count ≤ expression.groups) :
    expression.groupNumbers.any (found.shift (total before)).isReversed =
      ((List.range e.part.count).map (· + 1)).any m.isReversed := by
  rw [Bool.eq_iff_iff, any_groupNumbers, any_range]
  constructor
  · rintro ⟨number, hpositive, _, hnumber⟩
    obtain ⟨own, hown, hle, _, hm⟩ :=
      (hstems.isReversed_iff hbound (total before) number hpositive).mp hnumber
    exact ⟨own, hown, hle, hm⟩
  · rintro ⟨own, hown, hle, hm⟩
    refine ⟨own + total before, by omega, by omega, ?_⟩
    exact (hstems.isReversed_iff hbound (total before) _ (by omega)).mpr ⟨own, hown, hle, rfl, hm⟩

/-- What is recorded above the groups of earlier entries goes back to the entry by itself. -/
theorem answers_of_stems (path : String) (before : List Entry) {e : Entry} {m found : Marks}
    (hstems : e.part.Stems m found) (hbound : m.Within e.part.count) :
    Answers before e ⟨path.toList, m⟩ ⟨path.toList, found.shift (total before)⟩ where
  groups number hpositive hle := congrArg (Option.map String.ofList)
    (hstems.text? hbound (total before) number path.toList hpositive hle)
  last := hstems.lastClosed hbound (total before)
  single := hstems.lastClosed_ne_zero (total before)

/-- A chunk matches a path as the first of its entries that does. -/
theorem fullMatch?_of_build {entries : List Entry} (hentries : entries ≠ []) {c : Chunk}
    (h : Chunk.build (entries.map pair) = .ok c) (path : String) :
    ((∀ e ∈ entries, e.part.ownMatch? path = .ok none) ∧
      c.expression.fullMatch? path = .ok none) ∨
    ∃ before e after, entries = before ++ e :: after ∧
      (∀ q ∈ before, q.part.ownMatch? path = .ok none) ∧
      ((e.part.ownMatch? path = .error .reversedGroup ∧
        c.expression.fullMatch? path = .error .reversedGroup) ∨
      ∃ own found, e.part.ownMatch? path = .ok (some own) ∧
        c.expression.fullMatch? path = .ok (some found) ∧ Answers before e own found) := by
  obtain ⟨hregex, hgroups, _⟩ := of_build hentries h
  have hparts : entries.map part ≠ [] := by simpa using hentries
  have hmatch : c.expression.regex.fullMatch? path.toList =
      Part.merged? path.toList 0 (entries.map part) := by
    rw [fullMatch?_eq, hregex, Part.ending?_regex hparts]
  unfold Expression.fullMatch?
  rw [hmatch]
  rcases Part.merged?_cases path.toList 0 (entries.map part) with
    ⟨hnone, hmerged⟩ | ⟨before, p, after, m, found, hsplit, hbefore, hp, hbound, hstems, hmerged⟩
  · rw [hmerged]
    refine Or.inl ⟨fun e he => ?_, rfl⟩
    exact (Part.ownMatch?_eq_none_iff _ _).mpr (hnone _ (List.mem_map_of_mem he))
  · obtain ⟨first, second, rfl, rfl, hsecond⟩ := List.map_eq_append_iff.mp hsplit
    obtain ⟨e, rest, rfl, rfl, _⟩ := List.map_eq_cons_iff.mp hsecond
    rw [Nat.zero_add] at hmerged
    change Part.merged? _ _ _ = some (found.shift (total first)) at hmerged
    rw [hmerged]
    refine Or.inr ⟨first, e, rest, rfl, fun q hq => ?_, ?_⟩
    · exact (Part.ownMatch?_eq_none_iff _ _).mpr (hbefore _ (List.mem_map_of_mem hq))
    have hfits : total first + e.part.count ≤ c.expression.groups := by
      rw [hgroups]
      exact total_le first e rest
    have hreversed := any_isReversed hstems hbound hfits
    unfold Part.ownMatch?
    rw [hp]
    cases hcase : ((List.range e.part.count).map (· + 1)).any m.isReversed with
    | true =>
        rw [hcase] at hreversed
        refine Or.inl ⟨?_, ?_⟩
        · simp only [hcase, if_true]
        · simp only [hreversed, if_true]
    | false =>
        rw [hcase] at hreversed
        refine Or.inr ⟨_, _, ?_, ?_, answers_of_stems path first hstems hbound⟩
        · simp only [hcase, Bool.false_eq_true, if_false]
        · simp only [hreversed, Bool.false_eq_true, if_false]

/-- Parameters are found in the whole where they are found in the entry by itself. -/
theorem parameters_eq {before : List Entry} {e : Entry} {own found : Matched}
    (h : Answers before e own found) (names : List String) (offset : Nat)
    (hnames : offset + names.length ≤ e.part.count) :
    found.parameters (offset + total before) names = own.parameters offset names := by
  induction names generalizing offset with
  | nil => rfl
  | cons name rest ih =>
      rw [List.length_cons] at hnames
      have hgroup := h.groups (offset + 1) (Nat.succ_pos offset) (by omega)
      have hrest := ih (offset + 1) (by omega)
      have hnumber : offset + total before + 1 = offset + 1 + total before := by omega
      simp only [Matched.parameters, hnumber, hgroup, hrest]

/-- An entry that is found answers with its route for the method and with its own parameters. -/
theorem resolve_eq {before after : List Entry} {e : Entry} {c : Chunk} {own found : Matched}
    (hc : c.alternatives = layOut 0 ((before ++ e :: after).map pair))
    (h : Answers before e own found) (hlast : found.lastGroup ≠ 0) (method : Method)
    (hnames : ∀ route, e.routes.get? method = some route →
      route.parameterNames.length ≤ e.part.count) :
    ChunkedMatcher.resolve method c found =
      (e.routes.get? method).map fun route => ⟨route, own.parameters 0 route.parameterNames⟩ := by
  obtain ⟨hbelow, habove⟩ := h.last.resolve_left hlast
  have hfind : c.find? found.lastGroup =
      some ⟨0 + total before, 0 + total before + e.part.count + 1, e.routes⟩ := by
    unfold Chunk.find?
    rw [hc]
    exact find?_layOut before e after 0 found.lastGroup (by omega) (by omega)
  unfold ChunkedMatcher.resolve
  rw [hfind]
  cases hroute : e.routes.get? method with
  | none => simp [hroute]
  | some route =>
      have hparameters := parameters_eq h route.parameterNames 0
        (by rw [Nat.zero_add]; exact hnames route hroute)
      rw [Nat.zero_add] at hparameters
      simp [hroute, hparameters]

end Entry

end Chunk

end NamedRoutes
