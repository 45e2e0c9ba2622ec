import NamedRoutes.Proofs.Chunk.Splitting

/-!
A search through chunks beside a search through their entries. The first entry in the whole table
that matches a path by itself decides: the chunk that it lies in is the first one that matches.
-/

namespace NamedRoutes

open Regex

/-- Whether a match ends a search: it was found, or it cannot be reported. -/
def endsSearch : Except MatchError (Option Matched) → Bool
  | .ok none => false
  | _ => true

theorem endsSearch_eq_false {result : Except MatchError (Option Matched)} :
    endsSearch result = false ↔ result = .ok none := by
  cases result with
  | error e => simp [endsSearch]
  | ok found => cases found <;> simp [endsSearch]

namespace ChunkedMatcher

/-- The first chunk that matches a path, with its match. -/
def decision? (path : String) : List Chunk → Except MatchError (Option (Chunk × Matched))
  | [] => .ok none
  | chunk :: rest =>
      match chunk.expression.fullMatch? path with
      | .error cause => .error cause
      | .ok (some found) => .ok (some (chunk, found))
      | .ok none => decision? path rest

theorem search_eq (method : Method) (path : String) (chunks : List Chunk) :
    search method path chunks =
      ((decision? path chunks).map fun decision =>
        decision.bind fun (chunk, found) => resolve method chunk found).mapError .badMatch := by
  induction chunks with
  | nil => rfl
  | cons chunk rest ih =>
      unfold search decision?
      cases chunk.expression.fullMatch? path with
      | error cause => rfl
      | ok result =>
          cases result with
          | none => exact ih
          | some found => rfl

end ChunkedMatcher

namespace Chunk

/-- How a search through chunks ends at an entry: the chunk, what it matches, and where in it the
entry lies. -/
structure Entry.Decides (path : String) (before : List Entry) (e : Entry) (after : List Entry)
    (own : Matched) (chunk : Chunk) (found : Matched) : Prop where
  matching : e.part.ownMatch? path = .ok (some own)
  passed : ∀ q ∈ before, q.part.ownMatch? path = .ok none
  alternatives : chunk.alternatives = layOut 0 ((before ++ e :: after).map Entry.pair)
  answers : Entry.Answers before e own found

/-- The first entry that ends a search. -/
def Entry.first? (path : String) (entries : List Entry) : Option Entry :=
  entries.find? fun e => endsSearch (e.part.ownMatch? path)

theorem Entry.first?_append {path : String} {first : List Entry} (second : List Entry)
    (h : ∀ e ∈ first, e.part.ownMatch? path = .ok none) :
    Entry.first? path (first ++ second) = Entry.first? path second := by
  have hnone : Entry.first? path first = none := by
    apply List.find?_eq_none.mpr
    intro e he
    rw [endsSearch_eq_false.mpr (h e he)]
    decide
  unfold Entry.first? at hnone ⊢
  rw [List.find?_append, hnone]
  rfl

theorem Entry.first?_cons {path : String} {e : Entry} (after : List Entry)
    (h : e.part.ownMatch? path ≠ .ok none) : Entry.first? path (e :: after) = some e := by
  have hends : endsSearch (e.part.ownMatch? path) = true := by
    rw [← Bool.not_eq_false, endsSearch_eq_false]
    exact h
  exact List.find?_cons_of_pos hends

/-- Texts that can be read anywhere are merged without a fault. -/
theorem Entry.exists_build {entries : List Entry} (hentries : entries ≠ [])
    (h : ∀ e ∈ entries, Reader.Reads e.part.text e.part.count) :
    ∃ c, Chunk.build (entries.map pair) = .ok c := by
  have hparts : entries.map part ≠ [] := by simpa using hentries
  have hparse := Part.parse_source hparts fun p hp => by
    obtain ⟨e, he, rfl⟩ := List.mem_map.mp hp
    exact h e he
  unfold Chunk.build Expression.compile
  rw [Entry.toList_source, hparse]
  exact ⟨_, rfl⟩

theorem mapM_error {α β : Type} {f : α → Except Error β} (items : List α) {e : Error}
    (h : items.mapM f = .error e) : ∃ item ∈ items, f item = .error e := by
  induction items with
  | nil => cases h
  | cons item rest ih =>
      rw [List.mapM_cons] at h
      cases hfirst : f item with
      | error cause =>
          simp only [hfirst, bind, Except.bind] at h
          cases h
          exact ⟨item, List.mem_cons_self .., hfirst⟩
      | ok first =>
          cases hothers : rest.mapM f with
          | error cause =>
              simp only [hfirst, hothers, bind, Except.bind] at h
              cases h
              obtain ⟨other, hother, herror⟩ := ih hothers
              exact ⟨other, List.mem_cons_of_mem _ hother, herror⟩
          | ok others =>
              simp only [hfirst, hothers, bind, Except.bind] at h
              cases h

theorem exists_mapM {α β : Type} {f : α → Except Error β} (items : List α)
    (h : ∀ item ∈ items, ∃ result, f item = .ok result) :
    ∃ results, items.mapM f = .ok results := by
  induction items with
  | nil => exact ⟨[], rfl⟩
  | cons item rest ih =>
      obtain ⟨hitem, hrest⟩ := List.forall_mem_cons.mp h
      obtain ⟨first, hfirst⟩ := hitem
      obtain ⟨others, hothers⟩ := ih hrest
      refine ⟨first :: others, ?_⟩
      rw [List.mapM_cons, hfirst, hothers]
      rfl

theorem mapM_cons_eq_ok {α β : Type} {f : α → Except Error β} {item : α} {rest : List α}
    {results : List β} (h : (item :: rest).mapM f = .ok results) :
    ∃ first others, f item = .ok first ∧ rest.mapM f = .ok others ∧ results = first :: others := by
  rw [List.mapM_cons] at h
  cases hfirst : f item with
  | error e => simp [hfirst, bind, Except.bind] at h
  | ok first =>
      cases hothers : rest.mapM f with
      | error e => simp [hfirst, hothers, bind, Except.bind] at h
      | ok others =>
          simp only [hfirst, hothers, bind, Except.bind] at h
          exact ⟨first, others, rfl, rfl, (Except.ok.inj h).symm⟩

theorem exists_of_mem_mapM {α β : Type} {f : α → Except Error β} {items : List α} {results : List β}
    (h : items.mapM f = .ok results) {result : β} (hresult : result ∈ results) :
    ∃ item ∈ items, f item = .ok result := by
  induction items generalizing results with
  | nil =>
      cases h
      cases hresult
  | cons item rest ih =>
      obtain ⟨first, others, hfirst, hothers, rfl⟩ := mapM_cons_eq_ok h
      rcases List.mem_cons.mp hresult with rfl | hmem
      · exact ⟨item, List.mem_cons_self .., hfirst⟩
      · obtain ⟨other, hother, hsame⟩ := ih hothers hmem
        exact ⟨other, List.mem_cons_of_mem _ hother, hsame⟩

/-- The first entry that ends the search decides it, and none does if there is no such entry. -/
theorem decision?_of_pieces (path : String) {pieces : List (List Entry)}
    (hpieces : ∀ piece ∈ pieces, piece ≠ []) {chunks : List Chunk}
    (h : (pieces.map (List.map Entry.pair)).mapM Chunk.build = .ok chunks) :
    (Entry.first? path pieces.flatten = none ∧
      ChunkedMatcher.decision? path chunks = .ok none) ∨
    ∃ e, Entry.first? path pieces.flatten = some e ∧
      ((e.part.ownMatch? path = .error .reversedGroup ∧
        ChunkedMatcher.decision? path chunks = .error .reversedGroup) ∨
      ∃ before after own chunk found,
        ChunkedMatcher.decision? path chunks = .ok (some (chunk, found)) ∧
          before ++ e :: after ∈ pieces ∧ Entry.Decides path before e after own chunk found) := by
  induction pieces generalizing chunks with
  | nil =>
      cases h
      exact Or.inl ⟨rfl, rfl⟩
  | cons piece rest ih =>
      obtain ⟨chunk, others, hchunk, hothers, rfl⟩ := mapM_cons_eq_ok h
      obtain ⟨hpiece, hrest⟩ := List.forall_mem_cons.mp hpieces
      rw [List.flatten_cons]
      unfold ChunkedMatcher.decision?
      rcases Entry.fullMatch?_of_build hpiece hchunk path with
        ⟨hnone, hmatch⟩ | ⟨before, e, after, rfl, hbefore, hdecided⟩
      · rw [hmatch, Entry.first?_append _ hnone]
        rcases ih hrest hothers with hnone | ⟨e, hfirst, hdecided⟩
        · exact Or.inl hnone
        · refine Or.inr ⟨e, hfirst, hdecided.imp_right ?_⟩
          rintro ⟨before, after, own, chunk, found, hdecision, hmem, hdecides⟩
          exact ⟨before, after, own, chunk, found, hdecision, List.mem_cons_of_mem _ hmem, hdecides⟩
      · refine Or.inr ⟨e, ?_, ?_⟩
        · rw [List.append_assoc, Entry.first?_append _ hbefore, List.cons_append]
          apply Entry.first?_cons
          rcases hdecided with ⟨hown, _⟩ | ⟨own, found, hown, _⟩
          · simp [hown]
          · simp [hown]
        · rcases hdecided with ⟨hown, hmatch⟩ | ⟨own, found, hown, hmatch, hanswers⟩
          · rw [hmatch]
            exact Or.inl ⟨hown, rfl⟩
          · rw [hmatch]
            refine Or.inr ⟨before, after, own, chunk, found, rfl, List.mem_cons_self .., hown,
              hbefore, ?_, hanswers⟩
            exact (Entry.of_build hpiece hchunk).2.2

end Chunk

end NamedRoutes
