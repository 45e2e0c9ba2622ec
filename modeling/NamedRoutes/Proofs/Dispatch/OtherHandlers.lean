import NamedRoutes.Dispatch
import NamedRoutes.Proofs.Chunk.Splitting
import NamedRoutes.Proofs.Store.Effect

/-!
Other handlers in the same places. A store never looks at handlers when it searches, so that a store
with other handlers finds the same route for a request, with the handler that stands in its place.
-/

namespace NamedRoutes

namespace OrderedMap

variable {κ α β : Type}

def map (f : α → β) (m : OrderedMap κ α) : OrderedMap κ β := ⟨m.entries.map (Prod.map id f)⟩

theorem get?_map [DecidableEq κ] (f : α → β) (m : OrderedMap κ α) (key : κ) :
    (m.map f).get? key = (m.get? key).map f := by
  obtain ⟨entries⟩ := m
  change (entries.map (Prod.map id f)).lookup key = (entries.lookup key).map f
  induction entries with
  | nil => rfl
  | cons entry rest ih =>
      obtain ⟨k, a⟩ := entry
      rw [List.map_cons, Prod.map_apply, id_eq, List.lookup_cons, List.lookup_cons, ih]
      cases key == k <;> rfl

theorem values_map (f : α → β) (m : OrderedMap κ α) : (m.map f).values = m.values.map f := by
  simp [values, map]

end OrderedMap

section

variable (f : Handler → Handler)

def Route.mapHandler (r : Route) : Route := { r with handler := f r.handler }

def RouteMatch.mapHandler (m : RouteMatch) : RouteMatch := { m with route := m.route.mapHandler f }

def RouteTable.mapHandlers (table : RouteTable) : RouteTable :=
  OrderedMap.map (OrderedMap.map (Route.mapHandler f)) table

def Alternative.mapHandlers (a : Alternative) : Alternative :=
  { a with routes := a.routes.map (Route.mapHandler f) }

def Chunk.mapHandlers (c : Chunk) : Chunk :=
  { c with alternatives := c.alternatives.map (Alternative.mapHandlers f) }

def ChunkedMatcher.mapHandlers (m : ChunkedMatcher) : ChunkedMatcher :=
  ⟨m.chunks.map (Chunk.mapHandlers f)⟩

def RouteStore.mapHandlers (s : RouteStore) : RouteStore :=
  { s with
    fixed := s.fixed.mapHandlers f, patterns := s.patterns.mapHandlers f
    names := s.names.map (Route.mapHandler f)
    matcher := s.matcher.map (ChunkedMatcher.mapHandlers f) }

/-- What an operation gives in a store with other handlers, if its value changes in a given way. -/
def Outcome.mapHandlers {α β : Type} (onValue : α → β) (outcome : Outcome α) : Outcome β :=
  ⟨onValue outcome.value, outcome.store.mapHandlers f, outcome.events⟩

end

variable {f : Handler → Handler}

theorem mapM_map {α β γ δ : Type} {first : α → Except Error β} {second : γ → Except Error δ}
    {g : α → γ} {h : β → δ}
    (hstep : ∀ a, second (g a) = (first a).map h) (items : List α) :
    (items.map g).mapM second = (items.mapM first).map (List.map h) := by
  induction items with
  | nil => rfl
  | cons item rest ih =>
      rw [List.map_cons, List.mapM_cons, List.mapM_cons, hstep, ih]
      cases first item with
      | error e => rfl
      | ok b => cases rest.mapM first <;> rfl

theorem RouteTable.find?_mapHandlers (table : RouteTable) (key : String) (method : Method) :
    (table.mapHandlers f).find? key method = (table.find? key method).map (Route.mapHandler f) := by
  unfold find? mapHandlers
  rw [OrderedMap.get?_map]
  cases table.get? key with
  | none => rfl
  | some routes => exact OrderedMap.get?_map _ _ _

namespace Chunk

theorem parameterCount_map (routes : OrderedMap Method Route) :
    parameterCount (routes.map (Route.mapHandler f)) = parameterCount routes := by
  unfold parameterCount
  rw [OrderedMap.values_map]
  cases routes.values <;> rfl

variable (entries : List (String × OrderedMap Method Route))

theorem layOut_map (base : Nat) :
    layOut base (entries.map (Prod.map id (OrderedMap.map (Route.mapHandler f)))) =
      (layOut base entries).map (Alternative.mapHandlers f) := by
  induction entries generalizing base with
  | nil => rfl
  | cons entry rest ih =>
      obtain ⟨regex, routes⟩ := entry
      rw [List.map_cons, Prod.map_apply, layOut, layOut, parameterCount_map, ih]
      rfl

theorem build_map : build (entries.map (Prod.map id (OrderedMap.map (Route.mapHandler f)))) =
    (build entries).map (Chunk.mapHandlers f) := by
  have hsource : source (entries.map (Prod.map id (OrderedMap.map (Route.mapHandler f)))) =
      source entries := by
    unfold source
    rw [List.map_map]
    rfl
  unfold build
  rw [hsource, layOut_map]
  cases Expression.compile (source entries) <;> rfl

theorem find?_mapHandlers (c : Chunk) (group : Nat) :
    (c.mapHandlers f).find? group = (c.find? group).map (Alternative.mapHandlers f) := by
  unfold find? mapHandlers
  rw [List.find?_map]
  rfl

end Chunk

namespace ChunkedMatcher

theorem build_mapHandlers (table : RouteTable) (size : Chunk.Size) :
    build (table.mapHandlers f) size = (build table size).map (ChunkedMatcher.mapHandlers f) := by
  have hentries : (table.mapHandlers f).entries =
      table.entries.map (Prod.map id (OrderedMap.map (Route.mapHandler f))) := rfl
  unfold build
  rw [hentries, Chunk.split_map]
  cases Chunk.split table.entries size with
  | error e => rfl
  | ok pieces =>
      have hpieces := mapM_map (Chunk.build_map (f := f)) pieces
      simp only [Except.map, bind, Except.bind, hpieces]
      cases pieces.mapM Chunk.build <;> rfl

theorem resolve_mapHandlers (method : Method) (chunk : Chunk) (found : Matched) :
    resolve method (chunk.mapHandlers f) found =
      (resolve method chunk found).map (RouteMatch.mapHandler f) := by
  unfold resolve
  rw [Chunk.find?_mapHandlers]
  cases chunk.find? found.lastGroup with
  | none => rfl
  | some alternative =>
      have hroute : (alternative.mapHandlers f).routes.get? method =
          (alternative.routes.get? method).map (Route.mapHandler f) := OrderedMap.get?_map _ _ _
      simp only [Option.map_some, bind, Option.bind, hroute]
      cases alternative.routes.get? method <;> rfl

theorem search_mapHandlers (method : Method) (path : String) (chunks : List Chunk) :
    search method path (chunks.map (Chunk.mapHandlers f)) =
      (search method path chunks).map (Option.map (RouteMatch.mapHandler f)) := by
  induction chunks with
  | nil => rfl
  | cons chunk rest ih =>
      have hexpression : (chunk.mapHandlers f).expression = chunk.expression := rfl
      rw [List.map_cons, search, search, hexpression, ih]
      cases chunk.expression.fullMatch? path with
      | error cause => rfl
      | ok result =>
          cases result with
          | none => rfl
          | some found => exact congrArg Except.ok (resolve_mapHandlers method chunk found)

end ChunkedMatcher

namespace RouteStore

variable (s : RouteStore)

theorem isOutdated_mapHandlers : (s.mapHandlers f).isOutdated = s.isOutdated := by
  unfold isOutdated mapHandlers
  cases s.matcher <;> rfl

theorem prepared_mapHandlers :
    (s.mapHandlers f).prepared =
      s.prepared.map (Outcome.mapHandlers f (ChunkedMatcher.mapHandlers f)) := by
  have houtdated := s.isOutdated_mapHandlers (f := f)
  cases hold : s.isOutdated with
  | true =>
      have hfresh : (s.mapHandlers f).freshMatcher =
          s.freshMatcher.map (ChunkedMatcher.mapHandlers f) :=
        ChunkedMatcher.build_mapHandlers s.patterns s.chunkSize
      have hsize : (s.mapHandlers f).patterns.size = s.patterns.size := List.length_map _
      rw [prepared_of_outdated _ (houtdated.trans hold), prepared_of_outdated s hold, hfresh, hsize]
      cases s.freshMatcher with
      | error e => rfl
      | ok matcher =>
          have hchunks : (matcher.mapHandlers f).size = matcher.size := List.length_map _
          simp only [Except.map, hchunks]
          rfl
  | false =>
      obtain ⟨m, hm, _, hprepared⟩ := prepared_of_not_outdated s hold
      obtain ⟨other, hother, _, hmapped⟩ := prepared_of_not_outdated _ (houtdated.trans hold)
      have hmatcher : (s.mapHandlers f).matcher = some (m.mapHandlers f) :=
        congrArg (Option.map _) hm
      obtain rfl := Option.some.inj (hmatcher.symm.trans hother)
      rw [hprepared, hmapped]
      rfl

theorem matchTrimmed_mapHandlers (method : Method) (path : String) :
    (s.mapHandlers f).matchTrimmed method path = (s.matchTrimmed method path).map
      (Outcome.mapHandlers f (Except.map (Option.map (RouteMatch.mapHandler f)))) := by
  have hfixed : (s.mapHandlers f).fixed.find? path method =
      (s.fixed.find? path method).map (Route.mapHandler f) := RouteTable.find?_mapHandlers _ _ _
  have hspace : (s.mapHandlers f).space = s.space := rfl
  unfold matchTrimmed
  rw [hfixed, hspace, prepared_mapHandlers]
  cases s.space.toList.isPrefixOf path.toList with
  | false => rfl
  | true =>
      cases s.fixed.find? path method with
      | some route => rfl
      | none =>
          cases s.prepared with
          | error e => rfl
          | ok outcome =>
              obtain ⟨matcher, store, events⟩ := outcome
              have hsearch := ChunkedMatcher.search_mapHandlers (f := f) method path matcher.chunks
              exact congrArg
                (fun value => Except.ok (⟨value, store.mapHandlers f, events⟩ : Outcome _)) hsearch

/-- What a search gives with other handlers. -/
theorem match?_mapHandlers (method path : Value) : (s.mapHandlers f).match? method path =
    (s.match? method path).map
      (Outcome.mapHandlers f (Except.map (Option.map (RouteMatch.mapHandler f)))) := by
  unfold match?
  cases Method.ofValue? method with
  | none => rfl
  | some known =>
      cases Candidate.checkPath path with
      | error e => rfl
      | ok text => exact s.matchTrimmed_mapHandlers known text

theorem lookUp_mapHandlers (request : Request) : (s.mapHandlers f).lookUp request =
    (s.lookUp request).map
      (Outcome.mapHandlers f (Except.map (Option.map (RouteMatch.mapHandler f)))) := by
  unfold lookUp
  rw [match?_mapHandlers]
  cases s.match? request.method request.path with
  | error e => rfl
  | ok outcome =>
      obtain ⟨value, store, events⟩ := outcome
      cases value with
      | error cause => rfl
      | ok found => cases found <;> rfl

end RouteStore

end NamedRoutes
