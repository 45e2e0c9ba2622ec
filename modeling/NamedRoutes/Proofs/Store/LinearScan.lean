import Mathlib.Data.List.Find
import NamedRoutes.Proofs.Chunk.Search
import NamedRoutes.Proofs.Store.PatternTable

/-!
The answer to a request as a linear scan of the registered routes finds it: a fixed path first, then
the patterns one by one in the order of their registration, each matched by itself. The first
pattern that matches decides alone.
-/

namespace NamedRoutes

open Regex

namespace LinearScan

/-- The first registered pattern that ends a search. -/
def decider? (registered : List Route) (path : String) : Option RoutePattern :=
  (registered.filterMap Route.pattern?).find? fun p => endsSearch (p.expression.fullMatch? path)

/-- The route registered for a pattern and a method, with the parameters of a match. -/
def resolve (registered : List Route) (method : Method) (p : RoutePattern) (own : Matched) :
    Option RouteMatch :=
  (registered.find? (·.isAt false p.regex method)).map fun route =>
    ⟨route, own.parameters 0 route.parameterNames⟩

/-- The answer of the patterns. A match that cannot be reported is an error. -/
def searchPatterns (registered : List Route) (method : Method) (path : String) :
    Except Error (Option RouteMatch) :=
  match decider? registered path with
  | none => .ok none
  | some p =>
      match p.expression.fullMatch? path with
      | .error cause => .error (.badMatch cause)
      | .ok found => .ok (found.bind (resolve registered method p))

def searchTrimmed (space : String) (registered : List Route) (method : Method) (path : String) :
    Except Error (Option RouteMatch) :=
  if !space.toList.isPrefixOf path.toList then .ok none
  else match registered.find? (·.isAt true path method) with
    | some route => .ok (some ⟨route, []⟩)
    | none => searchPatterns registered method path

/-- The answer to a request. -/
def search (space : String) (registered : List Route) (method : Value) (path : String) :
    Except Error (Option RouteMatch) :=
  match Method.ofValue? method with
  | none => .ok none
  | some method => searchTrimmed space registered method (Path.trim path)

end LinearScan

namespace RouteStore

/-- Whether the pattern with a text ends a search. -/
def textEnds (path text : String) : Bool :=
  match Expression.compile ("^" ++ text ++ "$") with
  | .ok expression => endsSearch (expression.fullMatch? path)
  | .error _ => false

theorem textEnds_regex {p : RoutePattern} (hp : p.IsCompiled) (path : String) :
    textEnds path p.regex = endsSearch (p.expression.fullMatch? path) := by
  unfold textEnds
  rw [hp.expression]

theorem text_first? {s : RouteStore} {registered : List Route} {entries : List Chunk.Entry}
    (h : s.Mirrors registered) (hentries : ∀ e ∈ entries, s.Lists registered e) (path : String) :
    (Chunk.Entry.first? path entries).map (·.pair.1) =
      (entries.map (·.pair.1)).find? (textEnds path) := by
  rw [List.find?_map]
  apply congrArg
  apply List.find?_congr
  intro e he
  obtain ⟨route, hroute, p, hp, hstands⟩ := (hentries e he).pattern
  rw [Function.comp_apply, hstands.text, textEnds_regex (h.sound route hroute p hp), hstands.own]

theorem text_decider? {registered : List Route} (h : ∀ route ∈ registered, route.IsSound)
    (path : String) : (LinearScan.decider? registered path).map (·.regex) =
      ((registered.filterMap Route.pattern?).map (·.regex)).find? (textEnds path) := by
  rw [List.find?_map]
  apply congrArg
  apply List.find?_congr
  intro p hp
  obtain ⟨route, hroute, hpattern⟩ := List.mem_filterMap.mp hp
  rw [Function.comp_apply, textEnds_regex (h route hroute p hpattern)]

/-- The first entry of the pattern table that ends a search is the first registered pattern that
does. -/
theorem Mirrors.first? {s : RouteStore} {registered : List Route} {entries : List Chunk.Entry}
    (h : s.Mirrors registered) (htable : entries.map Chunk.Entry.pair = s.patterns.entries)
    (hentries : ∀ e ∈ entries, s.Lists registered e) (path : String) :
    (Chunk.Entry.first? path entries).map (·.pair.1) =
      (LinearScan.decider? registered path).map (·.regex) := by
  rw [text_first? h hentries, text_decider? h.sound, ← h.order]
  have hkeys : entries.map (·.pair.1) = s.patterns.keys := by
    unfold OrderedMap.keys
    rw [← htable, List.map_map]
    rfl
  rw [hkeys]

end RouteStore

end NamedRoutes
