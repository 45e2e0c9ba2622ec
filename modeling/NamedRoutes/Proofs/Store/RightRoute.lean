import NamedRoutes.Proofs.Store.Refinement

/-!
Which matches are right. A route that answers with a pattern is right if its pattern by itself
matches the path and gives the parameters. A chunk is told apart by the group that was closed last;
a match that has closed no group is taken for one of the first pattern, which is wrong if it comes
from another.
-/

namespace NamedRoutes

open Regex

/-- Whether the pattern of the route by itself matches the path, with the same parameters. -/
def RouteMatch.IsRight (m : RouteMatch) (path : String) : Prop :=
  ∃ p own, m.route.pattern? = some p ∧ p.expression.fullMatch? path = .ok (some own) ∧
    m.parameters = own.parameters 0 p.names

/-- The pattern of the route by itself decides whether a match is right. -/
theorem RouteMatch.isRight_iff (m : RouteMatch) (path : String) :
    m.IsRight path ↔ (m.route.pattern?.any fun p =>
      match p.expression.fullMatch? path with
      | .ok (some own) => m.parameters == own.parameters 0 p.names
      | _ => false) = true := by
  unfold IsRight
  cases m.route.pattern? with
  | none => simp
  | some p =>
      simp only [Option.some.injEq, Option.any_some]
      constructor
      · rintro ⟨q, own, rfl, hmatch, hparameters⟩
        simp [hmatch, hparameters]
      · intro h
        cases hmatch : p.expression.fullMatch? path with
        | error cause => simp [hmatch] at h
        | ok result =>
            cases result with
            | none => simp [hmatch] at h
            | some own => exact ⟨p, own, rfl, hmatch, by simpa [hmatch] using h⟩

instance (m : RouteMatch) (path : String) : Decidable (m.IsRight path) :=
  decidable_of_iff _ (m.isRight_iff path).symm

def Answer.match? : Answer → Option RouteMatch
  | .found (.ok m) => m
  | _ => none

theorem Answer.eq_found {a : Answer} {m : RouteMatch} (h : a.match? = some m) :
    a = .found (.ok (some m)) := by
  unfold match? at h
  split at h
  · rw [h]
  · cases h

/-- Whether the first pattern of a chunk matches a path by itself. -/
def Chunk.FirstEnds (chunk : Chunk) (path : String) : Prop :=
  ∃ first, chunk.alternatives.head? = some first ∧ ∀ route ∈ first.routes.values,
    ∀ p, route.pattern? = some p → endsSearch (p.expression.fullMatch? path) = true

namespace RouteStore

/-- Whether the match that decides for a path tells which pattern it comes from. It does if it has
closed a group, and also if it comes from the first pattern of its chunk. -/
def TellsPattern (s : RouteStore) (path : String) : Prop :=
  ∃ m chunk found, s.freshMatcher = .ok m ∧
    ChunkedMatcher.decision? path m.chunks = .ok (some (chunk, found)) ∧
    (found.lastGroup ≠ 0 ∨ chunk.FirstEnds path)

variable {s : RouteStore} {registered : List Route} {path : String}

theorem Lists.isRight {e : Chunk.Entry} (he : s.Lists registered e) (h : s.Mirrors registered)
    {route : Route} (hroute : route ∈ e.routes.values)
    {own : Matched} (hown : e.part.ownMatch? path = .ok (some own)) :
    (⟨route, own.parameters 0 route.parameterNames⟩ : RouteMatch).IsRight path := by
  obtain ⟨p, hp, hnames, hstands⟩ := he.pattern_of_mem h hroute
  rw [hstands.own] at hown
  exact ⟨p, own, hp, hown, by rw [hnames]⟩

theorem Lists.not_isRight {e : Chunk.Entry} (he : s.Lists registered e) (h : s.Mirrors registered)
    {route : Route} (hroute : route ∈ e.routes.values)
    (hown : e.part.ownMatch? path = .ok none) (parameters : List (String × String)) :
    ¬ (⟨route, parameters⟩ : RouteMatch).IsRight path := by
  obtain ⟨p, hp, _, hstands⟩ := he.pattern_of_mem h hroute
  rw [hstands.own] at hown
  rintro ⟨q, own, hq, hmatch, _⟩
  obtain rfl := Option.some.inj (hp.symm.trans hq)
  rw [hown] at hmatch
  cases hmatch

/-- A match that has closed no group is taken for one of the first entry. -/
theorem resolve_zero {first : Chunk.Entry} {rest : List Chunk.Entry} {chunk : Chunk}
    {found : Matched}
    (hchunk : chunk.alternatives = Chunk.layOut 0 ((first :: rest).map Chunk.Entry.pair))
    (hlast : found.lastGroup = 0) (method : Method) :
    ChunkedMatcher.resolve method chunk found = (first.routes.get? method).map fun route =>
      ⟨route, found.parameters 0 route.parameterNames⟩ := by
  have hfind : chunk.find? found.lastGroup =
      some ⟨0, 0 + first.part.count + 1, first.routes⟩ := by
    unfold Chunk.find?
    rw [hchunk, hlast]
    exact Chunk.Entry.find?_layOut_zero first rest 0
  unfold ChunkedMatcher.resolve
  rw [hfind]
  cases hroute : first.routes.get? method with
  | none => simp [hroute]
  | some route => simp [hroute]

theorem firstEnds_of_head {first : Chunk.Entry} {rest : List Chunk.Entry} {chunk : Chunk}
    (hchunk : chunk.alternatives = Chunk.layOut 0 ((first :: rest).map Chunk.Entry.pair)) :
    chunk.FirstEnds path ↔ ∀ route ∈ first.routes.values,
      ∀ p, route.pattern? = some p → endsSearch (p.expression.fullMatch? path) = true := by
  unfold Chunk.FirstEnds
  rw [hchunk]
  constructor
  · rintro ⟨_, hfirst, hends⟩
    cases hfirst
    exact hends
  · exact fun hends => ⟨_, rfl, hends⟩

/-- The route that a chunk leads to is right if and only if the match tells which pattern it comes
from. -/
theorem DecidesAt.isRight_iff {p : RoutePattern} {before after : List Chunk.Entry}
    {e : Chunk.Entry} {own found : Matched} {chunk : Chunk}
    (hd : s.DecidesAt registered path p before e after own chunk found)
    (h : s.Mirrors registered) {method : Method}
    {m : RouteMatch} (hm : ChunkedMatcher.resolve method chunk found = some m) :
    m.IsRight path ↔ found.lastGroup ≠ 0 ∨ chunk.FirstEnds path := by
  have hmatching := hd.decides.matching
  by_cases hlast : found.lastGroup = 0
  · cases before with
    | nil =>
        -- The match comes from the first pattern, so that it is taken for what it is.
        have he := hd.lists e (List.mem_cons_self ..)
        rw [resolve_zero hd.decides.alternatives hlast] at hm
        obtain ⟨route, hroute, rfl⟩ := Option.map_eq_some_iff.mp hm
        have hmem := OrderedMap.mem_values_of_get? hroute
        have hlength := he.length_parameterNames h hmem
        have hparameters := Chunk.Entry.parameters_eq hd.decides.answers route.parameterNames 0
          (by omega)
        change found.parameters 0 _ = _ at hparameters
        rw [hparameters]
        refine iff_of_true (he.isRight h hmem hmatching) (Or.inr ?_)
        apply (firstEnds_of_head hd.decides.alternatives).mpr
        intro other hother q hq
        obtain ⟨q', hq', _, hstands'⟩ := he.pattern_of_mem h hother
        obtain rfl := Option.some.inj (hq'.symm.trans hq)
        rw [← hstands'.own, hmatching]
        rfl
    | cons first rest =>
        -- The first pattern has been tried before, and does not match.
        have hfirst := hd.lists first (List.mem_cons_self ..)
        have hpassed := hd.decides.passed first (List.mem_cons_self ..)
        rw [resolve_zero hd.decides.alternatives hlast] at hm
        obtain ⟨route, hroute, rfl⟩ := Option.map_eq_some_iff.mp hm
        have hmem := OrderedMap.mem_values_of_get? hroute
        refine iff_of_false (hfirst.not_isRight h hmem hpassed _) ?_
        rintro (hclosed | hends)
        · exact hclosed hlast
        · obtain ⟨q, hq, _, hstands⟩ := hfirst.pattern_of_mem h hmem
          have hother := (firstEnds_of_head hd.decides.alternatives).mp hends route hmem q hq
          rw [← hstands.own, hpassed] at hother
          cases hother
  · have he := hd.lists e (List.mem_append_right _ (List.mem_cons_self ..))
    rw [Chunk.Entry.resolve_eq hd.decides.alternatives hd.decides.answers hlast method
      fun route hroute => Nat.le_of_eq (he.length_parameterNames h
        (OrderedMap.mem_values_of_get? hroute))] at hm
    obtain ⟨route, hroute, rfl⟩ := Option.map_eq_some_iff.mp hm
    exact iff_of_true (he.isRight h (OrderedMap.mem_values_of_get? hroute) hmatching)
      (Or.inl hlast)

theorem search_eq_some {method : Method} {chunks : List Chunk} {m : RouteMatch}
    (h : ChunkedMatcher.search method path chunks = .ok (some m)) :
    ∃ chunk found, ChunkedMatcher.decision? path chunks = .ok (some (chunk, found)) ∧
      ChunkedMatcher.resolve method chunk found = some m := by
  rw [ChunkedMatcher.search_eq] at h
  cases hdecision : ChunkedMatcher.decision? path chunks with
  | error cause =>
      rw [hdecision] at h
      cases h
  | ok decision =>
      rw [hdecision] at h
      cases decision with
      | none => cases h
      | some pair => exact ⟨pair.1, pair.2, rfl, Except.ok.inj h⟩

/-- An answer with a route comes from the fixed paths or from the matcher. -/
theorem freshAnswer_cases (h : s.Mirrors registered) {method : Value} {m : RouteMatch}
    (hanswer : s.freshAnswer method (.text path) = .ok (some m)) :
    (∃ known, registered.find? (·.isAt true (Path.trim path) known) = some m.route) ∨
    ∃ known matcher, s.freshMatcher = .ok matcher ∧
      matcher.match? known (Path.trim path) = .ok (some m) := by
  unfold freshAnswer at hanswer
  cases hmethod : Method.ofValue? method with
  | none =>
      simp only [hmethod] at hanswer
      cases hanswer
  | some known =>
      simp only [hmethod] at hanswer
      change s.freshTrimmed known (Path.trim path) = _ at hanswer
      unfold freshTrimmed at hanswer
      cases hspace : s.space.toList.isPrefixOf (Path.trim path).toList with
      | false =>
          rw [hspace] at hanswer
          cases hanswer
      | true =>
          have hfixed := h.find true (Path.trim path) known
          change s.fixed.find? (Path.trim path) known = _ at hfixed
          cases hfind : s.fixed.find? (Path.trim path) known with
          | some route =>
              rw [hspace, hfind] at hanswer
              cases hanswer
              exact Or.inl ⟨known, hfixed.symm.trans hfind⟩
          | none =>
              rw [hspace, hfind] at hanswer
              change (s.freshMatcher >>= fun matcher => _) = _ at hanswer
              cases hmatcher : s.freshMatcher with
              | error e =>
                  rw [hmatcher] at hanswer
                  cases hanswer
              | ok matcher =>
                  rw [hmatcher] at hanswer
                  exact Or.inr ⟨known, matcher, rfl, hanswer⟩

/-- An answer with a pattern comes from the matcher. -/
theorem search_of_freshAnswer (h : s.Mirrors registered) {method : Value} {m : RouteMatch}
    (hanswer : s.freshAnswer method (.text path) = .ok (some m))
    (hdynamic : m.route.isFixed = false) :
    ∃ known matcher, s.freshMatcher = .ok matcher ∧
      matcher.match? known (Path.trim path) = .ok (some m) := by
  refine (freshAnswer_cases h hanswer).resolve_left fun ⟨known, hfind⟩ => ?_
  have hat := List.find?_some hfind
  simp only [Route.isAt, Bool.and_eq_true, beq_iff_eq] at hat
  rw [hat.1.1] at hdynamic
  cases hdynamic

/-- What a matcher finds is where the linear scan ends. -/
theorem Mirrors.decidesAt (h : s.Mirrors registered) (hrefers : Unreferring registered)
    {matcher : ChunkedMatcher} (hmatcher : s.freshMatcher = .ok matcher) {chunk : Chunk}
    {found : Matched}
    (hdecision : ChunkedMatcher.decision? path matcher.chunks = .ok (some (chunk, found))) :
    ∃ p before e after own, s.DecidesAt registered path p before e after own chunk found := by
  obtain ⟨entries, pieces, hcomprises⟩ := h.comprises hrefers hmatcher
  rcases (Chunk.split_eq_ok hcomprises.split).1 with rfl | hflatten
  · have hnone : [] = matcher.chunks := Except.ok.inj hcomprises.built
    rw [← hnone] at hdecision
    cases hdecision
  · rcases hcomprises.agrees h hflatten path with
      ⟨_, hnone⟩ | ⟨p, _, ⟨_, hreversed⟩ | ⟨before, e, after, own, chunk', found', hfound, hd⟩⟩
    · rw [hnone] at hdecision
      cases hdecision
    · rw [hreversed] at hdecision
      cases hdecision
    · rw [hfound] at hdecision
      cases hdecision
      exact ⟨p, before, e, after, own, hd⟩

/-- As long as no registered pattern refers to a group, a route that answers with its pattern is
right if and only if the match tells which pattern it comes from. It always does if every
placeholder has an expression that is one by itself. -/
theorem found_route_isRight_iff (space : String) (chunkSize : Chunk.Size) (start : RouteStore)
    (hstart : create space chunkSize = .ok start) (ops : List Operation)
    (hrefers : Unreferring (history (start.records ops))) (method : Value) (path : String)
    (m : RouteMatch)
    (hfound : ((start.run ops).perform (.request method (.text path))).1.answer =
      .found (.ok (some m)))
    (hdynamic : m.route.isFixed = false) :
    (m.IsRight (Path.trim path) ↔ (start.run ops).TellsPattern (Path.trim path)) ∧
      (SelfContained (history (start.records ops)) → m.IsRight (Path.trim path)) := by
  have h := mirrors_of_create hstart ops
  rw [perform_answer _ (run_current space chunkSize start hstart ops)] at hfound
  obtain ⟨known, matcher, hmatcher, hsearch⟩ :=
    search_of_freshAnswer h (Answer.found.inj hfound) hdynamic
  obtain ⟨chunk, found, hdecision, hresolve⟩ := search_eq_some hsearch
  obtain ⟨p, before, e, after, own, hd⟩ := h.decidesAt hrefers hmatcher hdecision
  have hright := hd.isRight_iff h hresolve
  constructor
  · rw [hright]
    constructor
    · exact fun htells => ⟨matcher, chunk, found, hmatcher, hdecision, htells⟩
    · rintro ⟨matcher', chunk', found', hmatcher', hdecision', htells⟩
      obtain rfl := Except.ok.inj (hmatcher.symm.trans hmatcher')
      rw [hdecision] at hdecision'
      cases hdecision'
      exact htells
  · intro hself
    exact hright.mpr (Or.inl (hd.lastGroup_ne_zero h hself))

/-- Two patterns in one chunk. The expression of the second placeholder closes its parenthesis and
opens another one, so that the pattern has three alternatives, and the one in the middle closes no
group. -/
def oddPlan : List Operation :=
  let handler : Output := .function (.mk "show" true false none none .arguments)
  [.add ⟨.text "GET", .text "u/{id:i}", .text "user", handler⟩,
    .add ⟨.text "GET", .text "x/{n:a)|b|(?:c}", .text "odd", handler⟩]

def oddStart : RouteStore := { space := "", chunkSize := .whole 10 }

theorem odd_route_is_wrong :
    ∃ m, ((oddStart.run oddPlan).perform (.request (.text "GET") (.text "b"))).1.answer =
        .found (.ok (some m)) ∧ m.route.isFixed = false ∧ ¬ m.IsRight (Path.trim "b") := by
  have hwrong : (((oddStart.run oddPlan).perform
      (.request (.text "GET") (.text "b"))).1.answer.match?.any fun m =>
        !m.route.isFixed && !decide (m.IsRight (Path.trim "b"))) = true := by
    decide +kernel
  obtain ⟨m, hm, hprops⟩ := (Option.any_eq_true _ _).mp hwrong
  simp only [Bool.and_eq_true, Bool.not_eq_true', decide_eq_false_iff_not] at hprops
  exact ⟨m, Answer.eq_found hm, hprops.1, hprops.2⟩

theorem found_route_can_be_wrong : ¬ ∀ (space : String) (chunkSize : Chunk.Size)
    (start : RouteStore), create space chunkSize = .ok start →
    ∀ (ops : List Operation) (method : Value) (path : String) (m : RouteMatch),
      ((start.run ops).perform (.request method (.text path))).1.answer = .found (.ok (some m)) →
      m.route.isFixed = false → m.IsRight (Path.trim path) := by
  intro hclaim
  have hcreate : create "" (.whole 10) = .ok oddStart := rfl
  obtain ⟨m, hanswer, hdynamic, hwrong⟩ := odd_route_is_wrong
  exact hwrong (hclaim "" (.whole 10) oddStart hcreate oddPlan (.text "GET") "b" m hanswer hdynamic)

theorem found_route_isRight_iff_for_odd_plan :
    create "" (.whole 10) = .ok oddStart ∧ Unreferring (history (oddStart.records oddPlan)) ∧
    ∃ m, ((oddStart.run oddPlan).perform (.request (.text "GET") (.text "b"))).1.answer =
        .found (.ok (some m)) ∧ m.route.isFixed = false ∧
      ¬ m.IsRight (Path.trim "b") ∧ ¬ (oddStart.run oddPlan).TellsPattern (Path.trim "b") := by
  have hcreate : create "" (.whole 10) = .ok oddStart := rfl
  have hrefers : Unreferring (history (oddStart.records oddPlan)) := by decide +kernel
  obtain ⟨m, hanswer, hdynamic, hwrong⟩ := odd_route_is_wrong
  have hiff := (found_route_isRight_iff "" (.whole 10) oddStart hcreate oddPlan hrefers
    (.text "GET") "b" m hanswer hdynamic).1
  exact ⟨hcreate, hrefers, m, hanswer, hdynamic, hwrong, fun htells => hwrong (hiff.mpr htells)⟩

end RouteStore

end NamedRoutes
