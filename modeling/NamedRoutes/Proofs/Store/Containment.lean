import NamedRoutes.Proofs.Pattern.Leading
import NamedRoutes.Proofs.Store.Extension

/-!
Which requests a store with a namespace answers. The first check of a request only compares
characters, so it is left to the patterns that a slash follows the namespace. They see to it unless
they give the slash up with an optional parameter: then the store answers a request outside its
namespace.
-/

namespace NamedRoutes

namespace Path

variable {space path : String}

theorem liesIn_of_append {rest : List Char} (h : path.toList = space.toList ++ rest)
    (hrest : rest = [] ∨ ∃ more, rest = '/' :: more) : LiesIn space path := by
  rcases hrest with rfl | ⟨more, rfl⟩
  · exact Or.inl (String.toList_inj.mp (by rw [h, List.append_nil]))
  · exact Or.inr ⟨more, by rw [h]; simp⟩

theorem not_liesIn_of_append {c : Char} {more : List Char}
    (h : path.toList = space.toList ++ c :: more) (hc : c ≠ '/') : ¬ LiesIn space path := by
  rintro (rfl | ⟨rest, hrest⟩)
  · simp at h
  · rw [h, String.toList_append, List.append_assoc] at hrest
    exact hc (List.cons.inj (List.append_cancel_left hrest)).1.symm

end Path

namespace LinearScan

variable {registered : List Route} {path : String} {p : RoutePattern}

/-- A path that a pattern matches is answered for some method, if every match can be reported. -/
theorem exists_searchPatterns {own : Matched}
    (hreports : ∀ q ∈ registered.filterMap Route.pattern?, ∀ cause,
      q.expression.fullMatch? path ≠ .error cause)
    (hp : p ∈ registered.filterMap Route.pattern?)
    (hmatch : p.expression.fullMatch? path = .ok (some own)) :
    ∃ method m, searchPatterns registered method path = .ok (some m) := by
  cases hdecider : decider? registered path with
  | none =>
      have hno := List.find?_eq_none.mp hdecider p hp
      rw [hmatch] at hno
      exact absurd rfl hno
  | some q =>
      obtain ⟨route, hroute, hq⟩ := RouteStore.decider?_mem hdecider
      have hends := List.find?_some hdecider
      obtain ⟨hdynamic, hkey, _⟩ := Route.key_of_pattern? hq
      have hat : route.isAt false q.regex route.method = true := by
        simp [Route.isAt, hdynamic, hkey]
      have hsome : (registered.find? (·.isAt false q.regex route.method)).isSome = true :=
        List.find?_isSome.mpr ⟨route, hroute, hat⟩
      obtain ⟨first, hfirst⟩ := Option.isSome_iff_exists.mp hsome
      cases hown : q.expression.fullMatch? path with
      | error cause =>
          exact absurd hown (hreports q (List.mem_filterMap.mpr ⟨route, hroute, hq⟩) cause)
      | ok found =>
          cases found with
          | none => simp [hown, endsSearch] at hends
          | some found =>
              refine ⟨route.method, ⟨first, found.parameters 0 first.parameterNames⟩, ?_⟩
              simp only [searchPatterns, hdecider, hown, Option.bind_some, resolve, hfirst,
                Option.map_some]

end LinearScan

namespace RouteStore

variable {start : RouteStore} {space path : String} {chunkSize : Chunk.Size} {p : RoutePattern}

/-- What is known of a registered pattern: it was compiled in the namespace of the store. -/
theorem assembled_of_registered (hstart : create space chunkSize = .ok start) {ops : List Operation}
    (hp : p ∈ (history (start.records ops)).filterMap Route.pattern?) :
    ∃ path t, p.Assembled start.space path t ∧ Piece.IsProper p.pieces ∧ p.IsCompiled := by
  obtain ⟨route, hroute, hp⟩ := List.mem_filterMap.mp hp
  obtain ⟨s, pending, c, hspace, hpasses⟩ := exists_passes ops hroute
  obtain ⟨cleaned, hcleaned, hfields⟩ := create_eq space chunkSize start hstart
  have hparse : Path.parseNamespace space = .ok s.space := by rw [hcleaned, hspace, hfields]
  obtain ⟨path, t, hassembled, hproper⟩ := hpasses.assembled hp hparse
  exact ⟨path, t, hspace ▸ hassembled, hproper, hpasses.sound p hp⟩

/-- The path of a registered route lies in the namespace. -/
theorem liesIn_of_registered {route : Route} (hspace : start.space ≠ "") {ops : List Operation}
    (h : route ∈ history (start.records ops)) : Path.LiesIn start.space route.path := by
  obtain ⟨s, pending, c, hsame, hpasses⟩ := exists_passes ops h
  rw [← hsame] at hspace ⊢
  exact hpasses.liesIn hspace

/-- What an answer with a route stands for, whatever the size of chunks: the fixed path of the
route, or a match of its pattern. -/
theorem Mirrors.answer_eq_some {s : RouteStore} {registered : List Route} (h : s.Mirrors registered)
    (hself : SelfContained registered) {method : Value} {m : RouteMatch}
    (hanswer : s.freshAnswer method (.text path) = .ok (some m)) :
    m.route ∈ registered ∧
    (m.route.target = .fixed (Path.trim path) ∨ m.IsRight (Path.trim path)) := by
  have hrefers := unreferring_of_selfContained h hself
  rcases freshAnswer_cases h hanswer with ⟨known, hfind⟩ | ⟨known, matcher, hmatcher, hsearch⟩
  · obtain ⟨hmem, hfixed, hkey⟩ := Route.of_find?_isAt hfind
    exact ⟨hmem, Or.inl (hkey ▸ Route.target_of_isFixed hfixed)⟩
  · obtain ⟨chunk, found, hdecision, hresolve⟩ := search_eq_some hsearch
    obtain ⟨q, before, e, after, own, hd⟩ := h.decidesAt hrefers hmatcher hdecision
    have hlast := hd.lastGroup_ne_zero h hself
    refine ⟨?_, Or.inr ((hd.isRight_iff h hresolve).mpr (Or.inl hlast))⟩
    rw [hd.resolve h hlast] at hresolve
    obtain ⟨route, hroute, rfl⟩ := Option.map_eq_some_iff.mp hresolve
    exact (Route.of_find?_isAt hroute).1

/-- Whether every answer with a route is one to a request in the namespace. -/
def AnswersWithin (s : RouteStore) : Prop := ∀ (method : Value) (path : String) (m : RouteMatch),
  (s.perform (.request method (.text path))).1.answer = .found (.ok (some m)) →
    Path.LiesIn s.space (Path.trim path)

/-- What a registered self-contained pattern matches starts with the namespace. Behind it there is a
slash or nothing, if the pattern keeps the slash. -/
theorem starts_with_of_match (hstart : create space chunkSize = .ok start) {ops : List Operation}
    (hself : SelfContained (history (start.records ops))) (hspace : start.space ≠ "")
    (hp : p ∈ (history (start.records ops)).filterMap Route.pattern?)
    (hmatch : p.expression.fullMatch? path ≠ .ok none) :
    ∃ rest, path.toList = start.space.toList ++ rest ∧
      (p.KeepsSlash start.space → rest = [] ∨ ∃ more, rest = '/' :: more) := by
  obtain ⟨_, _, hassembled, _, hcompiled⟩ := assembled_of_registered hstart hp
  exact hassembled.starts_with hcompiled (hself.parameters hp) hspace hmatch

/-- A store with a pattern that gives up the slash answers some request outside its namespace, if no
expression is written out. -/
theorem exists_answer_outside (hstart : create space chunkSize = .ok start)
    (hsize : chunkSize.IsOrdinary) {ops : List Operation} (hspace : start.space ≠ "")
    (hstock : ∀ q ∈ (history (start.records ops)).filterMap Route.pattern?,
      ∀ parameter ∈ q.parameters, ¬ parameter.IsCustom)
    (hp : p ∈ (history (start.records ops)).filterMap Route.pattern?)
    (hkeeps : ¬ p.KeepsSlash start.space) :
    ∃ (method : Value) (path : String) (m : RouteMatch),
      ((start.run ops).perform (.request method (.text path))).1.answer = .found (.ok (some m)) ∧
        ¬ Path.LiesIn start.space (Path.trim path) := by
  have hself : SelfContained (history (start.records ops)) :=
    fun q hq parameter hparameter hcustom =>
    absurd hcustom (hstock q hq parameter hparameter)
  obtain ⟨cleaned, hcleaned, hfields⟩ := create_eq space chunkSize start hstart
  have hparse : Path.parseNamespace space = .ok start.space := by rw [hcleaned, hfields]
  obtain ⟨_, _, hassembled, hproper, _⟩ := assembled_of_registered hstart hp
  obtain ⟨path, own, c, more, htrim, hmatch, htext, hc⟩ :=
    hassembled.exists_outside hproper hparse hspace (hstock p hp) hkeeps
  have houtside : ¬ Path.LiesIn start.space path := Path.not_liesIn_of_append htext hc
  have hreports := (mirrors_of_create hstart ops).reports hself
  obtain ⟨method, m, hfound⟩ :=
    LinearScan.exists_searchPatterns (fun q hq => hreports q hq path) hp hmatch
  have hfixed : (history (start.records ops)).find? (·.isAt true path method) = none := by
    refine List.find?_eq_none.mpr fun route hroute hat => houtside ?_
    simp only [Route.isAt, Bool.and_eq_true, beq_iff_eq] at hat
    have hlies := liesIn_of_registered hspace hroute
    unfold Route.path at hlies
    rwa [Route.target_of_isFixed hat.1.1, hat.1.2] at hlies
  have hprefix : start.space.toList.isPrefixOf path.toList = true :=
    List.isPrefixOf_iff_prefix.mpr ⟨_, htext.symm⟩
  refine ⟨.text method.name, path, m, ?_, htrim.symm ▸ houtside⟩
  have hknown : Method.ofValue? (.text method.name) = some method := by cases method <;> rfl
  rw [answer_refines hstart hsize ops hself]
  simp only [LinearScan.search, hknown, LinearScan.searchTrimmed, htrim, hprefix, hfixed, hfound,
    Bool.not_true, Bool.false_eq_true, if_false]

/-- A store answers only requests in its namespace if every registered pattern keeps the slash
behind it, as long as every placeholder has an expression that is one by itself. If no expression is
written out, it does so only then. -/
theorem answers_within_namespace (space : String) (chunkSize : Chunk.Size) (start : RouteStore)
    (hstart : create space chunkSize = .ok start) (hspace : start.space ≠ "") (ops : List Operation)
    (hself : SelfContained (history (start.records ops))) :
    ((∀ p ∈ (history (start.records ops)).filterMap Route.pattern?, p.KeepsSlash start.space) →
      (start.run ops).AnswersWithin) ∧
    (chunkSize.IsOrdinary →
      (∀ p ∈ (history (start.records ops)).filterMap Route.pattern?, ∀ q ∈ p.parameters,
        ¬ q.IsCustom) →
      (start.run ops).AnswersWithin →
        ∀ p ∈ (history (start.records ops)).filterMap Route.pattern?,
          p.KeepsSlash start.space) := by
  unfold AnswersWithin
  rw [(run_settings start ops).1]
  constructor
  · intro hkeeps method path m hfound
    rw [perform_answer _ (run_current space chunkSize start hstart ops)] at hfound
    obtain ⟨hmem, hfixed | ⟨p, own, hp, hmatch, _⟩⟩ :=
      (mirrors_of_create hstart ops).answer_eq_some hself (Answer.found.inj hfound)
    · have hlies := liesIn_of_registered hspace hmem
      unfold Route.path at hlies
      rwa [hfixed] at hlies
    · have hregistered := List.mem_filterMap.mpr ⟨m.route, hmem, hp⟩
      have hmatched : p.expression.fullMatch? (Path.trim path) ≠ .ok none := by
        rw [hmatch]
        exact fun hno => nomatch hno
      obtain ⟨rest, htext, hrest⟩ := starts_with_of_match hstart hself hspace hregistered hmatched
      exact Path.liesIn_of_append htext (hrest (hkeeps p hregistered))
  · intro hsize hstock hwithin p hp
    refine Decidable.byContradiction fun hkeeps => ?_
    obtain ⟨method, path, m, hfound, houtside⟩ :=
      exists_answer_outside hstart hsize hspace hstock hp hkeeps
    exact houtside (hwithin method path m hfound)

/-- A pattern that starts with an optional parameter and goes on without a slash. The parameter
takes the slash behind the namespace along. -/
def leakingPlan : List Operation :=
  [.add ⟨.text "GET", .text "{x}?b", .text "pair",
    .function (.mk "show" true false none none .arguments)⟩]

theorem answer_can_lie_outside : ¬ ∀ (space : String) (chunkSize : Chunk.Size) (start : RouteStore),
    create space chunkSize = .ok start → start.space ≠ "" →
      ∀ ops : List Operation, (start.run ops).AnswersWithin := by
  intro h
  let start : RouteStore := { space := "api", chunkSize := .whole 10 }
  have hcreate : create "api" (.whole 10) = .ok start := rfl
  have hwithin : (start.run leakingPlan).AnswersWithin :=
    h "api" (.whole 10) start hcreate (by decide) leakingPlan
  have hsome : ((start.run leakingPlan).perform
      (.request (.text "GET") (.text "/apib"))).1.answer.match?.isSome = true := by decide +kernel
  obtain ⟨m, hm⟩ := Option.isSome_iff_exists.mp hsome
  have hlies : Path.LiesIn (start.run leakingPlan).space (Path.trim "/apib") :=
    hwithin (.text "GET") "/apib" m (Answer.eq_found hm)
  have hspace : (start.run leakingPlan).space = "api" := (run_settings start leakingPlan).1
  have htrim : (Path.trim "/apib").toList = "api".toList ++ 'b' :: [] := by decide +kernel
  rw [hspace] at hlies
  exact Path.not_liesIn_of_append htrim (by decide) hlies

def keepingPlan : List Operation :=
  let handler : Output := .function (.mk "show" true false none none .arguments)
  [.add ⟨.text "GET", .text "/{lang:a}?/posts/", .text "posts", handler⟩,
    .request (.text "GET") (.text "/v/posts/"),
    .addAll [⟨.text "GET", .text "/about/", .text "about", handler⟩,
      ⟨.text "GET", .text "{year:(?:1|2)[0-9]+}?/{page:i}?", .text "archive", handler⟩]]

theorem answers_within_namespace_for_keeping_plan :
    let start : RouteStore := { space := "v", chunkSize := .whole 10 }
    create "/v/" (.whole 10) = .ok start ∧ start.space ≠ "" ∧
    SelfContained (history (start.records keepingPlan)) ∧
    (∀ p ∈ (history (start.records keepingPlan)).filterMap Route.pattern?,
      p.KeepsSlash start.space) ∧
    (start.run keepingPlan).AnswersWithin ∧
    ((start.run keepingPlan).perform
      (.request (.text "GET") (.text "/v/2024/"))).1.answer.match?.map
      (fun m => (m.route.name, m.parameters)) = some ("archive", [("year", "2024")]) := by
  intro start
  have hcreate : create "/v/" (.whole 10) = .ok start := rfl
  have hspace : start.space ≠ "" := by decide
  have hfacts : SelfContained (history (start.records keepingPlan)) ∧
      (∀ p ∈ (history (start.records keepingPlan)).filterMap Route.pattern?,
        p.KeepsSlash start.space) ∧
      ((start.run keepingPlan).perform
        (.request (.text "GET") (.text "/v/2024/"))).1.answer.match?.map
        (fun m => (m.route.name, m.parameters)) = some ("archive", [("year", "2024")]) := by
      decide +kernel
  obtain ⟨hself, hkeeps, hfound⟩ := hfacts
  have hwithin : (start.run keepingPlan).AnswersWithin :=
    (answers_within_namespace "/v/" (.whole 10) start hcreate hspace keepingPlan hself).1 hkeeps
  exact ⟨hcreate, hspace, hself, hkeeps, hwithin, hfound⟩

end RouteStore

end NamedRoutes
