import NamedRoutes.Proofs.Pattern.ReportedMatch
import NamedRoutes.Proofs.Store.Decision
import NamedRoutes.Proofs.Store.LazyMatcher

/-!
Matching refines the linear scan. As long as every placeholder has an expression that is one by
itself, each pattern can be pasted anywhere, so that chunks are always built, every match closes a
group and can be reported, and requests are answered as by the linear scan, whatever the size of
chunks.
-/

namespace NamedRoutes

/-- A scan of patterns whose matches can be reported gives an answer. -/
theorem LinearScan.exists_search {registered : List Route}
    (hreports : ∀ p ∈ registered.filterMap Route.pattern?, ∀ path cause,
      p.expression.fullMatch? path ≠ .error cause) (space : String) (method : Value)
      (path : String) :
    ∃ found, search space registered method path = .ok found := by
  unfold search
  cases Method.ofValue? method with
  | none => exact ⟨none, rfl⟩
  | some known =>
      simp only [searchTrimmed]
      split
      · exact ⟨none, rfl⟩
      · split
        · exact ⟨_, rfl⟩
        · unfold searchPatterns
          cases hdecider : decider? registered (Path.trim path) with
          | none => exact ⟨none, rfl⟩
          | some p =>
              cases hmatch : p.expression.fullMatch? (Path.trim path) with
              | error cause =>
                  exact absurd hmatch (hreports p (List.mem_of_find?_eq_some hdecider) _ cause)
              | ok found => exact ⟨found.bind (resolve registered known p), by simp only [hmatch]⟩

namespace RouteStore

open Regex

/-- Whether every expression that someone wrote for a placeholder is one by itself. -/
def SelfContained (registered : List Route) : Prop :=
  ∀ p ∈ registered.filterMap Route.pattern?, ∀ q ∈ p.parameters, q.IsCustom → q.IsSelfContained

instance (registered : List Route) : Decidable (SelfContained registered) :=
  inferInstanceAs (Decidable (∀ _ ∈ _, _))

variable {s t : RouteStore} {registered : List Route} {m : ChunkedMatcher}

/-- Then all expressions are, those that nobody wrote included. -/
theorem SelfContained.parameters (h : SelfContained registered) {p : RoutePattern}
    (hp : p ∈ registered.filterMap Route.pattern?) : ∀ q ∈ p.parameters, q.IsSelfContained := by
  intro q hq
  by_cases hcustom : q.IsCustom
  · exact h p hp q hq hcustom
  · exact Parameter.isSelfContained_of_not_isCustom hcustom

theorem reads_of_mirrors (h : s.Mirrors registered) (hself : SelfContained registered)
    {route : Route} (hroute : route ∈ registered) {p : RoutePattern}
    (hp : route.pattern? = some p) :
    Reader.Reads p.regex.toList p.names.length :=
  RoutePattern.reads_of_selfContained (h.sound route hroute p hp)
    (hself.parameters (List.mem_filterMap.mpr ⟨route, hroute, hp⟩))

/-- Every match of a registered pattern can be reported. -/
theorem Mirrors.reports (h : s.Mirrors registered) (hself : SelfContained registered) :
    ∀ p ∈ registered.filterMap Route.pattern?, ∀ path cause,
      p.expression.fullMatch? path ≠ .error cause := by
  intro p hp path cause
  obtain ⟨route, hroute, hpattern⟩ := List.mem_filterMap.mp hp
  exact RoutePattern.fullMatch?_ne_error (h.sound route hroute p hpattern)
    (hself.parameters hp) path cause

theorem unreferring_of_selfContained (h : s.Mirrors registered)
    (hself : SelfContained registered) : Unreferring registered := by
  intro p hmem
  obtain ⟨route, hroute, hp⟩ := List.mem_filterMap.mp hmem
  exact RoutePattern.refers_of_reads (h.sound route hroute p hp)
    (reads_of_mirrors h hself hroute hp)

theorem Lists.reads {e : Chunk.Entry} (he : s.Lists registered e) (h : s.Mirrors registered)
    (hself : SelfContained registered) : Reader.Reads e.part.text e.part.count := by
  obtain ⟨route, hroute, p, hp, hstands⟩ := he.pattern
  have htext := congrArg String.toList hstands.text
  simp only [Chunk.Entry.pair, String.toList_ofList] at htext
  rw [htext, hstands.count]
  exact reads_of_mirrors h hself hroute hp

/-- The matcher can be built, and its pieces make up the table. -/
theorem exists_comprises (h : s.Mirrors registered) (hself : SelfContained registered)
    (hsize : s.chunkSize.IsOrdinary) : ∃ m entries pieces, s.freshMatcher = .ok m ∧
      s.Comprises registered m entries pieces ∧ pieces.flatten = entries := by
  obtain ⟨entries, htable, hlists⟩ := h.exists_entries (unreferring_of_selfContained h hself)
  obtain ⟨pieces, hsplit, hflatten, hnonempty⟩ := Chunk.split_of_isOrdinary hsize entries
  obtain ⟨chunks, hchunks⟩ := Chunk.exists_mapM (f := Chunk.build)
    (pieces.map (List.map Chunk.Entry.pair)) fun item hitem => by
      obtain ⟨piece, hpiece, rfl⟩ := List.mem_map.mp hitem
      refine Chunk.Entry.exists_build (hnonempty piece hpiece) fun e he => ?_
      have hmem : e ∈ entries := hflatten ▸ List.mem_flatten.mpr ⟨piece, hpiece, he⟩
      exact (hlists e hmem).reads h hself
  refine ⟨⟨chunks⟩, entries, pieces, ?_, ⟨htable, hlists, hsplit, hchunks⟩, hflatten⟩
  unfold freshMatcher ChunkedMatcher.build
  rw [← htable, Chunk.split_map, hsplit]
  simp only [Except.map, bind, Except.bind, hchunks]
  rfl

/-- A pattern that can be pasted anywhere closes a group of its chunk whenever it matches. -/
theorem DecidesAt.lastGroup_ne_zero {path : String} {p : RoutePattern}
    {before after : List Chunk.Entry} {e : Chunk.Entry} {own found : Matched} {chunk : Chunk}
    (hd : s.DecidesAt registered path p before e after own chunk found)
    (h : s.Mirrors registered) (hself : SelfContained registered) : found.lastGroup ≠ 0 := by
  have he := hd.lists e (List.mem_append_right _ (List.mem_cons_self ..))
  exact hd.decides.answers.single (e.part.own.single (he.reads h hself))

theorem matcher_refines (h : s.Mirrors registered) (hself : SelfContained registered)
    (hsize : s.chunkSize.IsOrdinary) (method : Method) (path : String) :
    (s.freshMatcher >>= fun m => m.match? method path) =
      LinearScan.searchPatterns registered method path := by
  have hrefers := unreferring_of_selfContained h hself
  obtain ⟨m, entries, pieces, hm, hcomprises, hflatten⟩ := exists_comprises h hself hsize
  rw [hm]
  change ChunkedMatcher.search method path m.chunks = _
  rw [ChunkedMatcher.search_eq]
  unfold LinearScan.searchPatterns
  rcases hcomprises.agrees h hflatten path with
    ⟨hnone, hdecision⟩ | ⟨p, hp, ⟨hreversed, hdecision⟩ | ⟨before, e, after, own, chunk, found,
      hdecision, hd⟩⟩
  · rw [hnone, hdecision]
    rfl
  · simp only [hp, hdecision, hreversed]
    rfl
  · have hresolve := hd.resolve h (hd.lastGroup_ne_zero h hself) method
    simp only [hp, hdecision, hd.matching]
    exact congrArg Except.ok hresolve

/-- A store answers as the linear scan of what was registered in it. -/
theorem freshAnswer_refines (h : s.Mirrors registered) (hself : SelfContained registered)
    (hsize : s.chunkSize.IsOrdinary) (method : Value) (path : String) :
    s.freshAnswer method (.text path) = LinearScan.search s.space registered method path := by
  unfold freshAnswer LinearScan.search
  cases Method.ofValue? method with
  | none => rfl
  | some known =>
      change s.freshTrimmed known (Path.trim path) =
        LinearScan.searchTrimmed s.space registered known (Path.trim path)
      have hfixed := h.find true (Path.trim path) known
      change s.fixed.find? (Path.trim path) known = _ at hfixed
      unfold freshTrimmed LinearScan.searchTrimmed
      rw [hfixed]
      cases s.space.toList.isPrefixOf (Path.trim path).toList with
      | false => rfl
      | true =>
          cases registered.find? (·.isAt true (Path.trim path) known) with
          | some route => rfl
          | none => exact matcher_refines h hself hsize known (Path.trim path)

/-- Two stores that differ at most in their matchers and in the size of chunks. -/
def SameRoutes (s t : RouteStore) : Prop := t.bare = { s.bare with chunkSize := t.chunkSize }

theorem insert_sameRoutes (h : s.SameRoutes t) (route : Route) :
    (s.insert route).SameRoutes (t.insert route) := by
  unfold SameRoutes at h ⊢
  rw [insert_bare t, h, (insert_settings t route).2]
  unfold insert bare
  cases route.isFixed <;> rfl

theorem foldl_sameRoutes (h : s.SameRoutes t) (routes : List Route) :
    (routes.foldl insert s).SameRoutes (routes.foldl insert t) := by
  induction routes generalizing s t with
  | nil => exact h
  | cons route rest ih => exact ih (insert_sameRoutes h route)

theorem prepare_sameRoutes (h : s.SameRoutes t) (pending : List Route) (c : Candidate) :
    s.prepare pending c = t.prepare pending c := by
  rw [← prepare_bare t, h]
  rfl

theorem prepareAll_sameRoutes (h : s.SameRoutes t) (cs : List Candidate) (pending : List Route) :
    s.prepareAll pending cs = t.prepareAll pending cs :=
  prepareAll_congr (prepare_sameRoutes h) cs pending

/-- The checks of a registration do not look at the size of chunks. -/
theorem perform_sameRoutes (h : s.SameRoutes t) (hs : s.Current) (ht : t.Current)
    (op : Operation) : (s.perform op).1.registered = (t.perform op).1.registered ∧
      (s.perform op).2.SameRoutes (t.perform op).2 := by
  have hregistered : (s.perform op).1.registered = (t.perform op).1.registered := by
    unfold Record.registered
    rw [perform_answer s hs, perform_answer t ht]
    cases op with
    | add c => rw [bareAnswer, bareAnswer, prepare_sameRoutes h]
    | addAll cs => rw [bareAnswer, bareAnswer, prepareAll_sameRoutes h]
    | request method path => rfl
    | sources => rfl
  refine ⟨hregistered, ?_⟩
  have hleft := effect_bare s _ _ (perform_effect s op)
  have hright := effect_bare t _ _ (perform_effect t op)
  have hinserted := foldl_sameRoutes h (s.perform op).1.registered
  unfold SameRoutes at hinserted ⊢
  rw [hright, hleft, ← hregistered, hinserted, (perform_settings t op).2,
    (foldl_insert_settings t _).2]

theorem history_sameRoutes (h : s.SameRoutes t) (hs : s.Current) (ht : t.Current)
    (ops : List Operation) : history (s.records ops) = history (t.records ops) := by
  induction ops generalizing s t with
  | nil => rfl
  | cons op rest ih =>
      obtain ⟨hregistered, hnext⟩ := perform_sameRoutes h hs ht op
      unfold history at ih ⊢
      rw [records, records, List.flatMap_cons, List.flatMap_cons, hregistered,
        ih hnext (perform_current s op hs) (perform_current t op ht)]

/-- What was registered in a run from a new store, whatever the size of chunks. -/
theorem history_of_create {space : String} {chunkSize otherSize : Chunk.Size}
    {start other : RouteStore} (hstart : create space chunkSize = .ok start)
    (hother : create space otherSize = .ok other) (ops : List Operation) :
    start.space = other.space ∧ history (start.records ops) = history (other.records ops) := by
  have hs := run_current space chunkSize start hstart []
  have ht := run_current space otherSize other hother []
  obtain ⟨cleaned, hcleaned, rfl⟩ := create_eq space chunkSize start hstart
  obtain ⟨cleaned', hcleaned', rfl⟩ := create_eq space otherSize other hother
  obtain rfl := Except.ok.inj (hcleaned.symm.trans hcleaned')
  have hsame : SameRoutes { space := cleaned, chunkSize }
    { space := cleaned, chunkSize := otherSize } :=
    rfl
  exact ⟨rfl, history_sameRoutes hsame hs ht ops⟩

theorem eq_ok_of_toOption {α : Type} {result : Except Error α} {a : α}
    (h : result.toOption = some a) :
    result = .ok a := by
  cases result with
  | error e => cases h
  | ok b => exact congrArg Except.ok (Option.some.inj h)

theorem mirrors_of_create {space : String} {chunkSize : Chunk.Size} {start : RouteStore}
    (hstart : create space chunkSize = .ok start) (ops : List Operation) :
    (start.run ops).Mirrors (history (start.records ops)) := by
  obtain ⟨cleaned, _, rfl⟩ := create_eq space chunkSize start hstart
  exact (Mirrors.start rfl rfl).run ops

theorem answer_refines {space : String} {chunkSize : Chunk.Size} {start : RouteStore}
    (hstart : create space chunkSize = .ok start) (hsize : chunkSize.IsOrdinary)
    (ops : List Operation) (hself : SelfContained (history (start.records ops))) (method : Value)
    (path : String) : ((start.run ops).perform (.request method (.text path))).1.answer =
      .found (LinearScan.search start.space (history (start.records ops)) method path) := by
  obtain ⟨hspace, hchunks⟩ := run_settings start ops
  obtain ⟨cleaned, _, hfields⟩ := create_eq space chunkSize start hstart
  have hordinary : (start.run ops).chunkSize.IsOrdinary := by
    rw [hchunks, hfields]
    exact hsize
  rw [perform_answer _ (run_current space chunkSize start hstart ops), bareAnswer,
    freshAnswer_refines (mirrors_of_create hstart ops) hself hordinary, hspace]

/-- After every run of operations on a new store, a request has an answer, and it is that of the
linear scan of the routes that were registered, provided that every placeholder among them has an
expression that is one by itself. The size of chunks makes no difference. -/
theorem matching_refines_linear_scan (space : String) (chunkSize : Chunk.Size) (start : RouteStore)
    (hstart : create space chunkSize = .ok start) (hsize : chunkSize.IsOrdinary)
    (ops : List Operation) (hself : SelfContained (history (start.records ops))) (method : Value)
    (path : String) :
    ∃ found, LinearScan.search start.space (history (start.records ops)) method path = .ok found ∧
      ((start.run ops).perform (.request method (.text path))).1.answer = .found (.ok found) ∧
      ∀ (otherSize : Chunk.Size) (other : RouteStore), create space otherSize = .ok other →
        otherSize.IsOrdinary →
        ((other.run ops).perform (.request method (.text path))).1.answer = .found (.ok found) := by
  have hreports := (mirrors_of_create hstart ops).reports hself
  obtain ⟨found, hfound⟩ := LinearScan.exists_search hreports start.space method path
  have hanswer := answer_refines hstart hsize ops hself method path
  rw [hfound] at hanswer
  refine ⟨found, hfound, hanswer, fun otherSize other hother hordinary => ?_⟩
  obtain ⟨hspace, hhistory⟩ := history_of_create hstart hother ops
  rw [hhistory] at hself hfound
  rw [hspace] at hfound
  rw [answer_refines hother hordinary ops hself, hfound]

/-- Two patterns, one with other parameter names for another method, and a request in between. -/
def yearPlan : List Operation :=
  let handler : Output := .function (.mk "show" true false none none .arguments)
  [.add ⟨.text "GET", .text "u/{id:i}", .text "user", handler⟩,
    .request (.text "GET") (.text "/v/y/1999/"),
    .addAll [⟨.text "GET", .text "y/{year:(?:1|2).+}/{page:i}?", .text "year", handler⟩,
      ⟨.text "POST", .text "y/{label:(?:1|2).+}/{part:i}?", .text "file", handler⟩]]

theorem matching_refines_linear_scan_for_years :
    let start : RouteStore := { space := "v", chunkSize := .whole 2 }
    let registered := history (start.records yearPlan)
    create "/v/" (.whole 2) = .ok start ∧ (Chunk.Size.whole 2).IsOrdinary ∧
    SelfContained registered ∧
    ∃ m, LinearScan.search start.space registered (.text "POST") "/v/y/1999/" = .ok (some m) ∧
      m.route.name = "file" ∧ m.parameters = [("label", "1999")] ∧
      ((start.run yearPlan).perform (.request (.text "POST") (.text "/v/y/1999/"))).1.answer =
        .found (.ok (some m)) := by
  intro start registered
  have hcreate : create "/v/" (.whole 2) = .ok start := rfl
  have hsize : (Chunk.Size.whole 2).IsOrdinary := .whole (by decide) (by decide +kernel)
  have hself : SelfContained registered := by decide +kernel
  have hfacts : ((LinearScan.search start.space registered (.text "POST") "/v/y/1999/").toOption.any
      fun found => found.any fun m =>
        m.route.name == "file" && m.parameters == [("label", "1999")]) = true := by decide +kernel
  obtain ⟨found, hsearch, hanswer, _⟩ :=
    matching_refines_linear_scan "/v/" (.whole 2) start hcreate hsize
    yearPlan hself (.text "POST") "/v/y/1999/"
  rw [hsearch] at hfacts
  change found.any _ = true at hfacts
  obtain ⟨m, rfl, hm⟩ := (Option.any_eq_true _ _).mp hfacts
  simp only [Bool.and_eq_true, beq_iff_eq] at hm
  exact ⟨hcreate, hsize, hself, m, hsearch, hm.1, hm.2, hanswer⟩

end RouteStore

end NamedRoutes
