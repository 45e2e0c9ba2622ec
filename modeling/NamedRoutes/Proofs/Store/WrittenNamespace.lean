import NamedRoutes.Proofs.Pattern.Opening
import NamedRoutes.Proofs.Store.Containment

/-!
A namespace that is written out. One store has a namespace, the other has none and is asked for
paths with the namespace written in front of them. Step by step the two accept the same routes and
refuse the others for the same kind of reason, and in the end they answer and build the same,
although only the first of them looks at the namespace of a request before anything else.
-/

namespace NamedRoutes

namespace Candidate

/-- The candidate with a namespace written in front of its path. A path that is no text stays as it
is. -/
def under (space : String) (c : Candidate) : Candidate :=
  match c.path with
  | .text path => { c with path := .text (space ++ "/" ++ Path.trim path) }
  | _ => c

theorem under_parts (space : String) (c : Candidate) : (c.under space).method = c.method ∧
    (c.under space).name = c.name ∧ (c.under space).handler = c.handler := by
  unfold under
  split <;> exact ⟨rfl, rfl, rfl⟩

theorem under_path (space : String) (c : Candidate) : (c.under space).path = match c.path with
    | .text path => .text (space ++ "/" ++ Path.trim path)
    | value => value := by
  unfold under
  split <;> simp [*]

end Candidate

/-- The operation with a namespace written in front of the paths that it registers. -/
def Operation.under (space : String) : Operation → Operation
  | .add c => .add (c.under space)
  | .addAll cs => .addAll (cs.map (·.under space))
  | .request method path => .request method path
  | .sources => .sources

/-- What has come of a registration: the routes, or the kind of the error. -/
def Answer.admission? : Answer → Option (Except (ErrorClass ⊕ Error) (List Route))
  | .added result => some ((result.map fun route => [route]).mapError Error.kind)
  | .addedAll result => some (result.mapError Error.kind)
  | .found _ => none
  | .sources _ => none

/-- A namespace without dots can stand in front of paths. -/
theorem Path.opens_of_parse {text space : String} (h : parseNamespace text = .ok space)
    (hspace : space ≠ "") (hdot : '.' ∉ space.toList) : Opens space := by
  obtain ⟨_, hfirst, hlast, hsingle⟩ := parseNamespace_eq_ok h
  refine ⟨hspace, fun c hc => ?_, hfirst, hlast, hsingle⟩
  have hchar := isNamespaceChar_of_parse h hc
  unfold isNamespaceChar at hchar
  rcases Bool.or_eq_true_iff.mp hchar with hplain | hperiod
  · exact hplain
  · exact absurd (beq_iff_eq.mp hperiod ▸ hc) hdot

/-- Whether every path that some routes answer starts with a text. -/
structure LinearScan.AllStart (registered : List Route) (space : String) : Prop where
  fixed : ∀ route ∈ registered, route.isFixed = true → space.toList <+: route.key.toList
  patterns : ∀ p ∈ registered.filterMap Route.pattern?, ∀ path,
    p.expression.fullMatch? path ≠ .ok none → space.toList <+: path.toList

/-- Where no other path is answered, it makes no difference that requests are checked for the
namespace. -/
theorem LinearScan.AllStart.search {registered : List Route} {space : String}
    (h : AllStart registered space) (method : Value) (path : String) :
    search space registered method path = search "" registered method path := by
  unfold LinearScan.search
  cases Method.ofValue? method with
  | none => rfl
  | some known =>
      have hempty : "".toList.isPrefixOf (Path.trim path).toList = true := rfl
      unfold searchTrimmed
      cases hprefix : space.toList.isPrefixOf (Path.trim path).toList with
      | true => simp only [hempty]
      | false =>
          have hnot : ¬ space.toList <+: (Path.trim path).toList := fun hyes => by
            rw [List.isPrefixOf_iff_prefix.mpr hyes] at hprefix
            cases hprefix
          have hfixed : registered.find? (·.isAt true (Path.trim path) known) = none := by
            refine List.find?_eq_none.mpr fun route hroute hat => hnot ?_
            simp only [Route.isAt, Bool.and_eq_true, beq_iff_eq] at hat
            exact hat.1.2 ▸ h.fixed route hroute hat.1.1
          have hdecider : decider? registered (Path.trim path) = none := by
            refine List.find?_eq_none.mpr fun p hp hends => hnot (h.patterns p hp _ fun hno => ?_)
            rw [hno] at hends
            cases hends
          simp only [hempty, hfixed, searchPatterns, hdecider]
          rfl

namespace RouteStore

/-- Whether a store has the routes of another one, and no namespace. -/
structure Imitates (t s : RouteStore) : Prop where
  space : t.space = ""
  fixed : t.fixed = s.fixed
  patterns : t.patterns = s.patterns
  names : t.names = s.names

variable {s t : RouteStore}

/-- A trimmed path leads to the same target whether the namespace is that of the store or part of
the path. -/
theorem target_under (h : Path.Opens s.space) (ht : t.space = "") (path : String) :
    (t.target (Path.trim (s.space ++ "/" ++ Path.trim path))).mapError Error.kind =
      (s.target (Path.trim path)).mapError Error.kind := by
  have hfirst := Path.head?_trim path
  rw [h.trim path]
  generalize Path.trim path = trimmed at hfirst
  unfold target
  rw [ht, h.isStatic_join]
  cases hstatic : Path.isStatic trimmed with
  | true =>
      have hjoin : ∀ path, Path.join "" path = path := fun _ => rfl
      rw [if_pos rfl, if_pos rfl]
      unfold Path.checkStatic
      rw [h.isStaticText_join hfirst]
      split
      · simp only [bind, Except.bind, pure, Except.pure, hjoin]
      · simp only [bind, Except.bind, mapError_error, Error.kind, Error.class?]
  | false =>
      rcases h.join_cases trimmed with ⟨rfl, _⟩ | ⟨_, hunder⟩
      · cases hstatic
      · rw [hunder]
        exact mapError_bind_congr (RoutePattern.compile_under h hfirst) fun _ _ => rfl

/-- The path of a candidate leads to the same target. -/
theorem Imitates.resolved (h : t.Imitates s) (hspace : Path.Opens s.space) (c : Candidate) :
    (Candidate.checkPath (c.under s.space).path >>= t.target).mapError Error.kind =
      (Candidate.checkPath c.path >>= s.target).mapError Error.kind := by
  rw [c.under_path]
  cases c.path with
  | text path =>
      simp only [Candidate.checkPath, bind, Except.bind]
      exact target_under hspace h.space path
  | _ => simp only [Candidate.checkPath, bind, Except.bind]

theorem Imitates.prepare (h : t.Imitates s) (hspace : Path.Opens s.space) (pending : List Route)
    (c : Candidate) : (t.prepare pending (c.under s.space)).mapError Error.kind =
      (s.prepare pending c).mapError Error.kind := by
  have hcontains : ∀ name, t.contains name = s.contains name := fun name => by
    unfold contains
    rw [h.names]
  have hclashes : ∀ route, t.clashes route = s.clashes route := fun route => by
    unfold clashes tableFor
    rw [h.fixed, h.patterns]
  obtain ⟨hmethod, hname, hhandler⟩ := c.under_parts s.space
  unfold RouteStore.prepare
  simp only [hmethod, hname, hhandler, hcontains, hclashes]
  refine mapError_bind_congr rfl fun method _ => mapError_bind_congr rfl fun name _ =>
    mapError_bind_congr rfl fun handler _ => ?_
  split
  · rfl
  · rw [← bind_assoc, ← bind_assoc]
    exact mapError_bind_congr (h.resolved hspace c) fun _ _ => rfl

theorem Imitates.prepareAll (h : t.Imitates s) (hspace : Path.Opens s.space) (cs : List Candidate)
    (pending : List Route) :
    (t.prepareAll pending (cs.map (·.under s.space))).mapError Error.kind =
      (s.prepareAll pending cs).mapError Error.kind := by
  induction cs generalizing pending with
  | nil => rfl
  | cons c rest ih =>
      exact mapError_bind_congr (h.prepare hspace pending c) fun route _ => ih (pending ++ [route])

theorem Imitates.insert (h : t.Imitates s) (route : Route) :
    (t.insert route).Imitates (s.insert route) := by
  obtain ⟨hspace, hfixed, hpatterns, hnames⟩ := h
  unfold RouteStore.insert
  cases route.isFixed with
  | true => exact ⟨hspace, by simp [hfixed], hpatterns, by simp [hnames]⟩
  | false => exact ⟨hspace, hfixed, by simp [hpatterns], by simp [hnames]⟩

theorem Imitates.foldl (h : t.Imitates s) (routes : List Route) :
    (routes.foldl RouteStore.insert t).Imitates (routes.foldl RouteStore.insert s) := by
  induction routes generalizing s t with
  | nil => exact h
  | cons route rest ih => exact ih (h.insert route)

/-- The matchers have no part in it. -/
theorem Imitates.of_bare (h : t.Imitates s) {s' t' : RouteStore} (hs : s'.bare = s.bare)
    (ht : t'.bare = t.bare) : t'.Imitates s' :=
  ⟨(congrArg RouteStore.space ht).trans h.space,
    (congrArg RouteStore.fixed ht).trans (h.fixed.trans (congrArg RouteStore.fixed hs).symm),
    (congrArg RouteStore.patterns ht).trans
    (h.patterns.trans (congrArg RouteStore.patterns hs).symm),
    (congrArg RouteStore.names ht).trans (h.names.trans (congrArg RouteStore.names hs).symm)⟩

/-- What has come of an operation tells which routes it has registered. -/
theorem registered_of_admission {r r' : Record} (h : r'.answer.admission? = r.answer.admission?) :
    r'.registered = r.registered := by
  have hread : ∀ r : Record, r.registered = (r.answer.admission?.bind Except.toOption).getD [] := by
    rintro ⟨answer, events⟩
    cases answer with
    | added result => cases result <;> rfl
    | addedAll result => cases result <;> rfl
    | found result => rfl
    | sources result => rfl
  rw [hread, hread r, h]

theorem admission?_perform (s : RouteStore) (op : Operation) :
    (s.perform op).1.answer.admission? = (s.bareAnswer op).admission? := by
  cases op with
  | add c =>
      simp only [perform, add, bareAnswer]
      cases s.prepare [] c <;> rfl
  | addAll cs =>
      simp only [perform, addAll, bareAnswer]
      cases s.prepareAll [] cs <;> rfl
  | request method path =>
      simp only [perform, bareAnswer]
      cases s.match? method path <;> rfl
  | sources =>
      simp only [perform, bareAnswer]
      cases s.prepared <;> rfl

/-- An operation with the namespace written out comes to the same, and leaves the same routes. -/
theorem Imitates.perform (h : t.Imitates s) (hspace : Path.Opens s.space) (op : Operation) :
    (t.perform (op.under s.space)).1.answer.admission? = (s.perform op).1.answer.admission? ∧
      (t.perform (op.under s.space)).2.Imitates (s.perform op).2 := by
  have hadmission : (t.perform (op.under s.space)).1.answer.admission? =
      (s.perform op).1.answer.admission? := by
    rw [admission?_perform, admission?_perform]
    cases op with
    | add c =>
        have hprepare := h.prepare hspace [] c
        have hsingle : ∀ result : Except Error Route,
            (result.map fun route => [route]).mapError Error.kind =
              (result.mapError Error.kind).map fun route => [route] := fun result => by
          cases result <;> rfl
        simp only [Operation.under, bareAnswer, Answer.admission?, hsingle, hprepare]
    | addAll cs => exact congrArg some (h.prepareAll hspace cs [])
    | request method path => rfl
    | sources => rfl
  refine ⟨hadmission, ?_⟩
  have hinserted := h.foldl (s.perform op).1.registered
  refine hinserted.of_bare (effect_bare s _ _ (perform_effect s op)) ?_
  rw [← registered_of_admission hadmission]
  exact effect_bare t _ _ (perform_effect t _)

/-- So it is for a whole run. -/
theorem Imitates.run (h : t.Imitates s) (hspace : Path.Opens s.space) (ops : List Operation) :
    (t.records (ops.map (·.under s.space))).map (·.answer.admission?) =
        (s.records ops).map (·.answer.admission?) ∧
      history (t.records (ops.map (·.under s.space))) = history (s.records ops) ∧
      (t.run (ops.map (·.under s.space))).Imitates (s.run ops) := by
  induction ops generalizing s t with
  | nil => exact ⟨rfl, rfl, h⟩
  | cons op rest ih =>
      obtain ⟨hadmission, hnext⟩ := h.perform hspace op
      have hsame := (perform_settings s op).1
      obtain ⟨hrecords, hhistory, hrun⟩ := ih hnext (hsame ▸ hspace)
      rw [hsame] at hrecords hhistory hrun
      refine ⟨?_, ?_, hrun⟩
      · simp only [List.map_cons, records, hadmission, hrecords]
      · unfold history at hhistory ⊢
        rw [List.map_cons, records, records, List.flatMap_cons, List.flatMap_cons, hhistory,
          registered_of_admission hadmission]

variable {text : String} {chunkSize : Chunk.Size} {start other : RouteStore}

/-- What is registered in a namespace answers only paths that start with the namespace. -/
theorem allStart_of_create (hstart : create text chunkSize = .ok start) (hspace : start.space ≠ "")
    {ops : List Operation} (hself : SelfContained (history (start.records ops))) :
    LinearScan.AllStart (history (start.records ops)) start.space := by
  constructor
  · intro route hroute hfixed
    obtain ⟨s, _, _, hsame, hpasses⟩ := exists_passes ops hroute
    rw [← hsame]
    exact (hpasses.space_prefix hfixed).2
  · intro p hp path hmatch
    obtain ⟨rest, hrest, _⟩ := starts_with_of_match hstart hself hspace hp hmatch
    exact ⟨rest, hrest.symm⟩

/-- A request whose path is no text is answered by every store alike. -/
theorem freshAnswer_of_ne_text (s t : RouteStore) (method : Value) {path : Value}
    (h : ∀ text, path ≠ .text text) : s.freshAnswer method path = t.freshAnswer method path := by
  unfold freshAnswer
  cases Method.ofValue? method with
  | none => rfl
  | some known =>
      cases path with
      | text text => exact absurd rfl (h text)
      | _ => simp only [Candidate.checkPath, bind, Except.bind]

/-- A namespace without dots is the same as the namespace written in front of every path. Whatever
is asked of a store with a namespace, a store without one that is asked for the written out paths
accepts the same routes and refuses the others with errors of the same kind. In the end it lists the
same routes and builds the same paths. It also gives the same answer to every request, as long as
every placeholder that was accepted has an expression that is one by itself, as those have that no
one wrote out. -/
theorem namespace_amounts_to_prefix (text : String) (chunkSize otherSize : Chunk.Size)
    (start other : RouteStore) (hstart : create text chunkSize = .ok start)
    (hother : create "" otherSize = .ok other) (hspace : start.space ≠ "")
    (hdot : '.' ∉ start.space.toList) (ops : List Operation) :
    let written := ops.map (·.under start.space)
    (other.records written).map (·.answer.admission?) =
      (start.records ops).map (·.answer.admission?) ∧
    (other.run written).routes = (start.run ops).routes ∧
    (∀ name values, (other.run written).buildPath name values =
      (start.run ops).buildPath name values) ∧
    (chunkSize.IsOrdinary → otherSize.IsOrdinary → SelfContained (history (start.records ops)) →
      ∀ method path : Value, ((other.run written).perform (.request method path)).1.answer =
        ((start.run ops).perform (.request method path)).1.answer) := by
  intro written
  obtain ⟨cleaned, hcleaned, hfields⟩ := create_eq text chunkSize start hstart
  obtain ⟨empty, hempty, hbare⟩ := create_eq "" otherSize other hother
  have hparse : Path.parseNamespace text = .ok start.space := by rw [hcleaned, hfields]
  have hopens := Path.opens_of_parse hparse hspace hdot
  have himitates : other.Imitates start := by
    rw [hfields, hbare]
    exact ⟨(Except.ok.inj hempty).symm, rfl, rfl, rfl⟩
  obtain ⟨hadmission, hhistory, hrun⟩ := himitates.run hopens ops
  refine ⟨hadmission, ?_, ?_, ?_⟩
  · unfold routes
    rw [hrun.fixed, hrun.patterns]
  · intro name values
    unfold buildPath find?
    rw [hrun.names]
  · intro hsize hordinary hself method path
    by_cases htext : ∃ text, path = .text text
    · obtain ⟨text, rfl⟩ := htext
      have hsame : SelfContained (history (other.records written)) := hhistory ▸ hself
      rw [answer_refines hstart hsize ops hself, answer_refines hother hordinary written hsame,
        hhistory, himitates.space, (allStart_of_create hstart hspace hself).search]
    · rw [perform_answer _ (run_current text chunkSize start hstart ops),
        perform_answer _ (run_current "" otherSize other hother written)]
      exact congrArg Answer.found
        (freshAnswer_of_ne_text _ _ method fun text heq => htext ⟨text, heq⟩)

/-- The root, a batch with a fixed path and a pattern that may start with a parameter, two paths
that are refused, and a request. -/
def languagePlan : List Operation :=
  let handler : Output := .function (.mk "show" true false none none .arguments)
  [.add ⟨.text "GET", .text "/", .text "home", handler⟩,
    .addAll [⟨.text "GET", .text "about/", .text "about", handler⟩,
      ⟨.text "GET", .text "/{lang:a}?/posts", .text "posts", handler⟩],
    .add ⟨.text "GET", .text "{code:a}?/posts/", .text "other", handler⟩,
    .add ⟨.text "GET", .text "a//{x}", .text "double", handler⟩,
    .request (.text "GET") (.text "/v/about/")]

theorem namespace_amounts_to_prefix_for_languages :
    let start : RouteStore := { space := "v", chunkSize := .whole 10 }
    let other : RouteStore := { space := "", chunkSize := .whole 2 }
    let written := languagePlan.map (·.under "v")
    create "/v/" (.whole 10) = .ok start ∧ create "" (.whole 2) = .ok other ∧
    start.space ≠ "" ∧ '.' ∉ start.space.toList ∧
    (Chunk.Size.whole 10).IsOrdinary ∧ (Chunk.Size.whole 2).IsOrdinary ∧
    SelfContained (history (start.records languagePlan)) ∧
    (start.records languagePlan).map (·.answer.rejection?.isSome) =
      [false, false, true, true, false] ∧
    (other.records written).map (·.answer.admission?) =
      (start.records languagePlan).map (·.answer.admission?) ∧
    (start.run languagePlan).routes.map (·.path) =
      ["v", "v/about", "v/{lang:[a-zA-Z0-9]+}?/posts"] ∧
    (other.run written).routes = (start.run languagePlan).routes ∧
    (other.run written).buildPath "posts" [some (.text "en")] = .ok "/v/en/posts/" ∧
    ((other.run written).perform (.request (.text "GET") (.text "v/posts"))).1.answer =
      ((start.run languagePlan).perform (.request (.text "GET") (.text "v/posts"))).1.answer ∧
    ((start.run languagePlan).perform
      (.request (.text "GET") (.text "v/posts"))).1.answer.match?.map
      (fun m => (m.route.name, m.parameters)) = some ("posts", []) := by
  intro start other written
  have hstart : create "/v/" (.whole 10) = .ok start := rfl
  have hother : create "" (.whole 2) = .ok other := rfl
  have hfacts : SelfContained (history (start.records languagePlan)) ∧
      (start.records languagePlan).map (·.answer.rejection?.isSome) =
        [false, false, true, true, false] ∧
      (start.run languagePlan).routes.map (·.path) =
        ["v", "v/about", "v/{lang:[a-zA-Z0-9]+}?/posts"] ∧
      ((start.run languagePlan).buildPath "posts" [some (.text "en")]).toOption =
        some "/v/en/posts/" ∧
      ((start.run languagePlan).perform
        (.request (.text "GET") (.text "v/posts"))).1.answer.match?.map
        (fun m => (m.route.name, m.parameters)) = some ("posts", []) := by decide +kernel
  obtain ⟨hself, hrefused, hpaths, hbuilt, hfound⟩ := hfacts
  have hspace : start.space ≠ "" ∧ '.' ∉ start.space.toList := by decide
  have hsize : (Chunk.Size.whole 10).IsOrdinary := .whole (by decide) (by decide +kernel)
  have hordinary : (Chunk.Size.whole 2).IsOrdinary := .whole (by decide) (by decide +kernel)
  have hequal : (other.records written).map (·.answer.admission?) =
        (start.records languagePlan).map (·.answer.admission?) ∧
      (other.run written).routes = (start.run languagePlan).routes ∧
      (∀ name values, (other.run written).buildPath name values =
        (start.run languagePlan).buildPath name values) ∧
      ((Chunk.Size.whole 10).IsOrdinary → (Chunk.Size.whole 2).IsOrdinary →
        SelfContained (history (start.records languagePlan)) → ∀ method path : Value,
          ((other.run written).perform (.request method path)).1.answer =
            ((start.run languagePlan).perform (.request method path)).1.answer) :=
    namespace_amounts_to_prefix "/v/" (.whole 10) (.whole 2) start other hstart hother
      hspace.1 hspace.2
      languagePlan
  obtain ⟨hadmission, hroutes, hbuilds, hanswers⟩ := hequal
  exact ⟨hstart, hother, hspace.1, hspace.2, hsize, hordinary, hself, hrefused, hadmission,
    hpaths, hroutes, (hbuilds _ _).trans (eq_ok_of_toOption hbuilt),
    hanswers hsize hordinary hself _ _, hfound⟩

end RouteStore

end NamedRoutes
