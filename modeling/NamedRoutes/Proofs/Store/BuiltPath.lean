import NamedRoutes.Proofs.Pattern.BuiltText
import NamedRoutes.Proofs.Store.Names
import NamedRoutes.Proofs.Store.Refinement

/-!
A built path leads back to its route. It does as long as the values leave the building of the path
and the expression of the pattern no slash to disagree about; otherwise the path may match nothing.
-/

namespace NamedRoutes

variable {route : Route} {p : RoutePattern}

/-- A path is built of a pattern if the segments are filled and no value is left over. -/
theorem Route.build_eq_ok (hp : route.pattern? = some p) {values : List (Option Value)}
    {built : String} :
    route.build values = .ok built ↔
      ∃ d, Route.fill route.name p.segments {} values = .ok (d, []) ∧ built = Path.wrap d.path := by
  unfold Route.pattern? at hp
  unfold Route.build
  cases htarget : route.target with
  | fixed path =>
      rw [htarget] at hp
      cases hp
  | pattern q =>
      rw [htarget] at hp
      obtain rfl := Option.some.inj hp
      simp only [bind, Except.bind]
      cases hfill : Route.fill route.name q.segments {} values with
      | error e => simp
      | ok filled =>
          obtain ⟨d, unused⟩ := filled
          cases unused with
          | nil => simp [pure, Except.pure, eq_comm]
          | cons value rest => simp [throw, throwThe, MonadExceptOf.throw]

/-- The only registered route answers what its pattern matches. -/
theorem LinearScan.search_only (hp : route.pattern? = some p) {space path : String} {method : Value}
    (hmethod : Method.ofValue? method = some route.method)
    (hspace : space.toList <+: (Path.trim path).toList) {m : Matched}
    (hmatch : p.expression.fullMatch? (Path.trim path) = .ok (some m)) :
    search space [route] method path = .ok (some ⟨route, m.parameters 0 route.parameterNames⟩) := by
  obtain ⟨hfixed, hkey, _⟩ := Route.key_of_pattern? hp
  have hstatic : [route].find? (·.isAt true (Path.trim path) route.method) = none := by
    simp [Route.isAt, hfixed]
  have hat : [route].find? (·.isAt false p.regex route.method) = some route := by
    simp [Route.isAt, hfixed, hkey]
  have hdecider : decider? [route] (Path.trim path) = some p := by
    simp [decider?, hp, hmatch, endsSearch]
  unfold search searchTrimmed searchPatterns
  simp only [hmethod, List.isPrefixOf_iff_prefix.mpr hspace, Bool.not_true,
    Bool.false_eq_true, if_false, hstatic, hdecider, hmatch, Option.bind_some, resolve, hat,
    Option.map_some]

def Answer.isNone : Answer → Bool
  | .found (.ok none) => true
  | _ => false

namespace RouteStore

variable {s : RouteStore} {pending : List Route} {c : Candidate}

theorem isStatic_of_target {path : String} (h : s.target path = .ok route.target)
    (hp : route.pattern? = some p) : Path.isStatic path = false := by
  unfold Route.pattern? at hp
  rcases target_eq_ok h with ⟨_, _, htarget⟩ | ⟨_, hstatic, _, _⟩
  · rw [htarget] at hp
    cases hp
  · exact hstatic

/-- The pattern of a registered route was compiled from a trimmed path that is not empty. -/
theorem Passes.compile_trimmed (h : s.Passes pending c route) (hp : route.pattern? = some p) :
    ∃ text, (Path.trim text).toList ≠ [] ∧
      RoutePattern.compile (Path.trim text) s.space = .ok p := by
  obtain ⟨text, _, htarget⟩ := exists_text_of_origin h.origin
  have hstatic := isStatic_of_target htarget hp
  refine ⟨text, fun hnil => ?_, compile_of_target htarget hp⟩
  rw [Path.isStatic, hnil] at hstatic
  cases hstatic

theorem add_eq_ok {out : Outcome Route} (h : s.add c = .ok out) :
    s.prepare [] c = .ok out.value ∧ out.store = s.insert out.value := by
  unfold add at h
  cases hprepare : s.prepare [] c with
  | error e =>
      rw [hprepare] at h
      cases h
  | ok route =>
      rw [hprepare] at h
      cases h
      exact ⟨rfl, rfl⟩

/-- The pieces of the pattern of a registered route are words between single slashes. -/
theorem Passes.assembled (h : s.Passes pending c route) (hp : route.pattern? = some p)
    {text : String} (hspace : Path.parseNamespace text = .ok s.space) :
    ∃ path t, p.Assembled s.space path t ∧ Piece.IsProper p.pieces := by
  obtain ⟨path, hne, hcompile⟩ := h.compile_trimmed hp
  obtain ⟨t, hassembled⟩ := RoutePattern.assembled_of_compile hcompile
  exact ⟨_, t, hassembled,
    hassembled.isProper hspace hne (Path.head?_trim path) (Path.getLast?_trim path)⟩

/-- A path that is built of aligned values is trimmed, starts with the namespace, and matches the
pattern that it was built from. -/
theorem Passes.built_matches (h : s.Passes pending c route) (hp : route.pattern? = some p)
    {text : String} (hspace : Path.parseNamespace text = .ok s.space)
    (hstock : ∀ q ∈ p.parameters, ¬ q.IsCustom) {values : List (Option Value)}
    (hblank : ∀ v, some v ∈ values → ' ' ∉ v.display.toList) {built : String}
    (hbuilt : route.build values = .ok built) (haligned : p.IsAligned values) :
    s.space.toList <+: (Path.trim built).toList ∧
      ∃ m, p.expression.fullMatch? (Path.trim built) = .ok (some m) := by
  obtain ⟨path, t, hassembled, hproper⟩ := h.assembled hp hspace
  have hall := RoutePattern.allStock_of_parameters hstock
  obtain ⟨d, hfill, rfl⟩ := (Route.build_eq_ok hp).mp hbuilt
  rw [hassembled.built_trimmed hproper hall hfill haligned hblank]
  obtain ⟨given, _, hspells, _⟩ := hassembled.built_text hall hfill haligned
  refine ⟨hassembled.starts_with_space hspells, ?_⟩
  rcases (hassembled.compiled hall).fullMatch?_cases d.path with ⟨m, _, hmatch, _⟩ | ⟨_, hno⟩
  · exact ⟨m, hmatch⟩
  · exact absurd hspells (hno given)

/-- A built path leads back to its route if the values are aligned: in a store with one route, whose
placeholders have no written out expressions, the path built of values without blanks is answered by
that route. -/
theorem built_path_leads_back (space : String) (chunkSize : Chunk.Size) (start : RouteStore)
    (hstart : create space chunkSize = .ok start) (hsize : chunkSize.IsOrdinary) (c : Candidate)
    (out : Outcome Route) (hadd : start.add c = .ok out) (p : RoutePattern)
    (hp : out.value.pattern? = some p) (hstock : ∀ q ∈ p.parameters, ¬ q.IsCustom)
    (values : List (Option Value)) (hblank : ∀ v, some v ∈ values → ' ' ∉ v.display.toList)
    (built : String) (hbuilt : out.store.buildPath out.value.name values = .ok built)
    (haligned : p.IsAligned values) :
    ∃ parameters, (out.store.perform (.request c.method (.text built))).1.answer =
      .found (.ok (some ⟨out.value, parameters⟩)) := by
  obtain ⟨hprepare, hstore⟩ := add_eq_ok hadd
  obtain ⟨hmethod, _, _⟩ := prepare_eq_ok hprepare
  obtain ⟨cleaned, hcleaned, hfields⟩ := create_eq space chunkSize start hstart
  have hspace : Path.parseNamespace space = .ok start.space := by rw [hcleaned, hfields]
  have hbuild : out.value.build values = .ok built := by
    unfold buildPath at hbuilt
    rw [hstore, find?_insert_name, if_pos rfl] at hbuilt
    exact hbuilt
  obtain ⟨hstarts, m, hmatch⟩ :=
    (passes_of_prepare hprepare).built_matches hp hspace hstock hblank hbuild haligned
  have hperform : start.perform (.add c) = (⟨.added (.ok out.value), out.events⟩, out.store) := by
    rw [perform, hadd]
    rfl
  have hrun : start.run [.add c] = out.store := congrArg Prod.snd hperform
  have hhistory : history (start.records [.add c]) = [out.value] := by
    rw [records, hperform]
    rfl
  have hself : SelfContained (history (start.records [.add c])) := by
    rw [hhistory]
    intro q hq parameter hparameter hcustom
    obtain rfl : q = p := by simpa [hp] using hq
    exact absurd hcustom (hstock parameter hparameter)
  have hanswer := answer_refines hstart hsize [.add c] hself c.method built
  rw [hrun, hhistory, LinearScan.search_only hp hmethod hstarts hmatch] at hanswer
  exact ⟨_, hanswer⟩

/-- A single registration, and values for a path of its route. -/
structure Trial where
  start : RouteStore
  candidate : Candidate
  values : List (Option Value)

/-- What comes of a trial: the pattern, the built path and the answer to a request for it. -/
def Trial.result? (trial : Trial) : Option (RoutePattern × String × Answer) :=
  (trial.start.add trial.candidate).toOption.bind fun out =>
    out.value.pattern?.bind fun p =>
      (out.store.buildPath out.value.name trial.values).toOption.map fun built =>
        (p, built, (out.store.perform (.request trial.candidate.method (.text built))).1.answer)

theorem Trial.of_result? {trial : Trial} {p : RoutePattern} {built : String} {answer : Answer}
    (h : trial.result? = some (p, built, answer)) :
    ∃ out, trial.start.add trial.candidate = .ok out ∧ out.value.pattern? = some p ∧
      out.store.buildPath out.value.name trial.values = .ok built ∧
      (out.store.perform (.request trial.candidate.method (.text built))).1.answer = answer := by
  obtain ⟨out, hadd, hout⟩ := Option.bind_eq_some_iff.mp h
  obtain ⟨q, hq, hout⟩ := Option.bind_eq_some_iff.mp hout
  obtain ⟨path, hpath, hresult⟩ := Option.map_eq_some_iff.mp hout
  cases hresult
  exact ⟨out, eq_ok_of_toOption hadd, hq, eq_ok_of_toOption hpath, rfl⟩

/-- An optional parameter right before a required one. The slash that goes with the first is dropped
after the second. -/
def skippingTrial : Trial where
  start := { space := "", chunkSize := .whole 10 }
  candidate := ⟨.text "GET", .text "{x}?{y}/b", .text "pair",
    .function (.mk "show" true false none none .arguments)⟩
  values := [none, some (.text "2")]

theorem built_path_can_be_lost : ¬ ∀ (space : String) (chunkSize : Chunk.Size) (start : RouteStore),
    create space chunkSize = .ok start → chunkSize.IsOrdinary → ∀ (c : Candidate)
      (out : Outcome Route),
    start.add c = .ok out → ∀ p : RoutePattern, out.value.pattern? = some p →
    (∀ q ∈ p.parameters, ¬ q.IsCustom) → ∀ values : List (Option Value),
    (∀ v, some v ∈ values → ' ' ∉ v.display.toList) → ∀ built : String,
    out.store.buildPath out.value.name values = .ok built →
    ∃ parameters, (out.store.perform (.request c.method (.text built))).1.answer =
      .found (.ok (some ⟨out.value, parameters⟩)) := by
  intro hclaim
  have hresult : (skippingTrial.result?.any fun result =>
      decide (∀ q ∈ result.1.parameters, ¬ q.IsCustom) && result.2.2.isNone) = true := by
    decide +kernel
  obtain ⟨⟨p, built, answer⟩, htrial, hfacts⟩ := (Option.any_eq_true _ _).mp hresult
  obtain ⟨hstock, hnone⟩ := Bool.and_eq_true_iff.mp hfacts
  obtain ⟨out, hadd, hp, hbuilt, rfl⟩ := Trial.of_result? htrial
  have hcreate : create "" (.whole 10) = .ok skippingTrial.start := rfl
  have hsize : (Chunk.Size.whole 10).IsOrdinary := .whole (by decide) (by decide +kernel)
  obtain ⟨parameters, hfound⟩ := hclaim "" (.whole 10) _ hcreate hsize _ out hadd p hp
    (of_decide_eq_true hstock) skippingTrial.values
    (by simp [skippingTrial, Value.display]) built hbuilt
  rw [hfound] at hnone
  cases hnone

def postsTrial : Trial where
  start := { space := "v", chunkSize := .whole 10 }
  candidate := ⟨.text "GET", .text "/{lang:a}?/posts/{page:i}?/", .text "posts",
    .function (.mk "show" true false none none .arguments)⟩
  values := [none, some (.text "2")]

theorem built_path_leads_back_for_posts :
    create "/v/" (.whole 10) = .ok postsTrial.start ∧ (Chunk.Size.whole 10).IsOrdinary ∧
    ∃ out p parameters, postsTrial.start.add postsTrial.candidate = .ok out ∧
      out.value.pattern? = some p ∧ (∀ q ∈ p.parameters, ¬ q.IsCustom) ∧
      (∀ v, some v ∈ postsTrial.values → ' ' ∉ v.display.toList) ∧
      out.store.buildPath out.value.name postsTrial.values = .ok "/v/posts/2/" ∧
      p.IsAligned postsTrial.values ∧
      (out.store.perform (.request (.text "GET") (.text "/v/posts/2/"))).1.answer =
        .found (.ok (some ⟨out.value, parameters⟩)) := by
  have hresult : (postsTrial.result?.any fun result =>
      decide (∀ q ∈ result.1.parameters, ¬ q.IsCustom) &&
        (decide (result.2.1 = "/v/posts/2/") && decide (result.1.IsAligned postsTrial.values))) =
          true := by
    decide +kernel
  obtain ⟨⟨p, built, answer⟩, htrial, hfacts⟩ := (Option.any_eq_true _ _).mp hresult
  obtain ⟨hstock, hfacts⟩ := Bool.and_eq_true_iff.mp hfacts
  obtain ⟨hpath, haligned⟩ := Bool.and_eq_true_iff.mp hfacts
  obtain rfl : built = "/v/posts/2/" := of_decide_eq_true hpath
  obtain ⟨out, hadd, hp, hbuilt, rfl⟩ := Trial.of_result? htrial
  have hcreate : create "/v/" (.whole 10) = .ok postsTrial.start := rfl
  have hsize : (Chunk.Size.whole 10).IsOrdinary := .whole (by decide) (by decide +kernel)
  have hstock : ∀ q ∈ p.parameters, ¬ q.IsCustom := of_decide_eq_true hstock
  have hblank : ∀ v, some v ∈ postsTrial.values → ' ' ∉ v.display.toList := by
    simp [postsTrial, Value.display]
  have haligned : p.IsAligned postsTrial.values := of_decide_eq_true haligned
  obtain ⟨parameters, hanswer⟩ :=
    built_path_leads_back "/v/" (.whole 10) postsTrial.start hcreate hsize
    postsTrial.candidate out hadd p hp hstock postsTrial.values hblank _ hbuilt haligned
  exact ⟨hcreate, hsize, out, p, parameters, hadd, hp, hstock, hblank, hbuilt, haligned, hanswer⟩

end RouteStore

end NamedRoutes
