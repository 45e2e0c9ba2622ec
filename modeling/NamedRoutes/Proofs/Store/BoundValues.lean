import NamedRoutes.Proofs.Pattern.BoundGroups
import NamedRoutes.Proofs.Store.Containment
import NamedRoutes.Proofs.Store.GroupBookkeeping

/-!
What a match binds. The names are those of the parameters of its route. A required parameter is left
out only if its part of the path is empty, and a parameter with a local expression accepts what it
is bound to, so that the path of the route can be built of these values.
-/

namespace NamedRoutes

/-- The entries of a match are the groups with some text, each under the name of its parameter. -/
theorem Matched.mem_parameters_iff (m : Matched) (base : Nat) (names : List String)
    (name value : String) :
    (name, value) ∈ m.parameters base names ↔
      ∃ i : Nat, names[i]? = some name ∧ m.group? (base + i + 1) = some value ∧ value ≠ "" := by
  induction names generalizing base with
  | nil => simp [parameters]
  | cons first rest ih =>
      have hshift : ∀ i : Nat, base + (i + 1) + 1 = base + 1 + i + 1 := by omega
      have hsplit :
          (∃ i : Nat, (first :: rest)[i]? = some name ∧ m.group? (base + i + 1) = some value ∧
          value ≠ "") ↔ (first = name ∧ m.group? (base + 1) = some value ∧ value ≠ "") ∨
            (name, value) ∈ m.parameters (base + 1) rest := by
        rw [ih]
        constructor
        · rintro ⟨i, hname, hgroup, hvalue⟩
          cases i with
          | zero => exact Or.inl ⟨Option.some.inj hname, hgroup, hvalue⟩
          | succ i => exact Or.inr ⟨i, hname, hshift i ▸ hgroup, hvalue⟩
        · rintro (⟨rfl, hgroup, hvalue⟩ | ⟨i, hname, hgroup, hvalue⟩)
          · exact ⟨0, rfl, hgroup, hvalue⟩
          · exact ⟨i + 1, hname, hshift i ▸ hgroup, hvalue⟩
      rw [hsplit, parameters]
      cases hgroup : m.group? (base + 1) with
      | none => simp
      | some text =>
          by_cases hempty : text = ""
          · subst hempty
            simp
          · have hfilled : (text == "") = false := beq_false_of_ne hempty
            simp only [hfilled, Bool.false_eq_true, if_false, List.mem_cons, Prod.mk.injEq,
              Option.some.injEq]
            refine or_congr_left ⟨?_, ?_⟩
            · rintro ⟨rfl, rfl⟩
              exact ⟨rfl, rfl, hempty⟩
            · rintro ⟨rfl, rfl, _⟩
              exact ⟨rfl, rfl⟩

/-- Segments are filled if every value is one that its parameter accepts, and none of a required
parameter is missing. -/
theorem Route.exists_fill (name : String) (segments : List Segment) (d : PathDraft)
    (given : Parameter → Option Value)
    (h : ∀ q ∈ segments.filterMap Segment.parameter?, (given q = none → q.optional = true) ∧
      ∀ value, given q = some value → q.accepts value.display = .ok true) :
    ∃ d', fill name segments d ((segments.filterMap Segment.parameter?).map given) =
      .ok (d', []) := by
  induction segments generalizing d with
  | nil => exact ⟨d, rfl⟩
  | cons segment rest ih =>
      cases segment with
      | literal text => exact ih _ h
      | parameter q =>
          obtain ⟨hfirst, hrest⟩ := List.forall_mem_cons.mp h
          change ∃ d', fill name (.parameter q :: rest) d
            (given q :: (rest.filterMap Segment.parameter?).map given) = .ok (d', [])
          rw [fill]
          cases hgiven : given q with
          | none =>
              simp only [List.head?_cons, Option.join_some, List.tail_cons,
                hfirst.1 hgiven, if_true]
              exact ih _ hrest
          | some value =>
              simp only [List.head?_cons, Option.join_some, List.tail_cons,
                hfirst.2 value hgiven, bind, Except.bind, if_true]
              exact ih _ hrest

/-- The path of a route can be built of such values. -/
theorem Route.exists_build {route : Route} {p : RoutePattern} (hp : route.pattern? = some p)
    (given : Parameter → Option Value)
    (h : ∀ q ∈ p.parameters, (given q = none → q.optional = true) ∧
      ∀ value, given q = some value → q.accepts value.display = .ok true) :
    ∃ built, route.build (p.parameters.map given) = .ok built := by
  obtain ⟨d, hfill⟩ := exists_fill route.name p.segments {} given h
  exact ⟨_, (build_eq_ok hp).mpr ⟨d, hfill, rfl⟩⟩

/-- Whether what a match binds suits a parameter of its route, with what the group of the parameter
holds. -/
structure RouteMatch.Suits (m : RouteMatch) (q : Parameter) (group : Option String) : Prop where
  bound : q.optional = false → (∃ value, (q.name, value) ∈ m.parameters) ∨ group = some ""
  accepted : q.IsLocal → ∀ value, (q.name, value) ∈ m.parameters → q.accepts value = .ok true
  empty : q.IsLocal → group = some "" → q.accepts "" = .ok true

namespace RouteMatch

variable {m : RouteMatch} {p : RoutePattern} {group : Nat → Option String}

/-- A required parameter that does not accept the empty text is bound. -/
theorem Suits.exists_bound {q : Parameter} {group : Option String} (h : m.Suits q group)
    (hlocal : q.IsLocal) (hfilled : q.optional = true ∨ q.accepts "" ≠ .ok true)
    (hrequired : q.optional = false) :
    ∃ value, (q.name, value) ∈ m.parameters := by
  refine (h.bound hrequired).resolve_right fun hempty => ?_
  rcases hfilled with hoptional | hrefuses
  · rw [hrequired] at hoptional
    cases hoptional
  · exact hrefuses (h.empty hlocal hempty)

/-- The path of a route can be built of what a match binds if that suits local parameters. -/
theorem exists_build (hp : m.route.pattern? = some p) (hnames : p.parameters.map (·.name) = p.names)
    (hsuits : ∀ (i : Nat) q, p.parameters[i]? = some q → m.Suits q (group i))
    (hlocal : ∀ q ∈ p.parameters, q.IsLocal ∧ (q.optional = true ∨ q.accepts "" ≠ .ok true)) :
    ∃ built, m.route.build (m.route.parameterNames.map fun name =>
      (m.parameters.lookup name).map Value.text) = .ok built := by
  obtain ⟨_, _, hparameterNames⟩ := Route.key_of_pattern? hp
  rw [hparameterNames, ← hnames, List.map_map]
  refine Route.exists_build hp _ fun q hq => ?_
  obtain ⟨hexpression, hfilled⟩ := hlocal q hq
  obtain ⟨i, hi⟩ := List.mem_iff_getElem?.mp hq
  constructor
  · intro hnone
    refine Decidable.byContradiction fun hrequired => ?_
    obtain ⟨value, hvalue⟩ :=
      (hsuits i q hi).exists_bound hexpression hfilled (Bool.eq_false_iff.mpr hrequired)
    have habsent := List.lookup_eq_none_iff.mp (Option.map_eq_none_iff.mp hnone) _ hvalue
    simp at habsent
  · intro value hvalue
    obtain ⟨text, hlookup, rfl⟩ := Option.map_eq_some_iff.mp hvalue
    obtain ⟨before, after, hentries, _⟩ := List.lookup_eq_some_iff.mp hlookup
    refine (hsuits i q hi).accepted hexpression text ?_
    rw [hentries]
    exact List.mem_append_right _ List.mem_cons_self

end RouteMatch

namespace RoutePattern

variable {p : RoutePattern} {space path : String} {t : Template} {request : String} {own : Matched}
  {m : RouteMatch}

/-- A match binds a parameter to what its group holds, unless that is empty. -/
theorem Assembled.mem_parameters_iff (h : p.Assembled space path t) (own : Matched) {i : Nat}
    {q : Parameter} (hq : p.parameters[i]? = some q) (value : String) :
    (q.name, value) ∈ own.parameters 0 p.names ↔ own.group? (i + 1) = some value ∧ value ≠ "" := by
  have hname : p.names[i]? = some q.name := by
    rw [← h.parameterNames, List.getElem?_map, hq]
    rfl
  rw [Matched.mem_parameters_iff]
  constructor
  · rintro ⟨j, hother, hgroup, hvalue⟩
    have hi := (List.getElem?_eq_some_iff.mp hname).1
    obtain rfl := (List.getElem?_inj hi h.nodup_names).mp (hname.trans hother.symm)
    rw [Nat.zero_add] at hgroup
    exact ⟨hgroup, hvalue⟩
  · rintro ⟨hgroup, hvalue⟩
    exact ⟨i, hname, by rwa [Nat.zero_add], hvalue⟩

/-- A match of a pattern by itself suits its parameters. -/
theorem Assembled.suits (h : p.Assembled space path t) (hp : p.IsCompiled)
    (hself : ∀ q ∈ p.parameters, q.IsSelfContained)
    (hmatch : p.expression.fullMatch? request = .ok (some own))
    (hparameters : m.parameters = own.parameters 0 p.names) {i : Nat} {q : Parameter}
    (hq : p.parameters[i]? = some q) : m.Suits q (own.group? (i + 1)) := by
  have hbound : ∀ value, (q.name, value) ∈ m.parameters ↔
      own.group? (i + 1) = some value ∧ value ≠ "" :=
    fun value => hparameters ▸ h.mem_parameters_iff own hq value
  refine ⟨fun hrequired => ?_, fun hlocal value hvalue => ?_, fun hlocal hempty => ?_⟩
  · obtain ⟨value, hgroup⟩ := h.group_of_required hp hself hmatch hq hrequired
    by_cases hempty : value = ""
    · exact Or.inr (hempty ▸ hgroup)
    · exact Or.inl ⟨value, (hbound value).mpr ⟨hgroup, hempty⟩⟩
  · exact h.accepts_of_group hp hself hmatch hq hlocal ((hbound value).mp hvalue).1
  · exact h.accepts_of_group hp hself hmatch hq hlocal hempty

end RoutePattern

namespace ChunkedMatcher

/-- A route that is found comes from one of the chunks. -/
theorem exists_of_search {method : Method} {path : String} {chunks : List Chunk} {m : RouteMatch}
    (h : search method path chunks = .ok (some m)) :
    ∃ chunk ∈ chunks, ∃ found, resolve method chunk found = some m := by
  induction chunks with
  | nil => cases h
  | cons chunk rest ih =>
      unfold search at h
      split at h
      · cases h
      · exact ⟨chunk, List.mem_cons_self, _, Except.ok.inj h⟩
      · obtain ⟨other, hother, hresolve⟩ := ih h
        exact ⟨other, List.mem_cons_of_mem _ hother, hresolve⟩

/-- A route that a chunk leads to is one of an alternative, and has named what is bound. -/
theorem of_resolve {method : Method} {chunk : Chunk} {found : Matched} {m : RouteMatch}
    (h : resolve method chunk found = some m) :
    (∃ a ∈ chunk.alternatives, m.route ∈ a.routes.values) ∧
      ∀ entry ∈ m.parameters, entry.1 ∈ m.route.parameterNames := by
  obtain ⟨a, ha, h⟩ := Option.bind_eq_some_iff.mp h
  obtain ⟨route, hroute, h⟩ := Option.bind_eq_some_iff.mp h
  cases h
  refine ⟨⟨a, List.mem_of_find?_eq_some ha, OrderedMap.mem_values_of_get? hroute⟩,
    fun entry hentry => ?_⟩
  exact found.name_mem_of_parameters hentry

end ChunkedMatcher

namespace RouteStore

/-- A route that is found is registered, and has named what is bound. -/
theorem Mirrors.of_match? {s : RouteStore} {registered : List Route} (h : s.Mirrors registered)
    {matcher : ChunkedMatcher} (hmatcher : s.freshMatcher = .ok matcher) {method : Method}
    {path : String} {m : RouteMatch} (hmatch : matcher.match? method path = .ok (some m)) :
    m.route ∈ registered ∧ ∀ entry ∈ m.parameters, entry.1 ∈ m.route.parameterNames := by
  obtain ⟨chunk, hchunk, found, hresolve⟩ := ChunkedMatcher.exists_of_search hmatch
  obtain ⟨⟨a, ha, hroute⟩, hnames⟩ := ChunkedMatcher.of_resolve hresolve
  obtain ⟨piece, _, hentries, hbuild⟩ := Chunk.exists_entries_of_build hmatcher hchunk
  rw [(Chunk.build_eq_ok hbuild).2] at ha
  obtain ⟨⟨entry, hentry, hroutes⟩, _⟩ := Chunk.marker_of_mem_layOut ha
  have hget := OrderedMap.get?_of_mem h.nodup (hentries entry hentry)
  exact ⟨(h.members entry.1 entry.2 hget m.route (hroutes ▸ hroute)).1, hnames⟩

/-- What a match binds is usable. It binds no names but those of its route. As long as every
placeholder has an expression that is one by itself, in all of the store or else in a route that is
right, a required parameter is bound unless its part of the path is empty, and a parameter with a
local expression accepts what it is bound to. So if all expressions are local, and those of required
parameters do not accept the empty text, then all of these are bound, and the path of the route can
be built of the values. -/
theorem found_values_are_usable (space : String) (chunkSize : Chunk.Size) (start : RouteStore)
    (hstart : create space chunkSize = .ok start) (ops : List Operation) (method : Value)
    (path : String) (m : RouteMatch)
    (hfound : ((start.run ops).perform (.request method (.text path))).1.answer =
      .found (.ok (some m)))
    (hdynamic : m.route.isFixed = false) :
    (∀ entry ∈ m.parameters, entry.1 ∈ m.route.parameterNames) ∧
    (SelfContained (history (start.records ops)) ∨ m.IsRight (Path.trim path) ∧
        (∀ p, m.route.pattern? = some p → ∀ q ∈ p.parameters, q.IsSelfContained) →
      ∃ p own, m.route.pattern? = some p ∧ p.expression.fullMatch? (Path.trim path) =
        .ok (some own) ∧
        (∀ (i : Nat) q, p.parameters[i]? = some q → m.Suits q (own.group? (i + 1))) ∧
        ((∀ q ∈ p.parameters, q.IsLocal ∧ (q.optional = true ∨ q.accepts "" ≠ .ok true)) →
          (∀ q ∈ p.parameters, q.optional = false → ∃ value, (q.name, value) ∈ m.parameters) ∧
          ∃ built, ((start.run ops).perform (.request method (.text path))).2.buildPath m.route.name
            (m.route.parameterNames.map fun name => (m.parameters.lookup name).map Value.text) =
              .ok built)) := by
  have hmirrors := mirrors_of_create hstart ops
  rw [perform_answer _ (run_current space chunkSize start hstart ops)] at hfound
  have hanswer := Answer.found.inj hfound
  obtain ⟨known, matcher, hmatcher, hmatch⟩ := search_of_freshAnswer hmirrors hanswer hdynamic
  obtain ⟨hmem, hnames⟩ := hmirrors.of_match? hmatcher hmatch
  refine ⟨hnames, fun hself => ?_⟩
  obtain ⟨⟨p, own, hp, hown, hparameters⟩, hcontained⟩ : m.IsRight (Path.trim path) ∧
      (∀ p, m.route.pattern? = some p → ∀ q ∈ p.parameters, q.IsSelfContained) := by
    refine hself.elim (fun hself => ⟨?_, fun p hp => ?_⟩) id
    · refine (hmirrors.answer_eq_some hself hanswer).2.resolve_left fun hfixed => ?_
      simp [Route.isFixed, Route.pattern?, hfixed] at hdynamic
    · exact hself.parameters (List.mem_filterMap.mpr ⟨m.route, hmem, hp⟩)
  obtain ⟨_, t, hassembled, _, hcompiled⟩ :=
    assembled_of_registered hstart (List.mem_filterMap.mpr ⟨m.route, hmem, hp⟩)
  have hsuits : ∀ (i : Nat) q, p.parameters[i]? = some q → m.Suits q (own.group? (i + 1)) :=
    fun i q hq => hassembled.suits hcompiled (hcontained p hp) hown hparameters hq
  refine ⟨p, own, hp, hown, hsuits, fun hlocal => ?_⟩
  constructor
  · intro q hq
    obtain ⟨i, hi⟩ := List.mem_iff_getElem?.mp hq
    exact (hsuits i q hi).exists_bound (hlocal q hq).1 (hlocal q hq).2
  · have hfind : ((start.run ops).perform (.request method (.text path))).2.find? m.route.name =
        some m.route := find?_of_registered ops hmem _
    rw [buildPath, hfind]
    exact RouteMatch.exists_build hp hassembled.parameterNames hsuits hlocal

def draftPlan : List Operation :=
  let handler : Output := .function (.mk "show" true false none none .arguments)
  [.add ⟨.text "GET", .text "posts/{year:[0-9]+}/{name:(?!draft)[a-z]++}?", .text "post", handler⟩,
    .add ⟨.text "GET", .text "x/{n:a*}/y", .text "odd", handler⟩]

def draftStart : RouteStore := { space := "", chunkSize := .whole 10 }

theorem found_values_are_usable_for_drafts :
    create "" (.whole 10) = .ok draftStart ∧
    SelfContained (history (draftStart.records draftPlan)) ∧
    ∃ m p,
      ((draftStart.run draftPlan).perform
        (.request (.text "GET") (.text "/posts/1999/may"))).1.answer =
        .found (.ok (some m)) ∧ m.route.isFixed = false ∧ m.route.pattern? = some p ∧
      m.parameters = [("year", "1999"), ("name", "may")] ∧
      (∀ q ∈ p.parameters, q.IsLocal ∧ (q.optional = true ∨ q.accepts "" ≠ .ok true)) ∧
      (∀ entry ∈ m.parameters, entry.1 ∈ m.route.parameterNames) ∧
      (∀ q ∈ p.parameters, q.optional = false → ∃ value, (q.name, value) ∈ m.parameters) ∧
      (∀ q ∈ p.parameters, ∀ value, (q.name, value) ∈ m.parameters → q.accepts value = .ok true) ∧
      ∃ built, ((draftStart.run draftPlan).perform
          (.request (.text "GET") (.text "/posts/1999/may"))).2.buildPath m.route.name
        (m.route.parameterNames.map fun name => (m.parameters.lookup name).map Value.text) =
          .ok built := by
  have hcreate : create "" (.whole 10) = .ok draftStart := rfl
  have hself : SelfContained (history (draftStart.records draftPlan)) := by decide +kernel
  have hmatch : (((draftStart.run draftPlan).perform
      (.request (.text "GET") (.text "/posts/1999/may"))).1.answer.match?.any fun m =>
        !m.route.isFixed && decide (m.parameters = [("year", "1999"), ("name", "may")]) &&
          m.route.pattern?.all fun p => p.parameters.all fun q =>
            decide q.IsLocal && (q.accepts "").toOption == some false) = true := by
    decide +kernel
  obtain ⟨m, hm, hfacts⟩ := (Option.any_eq_true _ _).mp hmatch
  simp only [Bool.and_eq_true, Bool.not_eq_true', decide_eq_true_eq] at hfacts
  obtain ⟨⟨hdynamic, hparameters⟩, hlocals⟩ := hfacts
  obtain ⟨hnames, husable⟩ := found_values_are_usable "" (.whole 10) draftStart hcreate draftPlan
    (.text "GET") "/posts/1999/may" m (Answer.eq_found hm) hdynamic
  obtain ⟨p, own, hp, _, hsuits, hbuilds⟩ := husable (Or.inl hself)
  have hlocal : ∀ q ∈ p.parameters, q.IsLocal ∧ (q.optional = true ∨ q.accepts "" ≠ .ok true) := by
    intro q hq
    rw [hp, Option.all_some, List.all_eq_true] at hlocals
    have hchecked := hlocals q hq
    simp only [Bool.and_eq_true, decide_eq_true_eq, beq_iff_eq] at hchecked
    refine ⟨hchecked.1, Or.inr fun haccepts => ?_⟩
    rw [haccepts] at hchecked
    cases hchecked.2
  obtain ⟨hbound, hbuilt⟩ := hbuilds hlocal
  refine ⟨hcreate, hself, m, p, Answer.eq_found hm, hdynamic, hp, hparameters, hlocal,
    hnames, hbound, fun q hq value hvalue => ?_, hbuilt⟩
  obtain ⟨i, hi⟩ := List.mem_iff_getElem?.mp hq
  exact (hsuits i q hi).accepted (hlocal q hq).1 value hvalue

/-- A required parameter whose part of the path is empty is not bound. -/
theorem found_values_can_be_missing : ¬ ∀ (space : String) (chunkSize : Chunk.Size)
    (start : RouteStore),
    create space chunkSize = .ok start →
    ∀ (ops : List Operation) (method : Value) (path : String) (m : RouteMatch) (p : RoutePattern),
      ((start.run ops).perform (.request method (.text path))).1.answer = .found (.ok (some m)) →
      m.route.pattern? = some p →
        (∀ q ∈ p.parameters, q.optional = false → ∃ value, (q.name, value) ∈ m.parameters) ∧
        (∀ entry ∈ m.parameters, entry.1 ∈ m.route.parameterNames) ∧
        ∀ q ∈ p.parameters, ∀ value, (q.name, value) ∈ m.parameters →
          q.accepts value = .ok true := by
  intro hclaim
  have hmatch : (((draftStart.run draftPlan).perform
      (.request (.text "GET") (.text "x//y"))).1.answer.match?.any fun m =>
        decide (m.parameters = []) && m.route.pattern?.any fun p => p.parameters.any fun q =>
          !q.optional) = true := by
    decide +kernel
  obtain ⟨m, hm, hfacts⟩ := (Option.any_eq_true _ _).mp hmatch
  simp only [Bool.and_eq_true, decide_eq_true_eq] at hfacts
  obtain ⟨p, hp, hrequired⟩ := (Option.any_eq_true _ _).mp hfacts.2
  obtain ⟨q, hq, hoptional⟩ := List.any_eq_true.mp hrequired
  obtain ⟨value, hvalue⟩ := (hclaim "" (.whole 10) draftStart rfl draftPlan (.text "GET") "x//y" m p
    (Answer.eq_found hm) hp).1 q hq (by simpa using hoptional)
  rw [hfacts.1] at hvalue
  cases hvalue

end RouteStore

end NamedRoutes
