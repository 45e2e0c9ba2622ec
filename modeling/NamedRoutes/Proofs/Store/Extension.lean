import NamedRoutes.Proofs.Store.Consistency
import NamedRoutes.Proofs.Store.RebuiltPath

/-!
What a registration changes for requests. A further route stands behind the others: it is found
where nothing was found before, and nowhere else, except that a fixed path takes its own request
from the patterns. So no earlier request is lost, or led to a third route.
-/

namespace NamedRoutes

namespace LinearScan

variable {registered : List Route} {route : Route} {p : RoutePattern} {path : String}
  {method : Method}

/-- A further route is found at its own place, if no other is found there. -/
theorem find?_append (fixed : Bool) (key : String) :
    (registered ++ [route]).find? (·.isAt fixed key method) =
      (registered.find? (·.isAt fixed key method)).or
        (if route.isAt fixed key method then some route else none) := by
  rw [List.find?_append, List.find?_singleton]

/-- A further pattern decides where none did, if it decides. -/
theorem decider?_append (hp : route.pattern? = some p) :
    decider? (registered ++ [route]) path = (decider? registered path).or
      (if endsSearch (p.expression.fullMatch? path) then some p else none) := by
  have hpatterns : (registered ++ [route]).filterMap Route.pattern? =
      registered.filterMap Route.pattern? ++ [p] := by
    simp [hp]
  unfold decider?
  rw [hpatterns, List.find?_append, List.find?_singleton]

/-- The patterns do not look at fixed paths. -/
theorem searchPatterns_append_fixed (hfixed : route.isFixed = true) :
    searchPatterns (registered ++ [route]) method path = searchPatterns registered method path := by
  have hnone : route.pattern? = none := Option.isNone_iff_eq_none.mp hfixed
  have hdecider : decider? (registered ++ [route]) path = decider? registered path := by
    simp [decider?, hnone]
  have hresolve : ∀ q own,
      resolve (registered ++ [route]) method q own = resolve registered method q own := by
    intro q own
    have haway : route.isAt false q.regex method = false := by simp [Route.isAt, hfixed]
    simp [resolve, haway]
  unfold searchPatterns
  rw [hdecider]
  cases decider? registered path with
  | none => rfl
  | some q => simp only [funext (hresolve q)]

/-- Where no registered pattern decides but a further one would, no route is registered for it. -/
theorem find?_eq_none_of_decider? (hsound : ∀ r ∈ registered, r.IsSound) (hp : p.IsCompiled)
    (hnone : decider? registered path = none)
    (hends : endsSearch (p.expression.fullMatch? path) = true) :
    registered.find? (·.isAt false p.regex method) = none := by
  refine List.find?_eq_none.mpr fun r hr hat => ?_
  simp only [Route.isAt, Bool.and_eq_true, beq_iff_eq] at hat
  obtain ⟨q, hq, hkey, _⟩ := Route.pattern?_of_not_isFixed hat.1.1
  have hsame : q.expression = p.expression :=
    RoutePattern.expression_congr (hsound r hr q hq) hp (hkey.symm.trans hat.1.2)
  have hdecides := List.find?_eq_none.mp hnone q (List.mem_filterMap.mpr ⟨r, hr, hq⟩)
  rw [hsame] at hdecides
  exact hdecides hends

/-- Whether a further route is found by its own method where nothing was, and where no pattern with
another expression decides. -/
structure Fills (registered : List Route) (route : Route) (path : String) : Prop where
  unfound : searchPatterns registered route.method path = .ok none
  unclaimed : ∀ q, decider? registered path = some q → q.regex = route.key
  found : ∃ parameters,
    searchPatterns (registered ++ [route]) route.method path = .ok (some ⟨route, parameters⟩)

/-- The route for a decided pattern is another one only if it is the further route. -/
theorem resolve_append (method : Method) (hp : route.pattern? = some p)
    (hfresh : registered.find? (·.isAt false route.key route.method) = none) (q : RoutePattern)
    (own : Matched) :
    resolve (registered ++ [route]) method q own = resolve registered method q own ∨
      (q.regex = route.key ∧ method = route.method ∧ resolve registered method q own = none ∧
        resolve (registered ++ [route]) method q own =
          some ⟨route, own.parameters 0 route.parameterNames⟩) := by
  obtain ⟨hfixed, hkey, _⟩ := Route.key_of_pattern? hp
  unfold resolve
  rw [find?_append]
  cases hat : route.isAt false q.regex method with
  | false => exact Or.inl (by simp)
  | true =>
      simp only [Route.isAt, Bool.and_eq_true, beq_iff_eq] at hat
      obtain ⟨⟨_, hregex⟩, rfl⟩ := hat
      rw [← hregex, hfresh]
      exact Or.inr ⟨rfl, rfl, rfl, rfl⟩

/-- The registered routes answer as if the further pattern had been asked for as well, if its own
matches can be reported. -/
theorem searchPatterns_eq_further (method : Method)
    (hsound : ∀ r ∈ registered ++ [route], r.IsSound) (hp : route.pattern? = some p)
    (hreports : ∀ cause, p.expression.fullMatch? path ≠ .error cause) :
    searchPatterns registered method path =
      match decider? (registered ++ [route]) path with
      | none => .ok none
      | some q =>
          match q.expression.fullMatch? path with
          | .error cause => .error (.badMatch cause)
          | .ok found => .ok (found.bind (resolve registered method q)) := by
  unfold searchPatterns
  rw [decider?_append hp]
  cases hold : decider? registered path with
  | some q => rfl
  | none =>
      cases hends : endsSearch (p.expression.fullMatch? path) with
      | false => rfl
      | true =>
          have hnone : ∀ own, resolve registered method p own = none := by
            intro own
            unfold resolve
            rw [find?_eq_none_of_decider? (fun r hr => hsound r (List.mem_append_left _ hr))
              (hsound route (by simp) p hp) hold hends]
            rfl
          cases hmatch : p.expression.fullMatch? path with
          | error cause => exact absurd hmatch (hreports cause)
          | ok found => simp [hmatch, funext hnone]

/-- A further pattern is found where nothing was, if its own matches can be reported. -/
theorem searchPatterns_append_pattern (method : Method)
    (hsound : ∀ r ∈ registered ++ [route], r.IsSound) (hp : route.pattern? = some p)
    (hfresh : registered.find? (·.isAt false route.key route.method) = none)
    (hreports : ∀ cause, p.expression.fullMatch? path ≠ .error cause) :
    searchPatterns (registered ++ [route]) method path = searchPatterns registered method path ∨
      (method = route.method ∧ Fills registered route path) := by
  have hold := searchPatterns_eq_further method hsound hp hreports
  cases hdecider : decider? (registered ++ [route]) path with
  | none =>
      refine Or.inl ?_
      rw [hold]
      simp only [searchPatterns, hdecider]
  | some q =>
      rw [hdecider] at hold
      cases hmatch : q.expression.fullMatch? path with
      | error cause =>
          refine Or.inl ?_
          rw [hold]
          simp only [searchPatterns, hdecider, hmatch]
      | ok found =>
          cases found with
          | none =>
              refine Or.inl ?_
              rw [hold]
              simp only [searchPatterns, hdecider, hmatch, Option.bind_none]
          | some own =>
              have hnew : searchPatterns (registered ++ [route]) method path =
                  .ok (resolve (registered ++ [route]) method q own) := by
                simp only [searchPatterns, hdecider, hmatch, Option.bind_some]
              simp only [hmatch, Option.bind_some] at hold
              rcases resolve_append method hp hfresh q own with
                hsame | ⟨hregex, hmethod, hunfound, hfound⟩
              · exact Or.inl (by rw [hnew, hold, hsame])
              · subst hmethod
                refine Or.inr ⟨rfl, by rw [hold, hunfound], fun other hother => ?_, _,
                  hnew.trans (congrArg Except.ok hfound)⟩
                rw [decider?_append hp, hother] at hdecider
                rw [Option.some.inj hdecider, hregex]

variable {space : String}

/-- A further fixed path takes its own request, whatever answered it before, and no other one. -/
theorem search_append_fixed (hfixed : route.isFixed = true)
    (hfresh : registered.find? (·.isAt true route.key route.method) = none)
    (hspace : space.toList <+: route.key.toList) (method : Value) (path : String) :
    search space (registered ++ [route]) method path =
      if Method.ofValue? method = some route.method ∧ Path.trim path = route.key then
        .ok (some ⟨route, []⟩)
      else search space registered method path := by
  unfold search
  cases hknown : Method.ofValue? method with
  | none => simp
  | some known =>
      simp only [Option.some.injEq, searchTrimmed, find?_append, searchPatterns_append_fixed hfixed]
      by_cases hown : known = route.method ∧ Path.trim path = route.key
      · obtain ⟨rfl, hpath⟩ := hown
        have hat : route.isAt true route.key route.method = true := by simp [Route.isAt, hfixed]
        have hwithin : space.toList.isPrefixOf route.key.toList = true :=
          List.isPrefixOf_iff_prefix.mpr hspace
        simp only [hpath, hwithin, hfresh, hat, if_true, Option.none_or, Bool.not_true,
          Bool.false_eq_true, if_false, and_self]
      · have haway : route.isAt true (Path.trim path) known = false := by
          rw [Bool.eq_false_iff]
          simp only [ne_eq, Route.isAt, Bool.and_eq_true, beq_iff_eq]
          exact fun hat => hown ⟨hat.2.symm, hat.1.2.symm⟩
        simp only [haway, Bool.false_eq_true, if_false, Option.or_none, if_neg hown]

/-- A further pattern is found where nothing was. -/
theorem search_append_pattern (hsound : ∀ r ∈ registered ++ [route], r.IsSound)
    (hp : route.pattern? = some p)
    (hfresh : registered.find? (·.isAt false route.key route.method) = none)
    (hreports : ∀ path cause, p.expression.fullMatch? path ≠ .error cause) (method : Value)
    (path : String) :
    search space (registered ++ [route]) method path = search space registered method path ∨
      (Method.ofValue? method = some route.method ∧
        Fills registered route (Path.trim path) ∧
        search space registered method path = .ok none ∧
        ∃ parameters, search space (registered ++ [route]) method path =
          .ok (some ⟨route, parameters⟩)) := by
  unfold search
  cases hknown : Method.ofValue? method with
  | none => exact Or.inl rfl
  | some known =>
      have haway : route.isAt true (Path.trim path) known = false := by
        simp [Route.isAt, (Route.key_of_pattern? hp).1]
      simp only [searchTrimmed, find?_append, haway, Bool.false_eq_true, if_false, Option.or_none]
      cases space.toList.isPrefixOf (Path.trim path).toList with
      | false => exact Or.inl rfl
      | true =>
          cases registered.find? (·.isAt true (Path.trim path) known) with
          | some fixed => exact Or.inl rfl
          | none =>
              rcases searchPatterns_append_pattern known hsound hp hfresh
                (hreports (Path.trim path)) with hsame | ⟨rfl, hfills⟩
              · exact Or.inl hsame
              · exact Or.inr ⟨by simp, hfills, hfills.unfound, hfills.found⟩

end LinearScan

namespace RouteStore

variable {s : RouteStore} {registered pending : List Route} {c : Candidate} {route : Route}

/-- A further registration makes the history longer by its route. -/
theorem history_add {start : RouteStore} (ops : List Operation) {out : Outcome Route}
    (hadd : (start.run ops).add c = .ok out) :
    out.store = start.run (ops ++ [.add c]) ∧
      history (start.records (ops ++ [.add c])) = history (start.records ops) ++ [out.value] := by
  obtain ⟨hprepare, hstore⟩ := add_eq_ok hadd
  have hperform := perform_add (start.run ops) c
  rw [hprepare] at hperform
  constructor
  · rw [run_append]
    simp only [run, hperform, hstore]
  · rw [records_append, history, List.flatMap_append]
    simp only [records, hperform, List.flatMap_cons, List.flatMap_nil, List.append_nil]
    rfl

/-- No other registered route has the place of a route that has passed the checks. -/
theorem Mirrors.find?_eq_none (h : s.Mirrors registered) (hpasses : s.Passes pending c route) :
    registered.find? (·.isAt route.isFixed route.key route.method) = none := by
  rw [← h.find]
  exact hpasses.fresh

/-- The key of a fixed route is its path, which starts with the namespace. -/
theorem Passes.space_prefix (h : s.Passes pending c route) (hfixed : route.isFixed = true) :
    route.path = route.key ∧ s.space.toList <+: route.key.toList := by
  have hpath : route.path = route.key := by
    unfold Route.path
    rw [Route.target_of_isFixed hfixed]
  refine ⟨hpath, ?_⟩
  by_cases hspace : s.space = ""
  · rw [hspace]
    exact List.nil_prefix
  · rcases h.liesIn hspace with hroot | hinside
    · exact ⟨[], by rw [List.append_nil, ← hpath, hroot]⟩
    · rw [hpath, String.toList_append] at hinside
      exact (List.prefix_append _ _).trans hinside

/-- A further route without written out expressions keeps the routes self-contained. -/
theorem SelfContained.append (h : SelfContained registered)
    (hstock : ∀ p, route.pattern? = some p → ∀ q ∈ p.parameters, ¬ q.IsCustom) :
    SelfContained (registered ++ [route]) := by
  intro p hp q hq hcustom
  obtain ⟨r, hr, hpattern⟩ := List.mem_filterMap.mp hp
  rcases List.mem_append.mp hr with hold | hnew
  · exact h p (List.mem_filterMap.mpr ⟨r, hold, hpattern⟩) q hq hcustom
  · rw [List.mem_singleton.mp hnew] at hpattern
    exact absurd hcustom (hstock p hpattern q hq)

/-- A request before a registration is answered by the scan of what was registered, and after it by
the scan with the further route. -/
theorem answers_add {space : String} {chunkSize : Chunk.Size} {start : RouteStore}
    (hstart : create space chunkSize = .ok start) (hsize : chunkSize.IsOrdinary)
    {ops : List Operation} (hself : SelfContained (history (start.records ops)))
    {out : Outcome Route} (hadd : (start.run ops).add c = .ok out)
    (hstock : ∀ p, out.value.pattern? = some p → ∀ q ∈ p.parameters, ¬ q.IsCustom) (method : Value)
    (path : String) :
    ((start.run ops).perform (.request method (.text path))).1.answer =
        .found (LinearScan.search start.space (history (start.records ops)) method path) ∧
      (out.store.perform (.request method (.text path))).1.answer =
        .found
          (LinearScan.search start.space (history (start.records ops) ++ [out.value])
            method path) := by
  obtain ⟨hstore, hhistory⟩ := history_add ops hadd
  have hextended := hself.append hstock
  rw [← hhistory] at hextended ⊢
  rw [hstore]
  exact ⟨answer_refines hstart hsize ops hself method path,
    answer_refines hstart hsize _ hextended method path⟩

/-- A registration extends what a store answers. A request is answered as before, or by the new
route. A new pattern is found only where nothing was found before, and where no pattern with another
expression decides; so every match stays as it was. A new fixed path changes the answer to the one
request that asks for it. -/
theorem registration_extends (space : String) (chunkSize : Chunk.Size) (start : RouteStore)
    (hstart : create space chunkSize = .ok start) (hsize : chunkSize.IsOrdinary)
    (ops : List Operation) (hself : SelfContained (history (start.records ops))) (c : Candidate)
    (out : Outcome Route) (hadd : (start.run ops).add c = .ok out)
    (hstock : ∀ p, out.value.pattern? = some p → ∀ q ∈ p.parameters, ¬ q.IsCustom) (method : Value)
    (path : String) :
    let old := ((start.run ops).perform (.request method (.text path))).1.answer
    let new := (out.store.perform (.request method (.text path))).1.answer
    (new = old ∨ ∃ parameters, new = .found (.ok (some ⟨out.value, parameters⟩))) ∧
    (∀ m, old = .found (.ok (some m)) → out.value.isFixed = false → new = old) ∧
    (out.value.isFixed = true → new =
      if Method.ofValue? method = some out.value.method ∧ Path.trim path = out.value.path then
        .found (.ok (some ⟨out.value, []⟩))
      else old) ∧
    (out.value.isFixed = false → new ≠ old → old = .found (.ok none) ∧
      Method.ofValue? method = some out.value.method ∧
      LinearScan.Fills (history (start.records ops)) out.value (Path.trim path)) := by
  intro old new
  have hpasses := passes_of_prepare (add_eq_ok hadd).1
  have hspace := (run_settings start ops).1
  have hfurther := mirrors_of_create hstart (ops ++ [.add c])
  rw [(history_add ops hadd).2] at hfurther
  have hfresh := (mirrors_of_create hstart ops).find?_eq_none hpasses
  obtain ⟨hold, hnew⟩ : old = .found (LinearScan.search start.space _ method path) ∧
      new = .found (LinearScan.search start.space _ method path) :=
    answers_add hstart hsize hself hadd hstock method path
  cases hfixed : out.value.isFixed with
  | true =>
      rw [hfixed] at hfresh
      obtain ⟨hpath, hprefix⟩ := hpasses.space_prefix hfixed
      rw [hspace] at hprefix
      rw [LinearScan.search_append_fixed hfixed hfresh hprefix, ← hpath] at hnew
      by_cases hown : Method.ofValue? method = some out.value.method ∧
        Path.trim path = out.value.path
      · rw [if_pos hown] at hnew ⊢
        exact ⟨Or.inr ⟨[], hnew⟩, nofun, fun _ => hnew, nofun⟩
      · rw [if_neg hown] at hnew ⊢
        have hunchanged : new = old := hnew.trans hold.symm
        exact ⟨Or.inl hunchanged, nofun, fun _ => hunchanged, nofun⟩
  | false =>
      rw [hfixed] at hfresh
      obtain ⟨p, hp, _⟩ := Route.pattern?_of_not_isFixed hfixed
      have hreports := RoutePattern.fullMatch?_ne_error (hpasses.sound p hp)
        fun q hq => Parameter.isSelfContained_of_not_isCustom (hstock p hp q hq)
      rcases LinearScan.search_append_pattern hfurther.sound hp hfresh hreports method path with
        hsame | ⟨hmethod, hfills, hunfound, parameters, hfound⟩
      · have hunchanged : new = old := by rw [hnew, hold, hsame]
        exact ⟨Or.inl hunchanged, fun _ _ _ => hunchanged, nofun,
          fun _ hno => absurd hunchanged hno⟩
      · rw [hfound] at hnew
        rw [hunfound] at hold
        refine ⟨Or.inr ⟨parameters, hnew⟩, ?_, nofun, fun _ _ => ⟨hold, hmethod, hfills⟩⟩
        intro m hm
        rw [hold] at hm
        cases hm

def peoplePlan : List Operation :=
  let handler : Output := .function (.mk "show" true false none none .arguments)
  [.add ⟨.text "GET", .text "u/{name:a}", .text "person", handler⟩,
    .request (.text "GET") (.text "/v/u/me/"),
    .add ⟨.text "GET", .text "u/me", .text "self", handler⟩]

def renamingCandidate : Candidate :=
  let handler : Output := .function (.mk "show" true false none none .arguments)
  ⟨.text "POST", .text "u/{new:a}/", .text "rename", handler⟩

def renamingAnswer (s : RouteStore) : Answer :=
  (s.perform (.request (.text "POST") (.text "/v/u/me/"))).1.answer

theorem registration_extends_for_renaming :
    let start : RouteStore := { space := "v", chunkSize := .whole 10 }
    create "/v/" (.whole 10) = .ok start ∧ (Chunk.Size.whole 10).IsOrdinary ∧
    SelfContained (history (start.records peoplePlan)) ∧
    ∃ out, (start.run peoplePlan).add renamingCandidate = .ok out ∧
      (∀ p, out.value.pattern? = some p → ∀ q ∈ p.parameters, ¬ q.IsCustom) ∧
      (start.run peoplePlan).renamingAnswer = .found (.ok none) ∧
      out.store.renamingAnswer.match?.map (fun m => (m.route.name, m.parameters)) =
        some ("rename", [("new", "me")]) ∧
      LinearScan.Fills (history (start.records peoplePlan)) out.value "v/u/me" := by
  intro start
  have hcreate : create "/v/" (.whole 10) = .ok start := rfl
  have hsize : (Chunk.Size.whole 10).IsOrdinary := .whole (by decide) (by decide +kernel)
  have hfacts : SelfContained (history (start.records peoplePlan)) ∧
      (start.run peoplePlan).renamingAnswer.match?.isSome = false ∧
      (((start.run peoplePlan).add renamingCandidate).toOption.any fun out =>
        decide (∀ p ∈ out.value.pattern?, ∀ q ∈ p.parameters, ¬ q.IsCustom) &&
          decide (out.value.isFixed = false ∧
            out.store.renamingAnswer.match?.map (fun m => (m.route.name, m.parameters)) =
              some ("rename", [("new", "me")]))) = true := by decide +kernel
  obtain ⟨hself, hold, hresult⟩ := hfacts
  obtain ⟨out, hout, hfacts⟩ := (Option.any_eq_true _ _).mp hresult
  have hadd := eq_ok_of_toOption hout
  obtain ⟨hstock, hfacts⟩ := Bool.and_eq_true_iff.mp hfacts
  have hstock : ∀ p, out.value.pattern? = some p → ∀ q ∈ p.parameters, ¬ q.IsCustom :=
    of_decide_eq_true hstock
  obtain ⟨hfixed, hanswer⟩ := of_decide_eq_true hfacts
  have hchanged : out.store.renamingAnswer ≠ (start.run peoplePlan).renamingAnswer := by
    intro hsame
    rw [← hsame] at hold
    cases hmatch : out.store.renamingAnswer.match? with
    | none => rw [hmatch] at hanswer; cases hanswer
    | some m => rw [hmatch] at hold; cases hold
  have hextends : (start.run peoplePlan).renamingAnswer = .found (.ok none) ∧
      Method.ofValue? (.text "POST") = some out.value.method ∧
      LinearScan.Fills (history (start.records peoplePlan)) out.value (Path.trim "/v/u/me/") :=
    (registration_extends "/v/" (.whole 10) start hcreate hsize peoplePlan hself
      renamingCandidate out hadd
      hstock (.text "POST") "/v/u/me/").2.2.2 hfixed hchanged
  obtain ⟨hnone, _, hfills⟩ := hextends
  have htrim : Path.trim "/v/u/me/" = "v/u/me" := by decide +kernel
  rw [htrim] at hfills
  exact ⟨hcreate, hsize, hself, out, hadd, hstock, hnone, hanswer, hfills⟩

end RouteStore

end NamedRoutes
