import NamedRoutes.Proofs.Pattern.Acceptance
import NamedRoutes.Proofs.Store.Refinement

/-!
What can go wrong in a store. As long as the check of a placeholder is enough for every expression
that is offered, a registration either succeeds or is rejected for itself, and no request fails
later.
-/

namespace NamedRoutes

/-- Whether the path of a candidate is a text for which the check of placeholders is enough. -/
def Candidate.IsHarmless (c : Candidate) : Prop :=
  ∃ path, c.path = .text path ∧
    ∀ text ∈ RoutePattern.placeholderTexts (Path.trim path), Expression.IsPlaceable text

def Answer.rejection? : Answer → Option Error
  | .added (.error e) => some e
  | .addedAll (.error e) => some e
  | _ => none

namespace RouteStore

variable {s : RouteStore}

theorem target_error {path : String} {e : Error} (h : s.target path = .error e) :
    e.isA .registration = true ∨ (e.IsBadText ∧
      ¬ ∀ text ∈ RoutePattern.placeholderTexts path, Expression.IsPlaceable text) := by
  unfold target at h
  by_cases hstatic : Path.isStatic path = true
  · rw [if_pos hstatic] at h
    unfold Path.checkStatic at h
    by_cases htext : Path.isStaticText path.toList = true
    · rw [if_pos htext] at h
      cases h
    · rw [if_neg htext] at h
      cases h
      exact Or.inl rfl
  · rw [if_neg hstatic] at h
    cases hcompile : RoutePattern.compile path s.space with
    | error cause =>
        rw [hcompile] at h
        cases h
        exact RoutePattern.compile_error hcompile
    | ok p =>
        rw [hcompile] at h
        cases h

/-- A candidate is refused for itself, unless the check is not enough for one of its placeholders.
-/
theorem prepare_error {pending : List Route} {c : Candidate} {e : Error}
    (hc : ∃ path, c.path = .text path) (h : s.prepare pending c = .error e) :
    e.isA .registration = true ∨ (e.IsBadText ∧ ¬ c.IsHarmless) := by
  rcases s.prepare_cases pending c with ⟨route, hroute, _⟩ | ⟨cause, hcause, hkind⟩
  · rw [hroute] at h
    cases h
  obtain rfl := Except.error.inj (hcause.symm.trans h)
  rcases hkind with hregistration | htarget
  · exact Or.inl hregistration
  obtain ⟨path, hpath⟩ := hc
  rw [hpath] at htarget
  simp only [Candidate.checkPath, bind, Except.bind] at htarget
  refine (target_error htarget).imp_right fun hwrong => ⟨hwrong.1, fun hharmless => hwrong.2 ?_⟩
  obtain ⟨other, hother, hplaceable⟩ := hharmless
  obtain rfl := Value.text.inj (hpath.symm.trans hother)
  exact hplaceable

theorem prepareAll_error (cs : List Candidate) {pending : List Route} {e : Error}
    (hcs : ∀ c ∈ cs, ∃ path, c.path = .text path) (h : s.prepareAll pending cs = .error e) :
    e.isA .registration = true ∨ (e.IsBadText ∧ ∃ c ∈ cs, ¬ c.IsHarmless) := by
  induction cs generalizing pending with
  | nil => cases h
  | cons c rest ih =>
      obtain ⟨hc, hrest⟩ := List.forall_mem_cons.mp hcs
      unfold prepareAll at h
      cases hprepare : s.prepare pending c with
      | error cause =>
          rw [hprepare] at h
          cases h
          exact (prepare_error hc hprepare).imp_right fun hwrong =>
            ⟨hwrong.1, c, List.mem_cons_self .., hwrong.2⟩
      | ok route =>
          rw [hprepare] at h
          rcases ih hrest h with hregistration | ⟨hbad, other, hother, hharmful⟩
          · exact Or.inl hregistration
          · exact Or.inr ⟨hbad, other, List.mem_cons_of_mem _ hother, hharmful⟩

theorem rejection_error {op : Operation} {e : Error}
    (hop : ∀ c ∈ op.candidates, ∃ path, c.path = .text path)
    (h : (s.perform op).1.answer.rejection? = some e) :
    e.isA .registration = true ∨ (e.IsBadText ∧ ∃ c ∈ op.candidates, ¬ c.IsHarmless) := by
  cases op with
  | add c =>
      simp only [perform, add] at h
      cases hprepare : s.prepare [] c with
      | error cause =>
          rw [hprepare] at h
          cases h
          exact (prepare_error (hop c (List.mem_singleton_self c)) hprepare).imp_right
            fun hwrong => ⟨hwrong.1, c, List.mem_singleton_self c, hwrong.2⟩
      | ok route =>
          rw [hprepare] at h
          cases h
  | addAll cs =>
      simp only [perform, addAll] at h
      cases hprepare : s.prepareAll [] cs with
      | error cause =>
          rw [hprepare] at h
          cases h
          exact prepareAll_error cs hop hprepare
      | ok routes =>
          rw [hprepare] at h
          cases h
  | request method path =>
      simp only [perform] at h
      cases hmatch : s.match? method path <;> rw [hmatch] at h <;> cases h
  | sources =>
      simp only [perform] at h
      cases hprepared : s.prepared <;> rw [hprepared] at h <;> cases h

/-- Every route that an operation registers comes from one of its candidates. -/
theorem passes_of_registered (s : RouteStore) (op : Operation) :
    ∀ route ∈ (s.perform op).1.registered,
      ∃ c ∈ op.candidates, ∃ pending, s.Passes pending c route := by
  refine s.registered_induction (motive := fun routes => ∀ route ∈ routes,
    ∃ c ∈ op.candidates, ∃ pending, s.Passes pending c route) op (List.forall_mem_nil _) ?_
  intro c hc pending route hpending hprepare
  exact List.forall_mem_append.mpr ⟨hpending,
    List.forall_mem_singleton.mpr ⟨c, hc, pending, passes_of_prepare hprepare⟩⟩

/-- What holds of every operation of a run, whatever the store before it. -/
theorem forall_records {P : Record → Prop} (ops : List Operation)
    (h : ∀ (t : RouteStore), ∀ op ∈ ops, P (t.perform op).1) : ∀ r ∈ s.records ops, P r := by
  induction ops generalizing s with
  | nil => exact List.forall_mem_nil _
  | cons op rest ih =>
      exact List.forall_mem_cons.mpr ⟨h s op (List.mem_cons_self ..),
        ih fun t other hother => h t other (List.mem_cons_of_mem _ hother)⟩

theorem selfContained_of_registered (s : RouteStore) {op : Operation}
    (hop : ∀ c ∈ op.candidates, c.IsHarmless) :
    ∀ route ∈ (s.perform op).1.registered, ∀ p, route.pattern? = some p →
      ∀ q ∈ p.parameters, q.IsSelfContained := by
  intro route hroute p hp
  obtain ⟨c, hc, pending, hpasses⟩ := s.passes_of_registered op route hroute
  obtain ⟨path, hpath, hcompile⟩ := hpasses.compile hp
  obtain ⟨text, htext, hplaceable⟩ := hop c hc
  rw [htext] at hpath
  obtain rfl := Except.ok.inj hpath
  exact RoutePattern.isSelfContained_of_placeable hplaceable hcompile

theorem selfContained_of_harmless (ops : List Operation)
    (h : ∀ op ∈ ops, ∀ c ∈ op.candidates, c.IsHarmless) :
    SelfContained (history (s.records ops)) := by
  intro p hp q hq _
  obtain ⟨route, hroute, hpattern⟩ := List.mem_filterMap.mp hp
  obtain ⟨r, hr, hmem⟩ := List.mem_flatMap.mp hroute
  exact forall_records (P := fun r => ∀ route ∈ r.registered, ∀ p, route.pattern? = some p →
    ∀ q ∈ p.parameters, q.IsSelfContained) ops
    (fun t op hop => t.selfContained_of_registered (h op hop)) r hr route hmem p hpattern q hq

theorem freshMatcher_error {e : Error} (h : s.freshMatcher = .error e) :
    e = .noPieces ∨ e = .unknownPieces ∨ e.IsBadText := by
  unfold freshMatcher ChunkedMatcher.build at h
  cases hsplit : Chunk.split s.patterns.entries s.chunkSize with
  | error cause =>
      simp only [hsplit, bind, Except.bind] at h
      cases h
      rcases Chunk.split_error hsplit with hnone | hunknown
      · exact Or.inl hnone
      · exact Or.inr (Or.inl hunknown)
  | ok pieces =>
      simp only [hsplit, bind, Except.bind] at h
      cases hbuilt : pieces.mapM Chunk.build with
      | ok chunks =>
          simp only [hbuilt] at h
          cases h
      | error cause =>
          simp only [hbuilt] at h
          cases h
          obtain ⟨piece, _, hpiece⟩ := Chunk.mapM_error pieces hbuilt
          unfold Chunk.build at hpiece
          cases hcompile : Expression.compile (Chunk.source piece) with
          | ok expression =>
              rw [hcompile] at hpiece
              cases hpiece
          | error fault =>
              rw [hcompile] at hpiece
              cases hpiece
              exact Or.inr (Or.inr ⟨_, fault, rfl, hcompile⟩)

theorem freshAnswer_error {method : Value} {path : String} {e : Error}
    (h : s.freshAnswer method (.text path) = .error e) :
    e = .badMatch .reversedGroup ∨ e = .noPieces ∨ e = .unknownPieces ∨ e.IsBadText := by
  unfold freshAnswer at h
  cases hmethod : Method.ofValue? method with
  | none =>
      simp only [hmethod] at h
      cases h
  | some known =>
      simp only [hmethod, Candidate.checkPath, bind, Except.bind, freshTrimmed] at h
      split at h
      · cases h
      · split at h
        · cases h
        · cases hmatcher : s.freshMatcher with
          | error cause =>
              simp only [hmatcher] at h
              cases h
              exact Or.inr (freshMatcher_error hmatcher)
          | ok matcher =>
              simp only [hmatcher] at h
              change ChunkedMatcher.search known _ matcher.chunks = _ at h
              rw [ChunkedMatcher.search_eq] at h
              cases hdecision : ChunkedMatcher.decision? (Path.trim path) matcher.chunks with
              | ok decision =>
                  rw [hdecision] at h
                  cases h
              | error cause =>
                  rw [hdecision] at h
                  cases h
                  cases cause
                  exact Or.inl rfl

/-- What can go wrong with registrations whose paths are texts, and with requests after them. A
registration is refused for itself, or because a text that was made of its path is no expression
although its placeholders have passed the check. A request fails because a text that was made of
several patterns is no expression, because there are no pieces of the size of chunks, or because a
match cannot be reported. As long as the check is enough for every placeholder, none of this
happens, and for ordinary sizes of chunks no request fails. -/
theorem bad_patterns_are_rejected (space : String) (chunkSize : Chunk.Size) (start : RouteStore)
    (hstart : create space chunkSize = .ok start) (ops : List Operation)
    (hpaths : ∀ op ∈ ops, ∀ c ∈ op.candidates, ∃ path, c.path = .text path) :
    (∀ r ∈ start.records ops, ∀ e, r.answer.rejection? = some e → e.isA .registration = true ∨
      (e.IsBadText ∧ ∃ op ∈ ops, ∃ c ∈ op.candidates, ¬ c.IsHarmless)) ∧
    ∀ (method : Value) (path : String), ∃ result,
      ((start.run ops).perform (.request method (.text path))).1.answer = .found result ∧
      (∀ e, result = .error e →
        e = .badMatch .reversedGroup ∨ e = .noPieces ∨ e = .unknownPieces ∨ e.IsBadText) ∧
      ((∀ op ∈ ops, ∀ c ∈ op.candidates, c.IsHarmless) → chunkSize.IsOrdinary →
        ∃ found, result = .ok found) := by
  constructor
  · refine forall_records (P := fun r => ∀ e, r.answer.rejection? = some e → _ ∨ _) ops ?_
    intro t op hop e he
    exact (rejection_error (hpaths op hop) he).imp_right fun ⟨hbad, hharmful⟩ =>
      ⟨hbad, op, hop, hharmful⟩
  · intro method path
    have hanswer := perform_answer _ (run_current space chunkSize start hstart ops)
      (.request method (.text path))
    refine ⟨_, hanswer, fun e he => freshAnswer_error he, fun hharmless hsize => ?_⟩
    have hself := selfContained_of_harmless (s := start) ops hharmless
    rw [Answer.found.inj (hanswer.symm.trans (answer_refines hstart hsize ops hself method path))]
    exact LinearScan.exists_search ((mirrors_of_create hstart ops).reports hself)
      start.space method path

/-- A route whose placeholder switches a flag on for the whole expression, and two routes whose
placeholders name a group alike. Each of these expressions passes the check. -/
def spoiltPlan : List Operation :=
  let handler : Output := .function (.mk "show" true false none none .arguments)
  [.add ⟨.text "GET", .text "u/{id:?i)(a}", .text "user", handler⟩,
    .add ⟨.text "GET", .text "{n:?P<n>a}", .text "one", handler⟩,
    .add ⟨.text "GET", .text "x/{n:?P<n>a}", .text "two", handler⟩]

def spoiltStart : RouteStore := { space := "", chunkSize := .whole 10 }

theorem spoiltPlan_paths : ∀ op ∈ spoiltPlan, ∀ c ∈ op.candidates, ∃ path, c.path = .text path := by
  simp [spoiltPlan, Operation.candidates]

theorem bad_pattern_can_escape : ¬ ∀ (space : String) (chunkSize : Chunk.Size)
    (start : RouteStore), create space chunkSize = .ok start →
    ∀ ops : List Operation, (∀ op ∈ ops, ∀ c ∈ op.candidates, ∃ path, c.path = .text path) →
      (∀ r ∈ start.records ops, ∀ e, r.answer.rejection? = some e →
        e.isA .registration = true) ∧
      ∀ (method : Value) (path : String), ∃ found,
        ((start.run ops).perform (.request method (.text path))).1.answer = .found (.ok found) := by
  intro hclaim
  have hcreate : create "" (.whole 10) = .ok spoiltStart := rfl
  have hrecords := (hclaim "" (.whole 10) spoiltStart hcreate spoiltPlan spoiltPlan_paths).1
  have hescapes : ((spoiltStart.records spoiltPlan).any fun r =>
      r.answer.rejection?.any fun e => !e.isA .registration) = true := by
    decide +kernel
  obtain ⟨r, hr, hrejection⟩ := List.any_eq_true.mp hescapes
  obtain ⟨e, he, hunsorted⟩ := (Option.any_eq_true _ _).mp hrejection
  rw [hrecords r hr e he] at hunsorted
  cases hunsorted

/-- After the two routes that are accepted, every request that is passed on to the matcher fails. -/
theorem spoilt_store_fails (method : Value) (path : String)
    (h : (spoiltStart.run spoiltPlan).Consults method path) :
    ∃ e, ((spoiltStart.run spoiltPlan).perform (.request method (.text path))).1.answer =
      .found (.error e) := by
  have hcreate : create "" (.whole 10) = .ok spoiltStart := rfl
  have hfails : (spoiltStart.run spoiltPlan).freshMatcher.isOk = false := by decide +kernel
  obtain ⟨known, hmethod, hconsults⟩ := h
  rw [perform_answer _ (run_current "" (.whole 10) spoiltStart hcreate spoiltPlan), bareAnswer]
  unfold freshAnswer
  rw [hmethod]
  simp only [Candidate.checkPath, bind, Except.bind]
  rw [freshTrimmed_of_consults _ known _ hconsults]
  cases hmatcher : (spoiltStart.run spoiltPlan).freshMatcher with
  | ok matcher =>
      rw [hmatcher] at hfails
      cases hfails
  | error e => exact ⟨e, rfl⟩

def refusedPlan : List Operation :=
  let handler : Output := .function (.mk "show" true false none none .arguments)
  [.add ⟨.text "GET", .text "u/{id:[}", .text "user", handler⟩,
    .add ⟨.text "GET", .text "u/{id:i}", .text "user", handler⟩,
    .addAll [⟨.text "GET", .text "u/{number:i}", .text "other", handler⟩]]

theorem bad_patterns_are_rejected_for_refused_plan :
    let start : RouteStore := { space := "", chunkSize := .whole 10 }
    create "" (.whole 10) = .ok start ∧
    (∀ op ∈ refusedPlan, ∀ c ∈ op.candidates, c.IsHarmless) ∧
    (start.records refusedPlan).map (·.answer.rejection?.isSome) = [true, false, true] ∧
    (∀ r ∈ start.records refusedPlan, ∀ e, r.answer.rejection? = some e →
      e.isA .registration = true) ∧
    ∀ (method : Value) (path : String), ∃ found,
      ((start.run refusedPlan).perform (.request method (.text path))).1.answer =
        .found (.ok found) := by
  intro start
  have hcreate : create "" (.whole 10) = .ok start := rfl
  have hharmless : ∀ op ∈ refusedPlan, ∀ c ∈ op.candidates, c.IsHarmless := by
    simp only [refusedPlan, Operation.candidates, List.forall_mem_cons]
    refine ⟨⟨⟨_, rfl, ?_⟩, List.forall_mem_nil _⟩, ⟨⟨_, rfl, ?_⟩, List.forall_mem_nil _⟩,
      ⟨⟨_, rfl, ?_⟩, List.forall_mem_nil _⟩, List.forall_mem_nil _⟩
    all_goals decide +kernel
  have hpaths : ∀ op ∈ refusedPlan, ∀ c ∈ op.candidates, ∃ path, c.path = .text path :=
    fun op hop c hc => (hharmless op hop c hc).imp fun _ h => h.1
  obtain ⟨hrejected, hanswers⟩ :=
    bad_patterns_are_rejected "" (.whole 10) start hcreate refusedPlan hpaths
  refine ⟨hcreate, hharmless, by decide +kernel, fun r hr e he => ?_, fun method path => ?_⟩
  · refine (hrejected r hr e he).resolve_right ?_
    rintro ⟨_, op, hop, c, hc, hharmful⟩
    exact hharmful (hharmless op hop c hc)
  · obtain ⟨_, hanswer, _, hfound⟩ := hanswers method path
    obtain ⟨found, rfl⟩ := hfound hharmless (.whole (by decide) (by decide +kernel))
    exact ⟨found, hanswer⟩

end RouteStore

end NamedRoutes
