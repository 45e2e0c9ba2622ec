import NamedRoutes.Proofs.Store.Consistency

/-!
When a registration is accepted. What a candidate describes depends on nothing but the namespace;
apart from that a route needs a name and a place that no other route has. So it does not matter in
which order some routes come, as long as each of them can be added to the store and no two of them
are in each other's way.
-/

namespace NamedRoutes

/-- Whether two routes can be registered one after the other. -/
def Route.Compatible (q r : Route) : Prop :=
  q.name ≠ r.name ∧ ¬ (q.method = r.method ∧ q.key = r.key)

theorem Route.Compatible.symm {q r : Route} (h : q.Compatible r) : r.Compatible q :=
  ⟨Ne.symm h.1, fun ⟨hmethod, hkey⟩ => h.2 ⟨hmethod.symm, hkey.symm⟩⟩

namespace RouteStore

variable {s : RouteStore} {pending routes : List Route} {c : Candidate} {route : Route}

theorem target_congr {t : RouteStore} (h : t.space = s.space) : t.target = s.target := by
  funext path
  unfold target
  rw [h]

theorem describes_of_prepare (h : s.prepare pending c = .ok route) : s.Describes c route :=
  (accepted_of_prepare h).1

/-- The path that leads to a described route is a text. -/
theorem Describes.exists_text (h : s.Describes c route) :
    ∃ path, c.path = .text path ∧ s.target (Path.trim path) = .ok route.target :=
  exists_text_of_origin h.target

/-- The store has a part in it only through its namespace. -/
theorem Describes.of_space {t : RouteStore} (h : t.Describes c route) (hspace : t.space = s.space) :
    s.Describes c route :=
  ⟨h.method, h.name, h.handler, target_congr hspace ▸ h.target⟩

/-- A registration is accepted if it describes a route whose name is free and whose place is new, in
the store and among the routes that are about to be added. -/
theorem prepare_eq_ok_iff : s.prepare pending c = .ok route ↔
    s.Describes c route ∧ s.contains route.name = false ∧ s.IsFresh route ∧
      ∀ q ∈ pending, q.Compatible route := by
  constructor
  · intro h
    have hpasses := passes_of_prepare h
    obtain ⟨_, hfree, hnames⟩ := prepare_eq_ok h
    exact ⟨describes_of_prepare h, hfree, hpasses.fresh,
      fun q hq => ⟨hnames q hq, hpasses.distinct q hq⟩⟩
  · rintro ⟨⟨hmethod, hname, hhandler, htarget⟩, hfree, hfresh, hpending⟩
    have hnames : pending.any (·.name == route.name) = false :=
      List.any_eq_false.mpr fun q hq hsame => (hpending q hq).1 (beq_iff_eq.mp hsame)
    have hclashes : s.clashes route = false := by
      rw [clashes_eq, hfresh]
      rfl
    have hplaces : (pending.any fun q => q.method == route.method && q.key == route.key) =
        false := by
      refine List.any_eq_false.mpr fun q hq hsame => (hpending q hq).2 ?_
      simpa only [Bool.and_eq_true, beq_iff_eq] using hsame
    cases hpath : Candidate.checkPath c.path with
    | error e =>
        rw [hpath] at htarget
        cases htarget
    | ok path =>
        rw [hpath] at htarget
        change s.target path = .ok route.target at htarget
        unfold prepare
        simp only [hmethod, hname, hhandler, hpath, htarget, hfree, hnames, hclashes, hplaces, bind,
          Except.bind, Bool.or_self, Bool.false_eq_true, if_false]
        rfl

/-- Routes that are about to be added matter only if they are in the way. -/
theorem prepare_pending_eq_ok_iff : s.prepare pending c = .ok route ↔
    s.prepare [] c = .ok route ∧ ∀ q ∈ pending, q.Compatible route := by
  have halone : s.prepare [] c = .ok route ↔ _ := prepare_eq_ok_iff
  rw [prepare_eq_ok_iff, halone]
  constructor
  · rintro ⟨hdescribes, hfree, hfresh, hpending⟩
    exact ⟨⟨hdescribes, hfree, hfresh, List.forall_mem_nil _⟩, hpending⟩
  · rintro ⟨⟨hdescribes, hfree, hfresh, _⟩, hpending⟩
    exact ⟨hdescribes, hfree, hfresh, hpending⟩

/-- A batch is accepted if each of its registrations is by itself and no two of their routes are in
each other's way. -/
theorem prepareAll_eq_ok_iff (cs : List Candidate) : s.prepareAll pending cs = .ok routes ↔
    ∃ new, routes = pending ++ new ∧ cs.map (s.prepare []) = new.map .ok ∧
      (∀ q ∈ pending, ∀ r ∈ new, q.Compatible r) ∧ new.Pairwise Route.Compatible := by
  induction cs generalizing pending with
  | nil =>
      unfold prepareAll
      constructor
      · intro h
        exact ⟨[], by
          rw [List.append_nil, Except.ok.inj h], rfl, fun _ _ => List.forall_mem_nil _, .nil⟩
      · rintro ⟨new, hroutes, hnew, _, _⟩
        rw [List.map_nil] at hnew
        rw [hroutes, List.map_eq_nil_iff.mp hnew.symm, List.append_nil]
  | cons c rest ih =>
      unfold prepareAll
      constructor
      · intro h
        cases hprepare : s.prepare pending c with
        | error e => simp [hprepare, bind, Except.bind] at h
        | ok route =>
            simp only [hprepare, bind, Except.bind] at h
            obtain ⟨new, hroutes, hnew, hpending, hpairs⟩ := ih.mp h
            obtain ⟨halone, hroute⟩ := prepare_pending_eq_ok_iff.mp hprepare
            obtain ⟨hbefore, hlast⟩ := List.forall_mem_append.mp hpending
            refine ⟨route :: new, ?_, ?_, ?_, ?_⟩
            · rw [hroutes, List.append_assoc, List.singleton_append]
            · rw [List.map_cons, List.map_cons, halone, hnew]
            · exact fun q hq => List.forall_mem_cons.mpr ⟨hroute q hq, hbefore q hq⟩
            · exact List.pairwise_cons.mpr ⟨hlast route (List.mem_singleton_self _), hpairs⟩
      · rintro ⟨new, hroutes, hnew, hpending, hpairs⟩
        cases new with
        | nil => cases hnew
        | cons route new =>
            rw [List.map_cons, List.map_cons, List.cons.injEq] at hnew
            obtain ⟨hfirst, hothers⟩ := List.pairwise_cons.mp hpairs
            have hprepare : s.prepare pending c = .ok route :=
              prepare_pending_eq_ok_iff.mpr
                ⟨hnew.1, fun q hq => hpending q hq route List.mem_cons_self⟩
            simp only [hprepare, bind, Except.bind]
            refine ih.mpr ⟨new, ?_, hnew.2, ?_, hothers⟩
            · rw [hroutes, List.append_assoc, List.singleton_append]
            · exact List.forall_mem_append.mpr
                ⟨fun q hq r hr => hpending q hq r (List.mem_cons_of_mem _ hr),
                  List.forall_mem_singleton.mpr hfirst⟩

/-- Every route that an operation registers is what some candidate asks for. -/
theorem describes_of_registered (s : RouteStore) (op : Operation) :
    ∀ route ∈ (s.perform op).1.registered, ∃ c, s.Describes c route := by
  refine s.registered_induction (motive := fun routes => ∀ route ∈ routes,
    ∃ c, s.Describes c route) op (List.forall_mem_nil _) ?_
  intro c _ pending route hpending hprepare
  exact List.forall_mem_append.mpr ⟨hpending,
    List.forall_mem_singleton.mpr ⟨c, describes_of_prepare hprepare⟩⟩

/-- Whatever is done to a store, every registered route is what some candidate asks for. -/
theorem describes_of_history (ops : List Operation) (h : route ∈ history (s.records ops)) :
    ∃ c, s.Describes c route := by
  induction ops generalizing s with
  | nil => cases h
  | cons op rest ih =>
      rw [records, history, List.flatMap_cons] at h
      rcases List.mem_append.mp h with h | h
      · exact s.describes_of_registered op route h
      · obtain ⟨c, hc⟩ := ih h
        exact ⟨c, hc.of_space (s.perform_settings op).1⟩

/-- A table of a store is only changed by the routes that belong to it. -/
theorem table_foldl_insert (s : RouteStore) (routes : List Route) (fixed : Bool) :
    (routes.foldl insert s).table fixed =
      (routes.filter (·.isFixed == fixed)).foldl RouteTable.add (s.table fixed) := by
  induction routes generalizing s with
  | nil => rfl
  | cons route rest ih =>
      rw [List.foldl_cons, ih, table_insert, List.filter_cons]
      by_cases hfixed : route.isFixed = fixed
      · rw [if_pos hfixed, if_pos (beq_iff_eq.mpr hfixed), List.foldl_cons]
      · rw [if_neg hfixed, if_neg fun h => hfixed (beq_iff_eq.mp h)]

/-- Registrations one after the other are all accepted if they are accepted as a batch, and they add
the same routes. -/
theorem prepareAll_eq_ok_iff_adds (hspace : '(' ∉ s.space.toList) (cs : List Candidate) :
    s.prepareAll [] cs = .ok routes ↔
      (∀ r ∈ s.records (cs.map .add), r.answer.rejection? = none) ∧
        history (s.records (cs.map .add)) = routes := by
  have hbatch := prepareAll_eq hspace cs (List.forall_mem_nil Route.KeyTells)
  rw [List.foldl_nil, List.nil_append] at hbatch
  rw [hbatch, ← List.findSome?_eq_none_iff]
  cases (s.records (cs.map .add)).findSome? (·.answer.rejection?) with
  | some e => simp
  | none => simp

/-- Registrations that are all accepted answer with the routes that they add. -/
theorem answers_of_adds (cs : List Candidate)
    (h : ∀ r ∈ s.records (cs.map .add), r.answer.rejection? = none) :
    (s.records (cs.map .add)).map (·.answer) =
      (history (s.records (cs.map .add))).map fun route => .added (.ok route) := by
  induction cs generalizing s with
  | nil => rfl
  | cons c rest ih =>
      rw [List.map_cons, records, perform_add] at h ⊢
      cases hprepare : s.prepare [] c with
      | error e =>
          rw [hprepare] at h
          have hnone := (List.forall_mem_cons.mp h).1
          cases hnone
      | ok route =>
          rw [hprepare] at h
          exact congrArg _ (ih (List.forall_mem_cons.mp h).2)

end RouteStore

end NamedRoutes
