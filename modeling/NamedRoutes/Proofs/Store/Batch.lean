import NamedRoutes.Proofs.Pattern.Braces
import NamedRoutes.Proofs.Store.Rejection

/-!
A batch of registrations. The checks of a batch look at the routes that are about to be added, where
those of single registrations find the same routes in the tables and among the names. A fixed path
and the expression of a pattern are never the same text, so both find the same clashes, and a batch
is its registrations one after the other, all of them or none.
-/

namespace NamedRoutes

theorem Text.mem_of_mem_trim {isMargin : Char → Bool} {text : List Char} {c : Char}
    (h : c ∈ Text.trim isMargin text) : c ∈ text := by
  unfold Text.trim Text.trimEnd Text.trimStart at h
  have hend := (List.dropWhile_sublist isMargin).subset (List.mem_reverse.mp h)
  exact (List.dropWhile_sublist isMargin).subset (List.mem_reverse.mp hend)

theorem Path.isNamespaceChar_of_parse {text space : String}
    (h : Path.parseNamespace text = .ok space) {c : Char}
    (hc : c ∈ space.toList) : Path.isNamespaceChar c = true := by
  unfold Path.parseNamespace at h
  cases htext : Path.isNamespaceText text.toList with
  | false => simp [htext] at h
  | true =>
      simp only [htext, if_true] at h
      cases h
      rw [Path.isNamespaceText, Bool.and_eq_true] at htext
      rw [Path.trim, String.toList_ofList] at hc
      exact List.all_eq_true.mp htext.1 c (Text.mem_of_mem_trim hc)

/-- Whether the key of a route tells a fixed path from a pattern. -/
def Route.KeyTells (r : Route) : Prop := r.isFixed = !r.key.toList.contains '('

/-- Routes whose keys tell what they are have the same place if they have the same key and method.
-/
theorem Route.KeyTells.isAt_eq {q r : Route} (hq : q.KeyTells) (hr : r.KeyTells) :
    q.isAt r.isFixed r.key r.method = (q.method == r.method && q.key == r.key) := by
  unfold isAt
  by_cases hkey : q.key = r.key
  · have hfixed : q.isFixed = r.isFixed := by
      unfold KeyTells at hq hr
      rw [hq, hr, hkey]
    simp only [hkey, hfixed, beq_self_eq_true, Bool.true_and, Bool.and_true]
  · have hbeq : (q.key == r.key) = false := beq_false_of_ne hkey
    simp only [hbeq, Bool.and_false, Bool.false_and]

namespace RouteStore

variable {s : RouteStore} {pending : List Route} {c : Candidate} {route : Route}

theorem keyTells_of_target {path : String} (hspace : '(' ∉ s.space.toList)
    (h : s.target path = .ok route.target) : route.KeyTells := by
  unfold Route.KeyTells Route.isFixed Route.pattern? Route.key
  rcases target_eq_ok h with ⟨_, htext, htarget⟩ | ⟨p, hstatic, hcompile, htarget⟩
  · rw [htarget]
    have hpath : '(' ∉ path.toList := by
      intro hmem
      rw [Path.isStaticText, Bool.and_eq_true] at htext
      cases List.all_eq_true.mp htext.1 '(' hmem
    have hjoin : '(' ∉ (Path.join s.space path).toList := by
      unfold Path.join
      split
      · exact hpath
      · split
        · exact hspace
        · simp [hpath, hspace]
    simp [hjoin]
  · rw [htarget]
    simp [RoutePattern.mem_regex_of_compile hcompile hstatic]

theorem Passes.keyTells (hspace : '(' ∉ s.space.toList) (h : s.Passes pending c route) :
    route.KeyTells := by
  obtain ⟨path, _, htarget⟩ := exists_text_of_origin h.origin
  exact keyTells_of_target hspace htarget

theorem contains_foldl_insert (s : RouteStore) (routes : List Route) (name : String) :
    (routes.foldl insert s).contains name = (s.contains name || routes.any (·.name == name)) := by
  induction routes generalizing s with
  | nil => simp
  | cons r rest ih =>
      have hinsert : (s.insert r).contains name = (s.contains name || r.name == name) := by
        have hnames : (s.insert r).names = s.names.insert r.name r := by
          unfold insert
          cases r.isFixed <;> rfl
        unfold contains OrderedMap.contains
        rw [hnames, OrderedMap.get?_insert]
        by_cases hname : name = r.name
        · simp [hname]
        · have hbeq : (r.name == name) = false := beq_false_of_ne (Ne.symm hname)
          rw [if_neg hname, hbeq, Bool.or_false]
      rw [List.foldl_cons, ih, hinsert, List.any_cons, Bool.or_assoc]

theorem find?_foldl_insert (s : RouteStore) (routes : List Route) (fixed : Bool) (key : String)
    (method : Method) : (((routes.foldl insert s).table fixed).find? key method).isSome =
      (((s.table fixed).find? key method).isSome || routes.any (·.isAt fixed key method)) := by
  induction routes generalizing s with
  | nil => simp
  | cons r rest ih =>
      rw [List.foldl_cons, ih, find?_insert, List.any_cons]
      cases r.isAt fixed key method with
      | true => simp
      | false => simp

theorem clashes_eq (s : RouteStore) (route : Route) :
    s.clashes route = ((s.table route.isFixed).find? route.key route.method).isSome := by
  unfold clashes tableFor table
  cases route.isFixed <;> rfl

theorem clashes_foldl_insert (hpending : ∀ r ∈ pending, r.KeyTells) (hroute : route.KeyTells) :
    (pending.foldl insert s).clashes route =
      (s.clashes route || pending.any fun r => r.method == route.method && r.key == route.key) := by
  rw [clashes_eq, clashes_eq, find?_foldl_insert]
  congr 1
  induction pending with
  | nil => rfl
  | cons r rest ih =>
      obtain ⟨hr, hrest⟩ := List.forall_mem_cons.mp hpending
      rw [List.any_cons, List.any_cons, hr.isAt_eq hroute, ih hrest]

/-- The checks against routes that are about to be added are those of the store after they were. -/
theorem prepare_pending (hspace : '(' ∉ s.space.toList) (hpending : ∀ r ∈ pending, r.KeyTells)
    (c : Candidate) : s.prepare pending c = (pending.foldl insert s).prepare [] c := by
  have hsettings := (foldl_insert_settings s pending).1
  have htarget : (pending.foldl insert s).target = s.target := by
    funext path
    unfold target
    rw [hsettings]
  unfold prepare
  cases Candidate.checkMethod c.method with
  | error e => rfl
  | ok method =>
  cases Candidate.checkName c.name with
  | error e => rfl
  | ok name =>
  simp only [bind, Except.bind]
  cases Candidate.checkHandler name c.handler with
  | error e => rfl
  | ok handler =>
  simp only [contains_foldl_insert, List.any_nil, Bool.or_false, htarget]
  split
  · rfl
  cases Candidate.checkPath c.path with
  | error e => rfl
  | ok path =>
  cases hpath : s.target path with
  | error e => simp only [hpath]
  | ok destination =>
      have htells : Route.KeyTells ⟨method, name, handler, destination⟩ :=
        keyTells_of_target hspace hpath
      simp only [hpath, clashes_foldl_insert hpending htells]

/-- A single registration adds the route that it answers with and reports it, if there is one. -/
theorem perform_add (s : RouteStore) (c : Candidate) :
    s.perform (.add c) = match s.prepare [] c with
      | .ok route => (⟨.added (.ok route), [registration route]⟩, s.insert route)
      | .error e => (⟨.added (.error e), []⟩, s) := by
  simp only [perform, add]
  cases s.prepare [] c <;> rfl

/-- Single registrations add the routes that they answer with and report nothing else. -/
theorem run_adds (s : RouteStore) (cs : List Candidate) :
    s.run (cs.map .add) = (history (s.records (cs.map .add))).foldl insert s ∧
      (s.records (cs.map .add)).flatMap (·.events) =
        (history (s.records (cs.map .add))).map registration := by
  induction cs generalizing s with
  | nil => exact ⟨rfl, rfl⟩
  | cons c rest ih =>
      obtain ⟨hrun, hevents⟩ := ih (s.perform (.add c)).2
      rw [List.map_cons, run, records, hrun, List.flatMap_cons, hevents, history, history,
        List.flatMap_cons, List.foldl_append, List.map_append, perform_add]
      cases s.prepare [] c <;> exact ⟨rfl, rfl⟩

/-- The routes of a batch are those of its registrations one after the other, unless one of them is
refused. -/
theorem prepareAll_eq (hspace : '(' ∉ s.space.toList) (cs : List Candidate)
    (hpending : ∀ r ∈ pending, r.KeyTells) :
    s.prepareAll pending cs =
      match ((pending.foldl insert s).records (cs.map .add)).findSome? (·.answer.rejection?) with
      | some e => .error e
      | none => .ok (pending ++ history ((pending.foldl insert s).records (cs.map .add))) := by
  induction cs generalizing pending with
  | nil =>
      rw [List.map_nil, records, history, List.flatMap_nil, List.append_nil]
      rfl
  | cons c rest ih =>
      rw [List.map_cons, records, List.findSome?_cons, perform_add, prepareAll,
        prepare_pending hspace hpending]
      cases hprepare : (pending.foldl insert s).prepare [] c with
      | error e => rfl
      | ok route =>
          have hroute : route.KeyTells := by
            refine (passes_of_prepare hprepare).keyTells ?_
            rw [(foldl_insert_settings s pending).1]
            exact hspace
          have hnext := ih (List.forall_mem_append.mpr
            ⟨hpending, List.forall_mem_singleton.mpr hroute⟩)
          rw [List.foldl_append, List.append_assoc] at hnext
          exact hnext

/-- A batch does what its registrations do one after the other, if none of them is refused.
Otherwise it answers with the error of the first one that is, and leaves the store as it was. -/
theorem batch_registers_all_or_none (space : String) (chunkSize : Chunk.Size) (start : RouteStore)
    (hstart : create space chunkSize = .ok start) (ops : List Operation) (cs : List Candidate) :
    let s := start.run ops
    let singles := cs.map Operation.add
    s.perform (.addAll cs) =
      match (s.records singles).findSome? (·.answer.rejection?) with
      | some e => (⟨.addedAll (.error e), []⟩, s)
      | none =>
          (⟨.addedAll (.ok (history (s.records singles))), (s.records singles).flatMap (·.events)⟩,
            s.run singles) := by
  intro s singles
  have hspace : '(' ∉ s.space.toList := by
    intro hmem
    obtain ⟨cleaned, hcleaned, rfl⟩ := create_eq space chunkSize start hstart
    rw [(run_settings _ ops).1] at hmem
    cases Path.isNamespaceChar_of_parse hcleaned hmem
  have hroutes := prepareAll_eq hspace cs (List.forall_mem_nil Route.KeyTells)
  obtain ⟨hrun, hevents⟩ := run_adds s cs
  change s.prepareAll [] cs =
    match (s.records singles).findSome? (·.answer.rejection?) with
    | some e => .error e
    | none => .ok (history (s.records singles)) at hroutes
  simp only [perform, addAll, hroutes]
  cases (s.records singles).findSome? (·.answer.rejection?) with
  | some e => rfl
  | none =>
      change (_, (history (s.records singles)).foldl insert s) = _
      rw [hrun, hevents]

/-- A fixed path and a pattern that two methods share, with other parameter names, and at the end a
further route for the pattern. -/
def clashingBatch : List Candidate :=
  let handler : Output := .function (.mk "show" true false none none .arguments)
  [⟨.text "GET", .text "u", .text "users", handler⟩,
    ⟨.text "GET", .text "/u/{id:i}?/", .text "user", handler⟩,
    ⟨.text "POST", .text "u/{number:i}?", .text "change", handler⟩,
    ⟨.text "GET", .text "u/{key:i}?", .text "other", handler⟩]

theorem batch_registers_all_or_none_for_clashing_batch :
    let start : RouteStore := { space := "v", chunkSize := .whole 10 }
    let firsts := clashingBatch.dropLast
    create "/v/" (.whole 10) = .ok start ∧
    (∃ e, e.message = "Cannot register two routes matching 'v/u(?:/([0-9]+))?' for method 'GET'." ∧
      start.perform (.addAll clashingBatch) = (⟨.addedAll (.error e), []⟩, start)) ∧
    ∃ routes events, routes.map (·.name) = ["users", "user", "change"] ∧
      start.perform (.addAll firsts) =
        (⟨.addedAll (.ok routes), events⟩, start.run (firsts.map .add)) := by
  intro start firsts
  have hcreate : create "/v/" (.whole 10) = .ok start := rfl
  refine ⟨hcreate, ?_, ?_⟩
  · have hrefused : ((start.records (clashingBatch.map .add)).findSome?
        (·.answer.rejection?)).map Error.message =
          some "Cannot register two routes matching 'v/u(?:/([0-9]+))?' for method 'GET'." := by
      decide +kernel
    obtain ⟨e, he, hmessage⟩ := Option.map_eq_some_iff.mp hrefused
    have hbatch := batch_registers_all_or_none "/v/" (.whole 10) start hcreate [] clashingBatch
    simp only [run, he] at hbatch
    exact ⟨e, hmessage, hbatch⟩
  · have hnone : ((start.records (firsts.map .add)).findSome? (·.answer.rejection?)).isNone =
        true := by
      decide +kernel
    have hbatch := batch_registers_all_or_none "/v/" (.whole 10) start hcreate [] firsts
    simp only [run, Option.isNone_iff_eq_none.mp hnone] at hbatch
    exact ⟨_, _, by decide +kernel, hbatch⟩

end RouteStore

end NamedRoutes
