import NamedRoutes.Proofs.Pattern.Expansion
import NamedRoutes.Proofs.Store.Admission
import NamedRoutes.Proofs.Store.WrittenNamespace

/-!
A route table that is loaded again. What a store lists of a route is enough to register it a second
time. In a store without a namespace the listed routes are all accepted, one after the other, and
lead to the tables that they were listed from, in the same order.
-/

namespace NamedRoutes

/-- The candidate that asks for a route as it is listed. -/
def Route.candidate (r : Route) : Candidate :=
  ⟨.text r.method.name, .text r.path, .text r.name, .function r.handler⟩

theorem Method.ofValue?_name (m : Method) : Method.ofValue? (.text m.name) = some m := by
  cases m <;> rfl

/-- A path with the ends of a trimmed path is trimmed. -/
theorem Path.trim_of_ends {path other : String}
    (hfirst : other.toList.head? = (trim path).toList.head?)
    (hlast : other.toList.getLast? = (trim path).toList.getLast?) : trim other = other := by
  refine trim_eq_self (fun c hc => ?_) fun c hc => isMargin_of_getLast?_trim (hlast ▸ hc)
  rw [hfirst, trim, String.toList_ofList] at hc
  exact Text.head?_trim hc

namespace OrderedMap

variable {κ α : Type} [DecidableEq κ] {key : κ}

/-- A change passes over the entries with other keys. -/
theorem alterEntries_append {first : List (κ × α)} (h : key ∉ first.map (·.1))
    (change : Option α → α) (rest : List (κ × α)) :
    alterEntries key change (first ++ rest) = first ++ alterEntries key change rest := by
  induction first with
  | nil => rfl
  | cons entry more ih =>
      obtain ⟨hne, hmore⟩ := not_or.mp (mt List.mem_cons.mpr h)
      rw [List.cons_append, alterEntries, if_neg (Ne.symm hne), ih hmore, List.cons_append]

/-- A new key comes last. -/
theorem insert_of_not_mem {m : OrderedMap κ α} (h : key ∉ m.keys) (value : α) :
    m.insert key value = ⟨m.entries ++ [(key, value)]⟩ := by
  have happend := alterEntries_append h (fun _ => value) []
  rw [List.append_nil] at happend
  exact congrArg OrderedMap.mk happend

end OrderedMap

namespace RouteTable

/-- Whether every route of a table stands in its place, and no key is without routes. -/
structure Filed (fixed : Bool) (table : RouteTable) : Prop where
  nodup : table.keys.Nodup
  filled : ∀ key group, table.get? key = some group → group.entries ≠ []
  distinct : ∀ key group, table.get? key = some group → group.keys.Nodup
  placed : ∀ key group, table.get? key = some group →
    ∀ method route, group.get? method = some route → route.isAt fixed key method = true

variable {fixed : Bool} {table : RouteTable} {route : Route}

theorem Filed.empty : Filed fixed .empty := by
  refine ⟨List.nodup_nil, ?_, ?_, ?_⟩
  all_goals
    intro key group hgroup
    cases hgroup

theorem Filed.add (h : table.Filed fixed) (hroute : route.isFixed = fixed) :
    (table.add route).Filed fixed := by
  refine ⟨OrderedMap.nodup_keys_alter h.nodup _ _, ?_, ?_, ?_⟩
  · intro key group hgroup
    rcases get?_add_cases hgroup with ⟨_, old, _, rfl⟩ | hold
    · exact List.ne_nil_of_mem
        (OrderedMap.mem_of_get? (OrderedMap.get?_insert_self old route.method route))
    · exact h.filled key group hold
  · intro key group hgroup
    rcases get?_add_cases hgroup with ⟨_, old, hold, rfl⟩ | hold
    · refine OrderedMap.nodup_keys_alter ?_ _ _
      rcases hold with rfl | hold
      · exact List.nodup_nil
      · exact h.distinct key old hold
    · exact h.distinct key group hold
  · intro key group hgroup method r hr
    rcases get?_add_cases hgroup with ⟨hkey, old, hold, rfl⟩ | hold
    · rw [OrderedMap.get?_insert] at hr
      split at hr
      · next hmethod =>
          obtain rfl := Option.some.inj hr
          simp [Route.isAt, hroute, hkey, hmethod]
      · rcases hold with rfl | hold
        · cases hr
        · exact h.placed key old hold method r hr
    · exact h.placed key group hold method r hr

/-- The first route of a new key opens its group. -/
theorem add_of_not_mem {entries : List (String × OrderedMap Method Route)}
    (h : route.key ∉ entries.map (·.1)) :
    add ⟨entries⟩ route = ⟨entries ++ [(route.key, ⟨[(route.method, route)]⟩)]⟩ := by
  have happend := OrderedMap.alterEntries_append h
    (fun routes => (routes.getD .empty).insert route.method route) []
  rw [List.append_nil] at happend
  exact congrArg OrderedMap.mk happend

/-- A route with the last key of a table and a new method comes last of all. -/
theorem add_of_last {entries : List (String × OrderedMap Method Route)}
    {group : OrderedMap Method Route} (h : route.key ∉ entries.map (·.1))
    (hmethod : route.method ∉ group.keys) :
    add ⟨entries ++ [(route.key, group)]⟩ route =
      ⟨entries ++ [(route.key, ⟨group.entries ++ [(route.method, route)]⟩)]⟩ := by
  have happend := OrderedMap.alterEntries_append h
    (fun routes => (routes.getD .empty).insert route.method route) [(route.key, group)]
  rw [OrderedMap.alterEntries, if_pos rfl, Option.getD_some, OrderedMap.insert_of_not_mem hmethod]
    at happend
  exact congrArg OrderedMap.mk happend

/-- The routes of one key are added one after the other. -/
theorem foldl_add_group {entries : List (String × OrderedMap Method Route)} {key : String}
    (hkey : key ∉ entries.map (·.1)) (group : OrderedMap Method Route)
    (items : List (Method × Route)) (hdistinct : (group.entries.map (·.1) ++ items.map (·.1)).Nodup)
    (hplaced : ∀ item ∈ items, item.2.key = key ∧ item.2.method = item.1) :
    (items.map (·.2)).foldl add ⟨entries ++ [(key, group)]⟩ =
      ⟨entries ++ [(key, ⟨group.entries ++ items⟩)]⟩ := by
  induction items generalizing group with
  | nil => rw [List.append_nil]; rfl
  | cons item rest ih =>
      obtain ⟨method, route⟩ := item
      obtain ⟨hfirst, hrest⟩ := List.forall_mem_cons.mp hplaced
      obtain ⟨rfl, rfl⟩ : route.key = key ∧ route.method = method := hfirst
      have hmethod : route.method ∉ group.keys := fun hmem =>
        (List.nodup_append.mp hdistinct).2.2 _ hmem _ List.mem_cons_self rfl
      rw [List.map_cons, List.foldl_cons, add_of_last hkey hmethod, ih _ ?_ hrest]
      · rw [List.append_assoc, List.singleton_append]
      · simpa using hdistinct

/-- The groups of a table are added one after the other. -/
theorem foldl_add_groups (entries groups : List (String × OrderedMap Method Route))
    (hkeys : (entries.map (·.1) ++ groups.map (·.1)).Nodup)
    (hfilled : ∀ entry ∈ groups, entry.2.entries ≠ [])
    (hdistinct : ∀ entry ∈ groups, entry.2.keys.Nodup)
    (hplaced : ∀ entry ∈ groups, ∀ item ∈ entry.2.entries,
      item.2.key = entry.1 ∧ item.2.method = item.1) :
    (groups.flatMap (·.2.values)).foldl add ⟨entries⟩ = ⟨entries ++ groups⟩ := by
  induction groups generalizing entries with
  | nil => rw [List.append_nil]; rfl
  | cons entry rest ih =>
      obtain ⟨key, ⟨items⟩⟩ := entry
      obtain ⟨hitems, hfilled'⟩ := List.forall_mem_cons.mp hfilled
      obtain ⟨hmethods, hdistinct'⟩ := List.forall_mem_cons.mp hdistinct
      obtain ⟨hplace, hplaced'⟩ := List.forall_mem_cons.mp hplaced
      have hkey : key ∉ entries.map (·.1) := fun hmem =>
        (List.nodup_append.mp hkeys).2.2 _ hmem _ List.mem_cons_self rfl
      cases items with
      | nil => exact absurd rfl hitems
      | cons first others =>
          obtain ⟨method, route⟩ := first
          obtain ⟨hfirst, hothers⟩ := List.forall_mem_cons.mp hplace
          obtain ⟨rfl, rfl⟩ : route.key = key ∧ route.method = method := hfirst
          have hgroup := foldl_add_group hkey ⟨[(route.method, route)]⟩ others hmethods hothers
          rw [List.flatMap_cons, List.foldl_append, OrderedMap.values, List.map_cons,
            List.foldl_cons, add_of_not_mem hkey, hgroup, ih _ ?_ hfilled' hdistinct' hplaced',
            List.append_assoc]
          · rfl
          · simpa using hkeys

/-- A table is what its routes make of the empty table, in the order in which it lists them. -/
theorem Filed.foldl_add (h : table.Filed fixed) :
    table.routes.foldl RouteTable.add .empty = table := by
  have hget : ∀ entry ∈ table.entries, table.get? entry.1 = some entry.2 := fun entry hentry =>
    OrderedMap.get?_of_mem h.nodup hentry
  have hgroups := foldl_add_groups [] table.entries h.nodup
    (fun entry hentry => h.filled _ _ (hget entry hentry))
    (fun entry hentry => h.distinct _ _ (hget entry hentry))
    fun entry hentry item hitem => by
      have hat := h.placed _ _ (hget entry hentry) item.1 item.2
        (OrderedMap.get?_of_mem (h.distinct _ _ (hget entry hentry)) hitem)
      simp only [Route.isAt, Bool.and_eq_true, beq_iff_eq] at hat
      exact ⟨hat.1.2, hat.2⟩
  rw [List.nil_append] at hgroups
  unfold routes OrderedMap.values
  rw [List.flatMap_map]
  exact hgroups

/-- Every route of a table belongs to it. -/
theorem Filed.isFixed_of_mem (h : table.Filed fixed) : ∀ r ∈ table.routes, r.isFixed = fixed := by
  intro r hr
  obtain ⟨group, hgroup, hr⟩ := List.mem_flatMap.mp hr
  obtain ⟨entry, hentry, rfl⟩ := List.mem_map.mp hgroup
  obtain ⟨item, hitem, rfl⟩ := List.mem_map.mp hr
  have hget := OrderedMap.get?_of_mem h.nodup hentry
  have hat := h.placed _ _ hget item.1 item.2 (OrderedMap.get?_of_mem (h.distinct _ _ hget) hitem)
  simp only [Route.isAt, Bool.and_eq_true, beq_iff_eq] at hat
  exact hat.1.1

end RouteTable

/-- Routes that are apart can be registered one after the other, if their keys tell what they are.
-/
theorem Route.Apart.compatible {q r : Route} (h : q.Apart r) (hq : q.KeyTells) (hr : r.KeyTells) :
    q.Compatible r := by
  refine ⟨h.1, fun ⟨hmethod, hkey⟩ => h.2 ⟨?_, hkey, hmethod⟩⟩
  unfold Route.KeyTells at hq hr
  rw [hq, hr, hkey]

namespace RouteStore

variable {s t : RouteStore} {c : Candidate} {route : Route}

/-- An operation changes the tables by the routes that it registers. -/
theorem table_perform (s : RouteStore) (op : Operation) (fixed : Bool) :
    (s.perform op).2.table fixed = ((s.perform op).1.registered.foldl insert s).table fixed := by
  change (s.perform op).2.bare.table fixed = _
  rw [effect_bare s _ _ (s.perform_effect op)]
  rfl

/-- Whatever is done to a store, the routes of its tables stand in their places. -/
theorem filed_perform (h : ∀ fixed, (s.table fixed).Filed fixed) (op : Operation) (fixed : Bool) :
    ((s.perform op).2.table fixed).Filed fixed := by
  rw [table_perform]
  induction (s.perform op).1.registered generalizing s with
  | nil => exact h fixed
  | cons route rest ih =>
      refine ih (s := s.insert route) fun other => ?_
      rw [table_insert]
      split
      · next hroute => exact (h other).add hroute
      · exact h other

/-- What a path leads to is what the text that is shown of it leads to. That text stands in the
namespace, with its shortcuts written out. -/
theorem exists_shown {path : String} (h : s.target (Path.trim path) = .ok route.target) :
    ∃ shown, Path.trim shown = shown ∧ s.target shown = .ok route.target ∧
      route.path = Path.join s.space shown := by
  unfold Route.path
  rcases target_eq_ok h with ⟨_, _, htarget⟩ | ⟨p, hstatic, hcompile, htarget⟩
  · refine ⟨Path.trim path, Path.trim_of_ends rfl rfl, h, ?_⟩
    rw [htarget]
  · have hbraces : Path.isStatic (Shortcut.expand (Path.trim path)) = false := by
      simp only [Path.isStatic, Bool.and_eq_false_iff, Bool.not_eq_false', List.contains_eq_mem,
        decide_eq_true_eq] at hstatic ⊢
      exact hstatic.imp (Shortcut.mem_expand (Or.inl rfl)) (Shortcut.mem_expand (Or.inr rfl))
    obtain ⟨hfirst, hlast⟩ := Shortcut.ends_expand (Path.trim path)
    refine ⟨Shortcut.expand (Path.trim path), Path.trim_of_ends hfirst hlast, ?_, ?_⟩
    · unfold target
      rw [hbraces, RoutePattern.compile_expand, hcompile, htarget]
      rfl
    · obtain ⟨template, hassembled⟩ := RoutePattern.assembled_of_compile hcompile
      have hne : (Shortcut.expand (Path.trim path) == "") = false := by
        refine beq_false_of_ne fun hempty => ?_
        rw [hempty] at hbraces
        cases hbraces
      rw [htarget]
      unfold Path.join
      rw [hne]
      exact hassembled.path

theorem eq_ok_of_mapError {α : Type} {result : Except Error α} {value : α}
    (h : result.mapError Error.kind = (Except.ok value).mapError Error.kind) :
    result = .ok value := by
  cases result with
  | error e => cases h
  | ok other => exact congrArg Except.ok (Except.ok.inj h)

/-- The path that a route is listed with leads to the same in a store without a namespace. -/
theorem target_listed (hspace : s.space = "" ∨ Path.Opens s.space) (ht : t.space = "")
    (h : s.Describes c route) : t.target (Path.trim route.path) = .ok route.target := by
  obtain ⟨path, _, htarget⟩ := h.exists_text
  obtain ⟨shown, htrim, hshown, hpath⟩ := exists_shown htarget
  rw [hpath]
  rcases hspace with hempty | hopens
  · have hjoin : Path.join s.space shown = shown := by
      rw [hempty]
      rfl
    rw [hjoin, htrim, target_congr (ht.trans hempty.symm), hshown]
  · have hjoin := hopens.trim shown
    have hunder := target_under hopens ht shown
    rw [htrim] at hjoin hunder
    rw [hjoin, hshown] at hunder
    rw [← hjoin, Path.trim_of_ends rfl rfl, hjoin]
    exact eq_ok_of_mapError hunder

theorem checkName_self {value : Value} {name : String} (h : Candidate.checkName value = .ok name) :
    Candidate.checkName (.text name) = .ok name := by
  unfold Candidate.checkName at h
  split at h
  · split at h <;> cases h
    exact if_pos ‹_›
  · cases h

/-- What is listed of a route describes it in a store without a namespace. -/
theorem Describes.candidate (h : s.Describes c route) (hspace : s.space = "" ∨ Path.Opens s.space)
    (ht : t.space = "") : t.Describes route.candidate route := by
  refine ⟨checkMethod_eq_ok.mpr (Method.ofValue?_name _), checkName_self h.name, rfl, ?_⟩
  simp only [Route.candidate, Candidate.checkPath, bind, Except.bind]
  exact target_listed hspace ht h

variable {text : String} {chunkSize : Chunk.Size} {start : RouteStore}

/-- Every listed route was registered. -/
theorem mem_history_of_mem_routes (hstart : create text chunkSize = .ok start)
    (ops : List Operation) (h : route ∈ (start.run ops).routes) :
    route ∈ history (start.records ops) := by
  have hconsistent := consistent_of_create hstart ops
  have hat : route.isAt route.isFixed route.key route.method = true := by simp [Route.isAt]
  have hfound := (hconsistent.filed _ _ _ route).mpr ⟨h, hat⟩
  rw [(mirrors_of_create hstart ops).find] at hfound
  exact List.mem_of_find?_eq_some hfound

theorem filed_of_create (hstart : create text chunkSize = .ok start) (ops : List Operation)
    (fixed : Bool) :
    ((start.run ops).table fixed).Filed fixed := by
  refine run_induction (motive := fun s => ∀ fixed, (s.table fixed).Filed fixed) start ?_
    (fun _ op h => filed_perform h op) ops fixed
  obtain ⟨_, _, rfl⟩ := create_eq text chunkSize start hstart
  intro fixed
  cases fixed <;> exact .empty

/-- The routes that belong to one of the tables are those that it lists. -/
theorem filter_routes (h : ∀ fixed, (s.table fixed).Filed fixed) (fixed : Bool) :
    s.routes.filter (·.isFixed == fixed) = (s.table fixed).routes := by
  have hfixed : ∀ r ∈ s.fixed.routes, r.isFixed = true := (h true).isFixed_of_mem
  have hpatterns : ∀ r ∈ s.patterns.routes, r.isFixed = false := (h false).isFixed_of_mem
  unfold routes
  rw [List.filter_append]
  cases fixed with
  | true =>
      rw [List.filter_eq_self.mpr fun r hr => beq_iff_eq.mpr (hfixed r hr),
        List.filter_eq_nil_iff.mpr fun r hr => by simp [hpatterns r hr], List.append_nil]
      rfl
  | false =>
      rw [List.filter_eq_self.mpr fun r hr => beq_iff_eq.mpr (hpatterns r hr),
        List.filter_eq_nil_iff.mpr fun r hr => by simp [hfixed r hr], List.nil_append]
      rfl

/-- The routes that a store lists are registered a second time as they are listed. -/
theorem prepareAll_listed (hstart : create text chunkSize = .ok start) {other : RouteStore}
    {otherSize : Chunk.Size} (hother : create "" otherSize = .ok other)
    (hdot : '.' ∉ start.space.toList) (ops : List Operation) :
    other.prepareAll [] ((start.run ops).routes.map Route.candidate) =
      .ok (start.run ops).routes := by
  obtain ⟨cleaned, hcleaned, hfields⟩ := create_eq text chunkSize start hstart
  obtain ⟨empty, hempty, hblank⟩ := create_eq "" otherSize other hother
  have hparse : Path.parseNamespace text = .ok start.space := by rw [hcleaned, hfields]
  have hspace : start.space = "" ∨ Path.Opens start.space := by
    by_cases hne : start.space = ""
    · exact Or.inl hne
    · exact Or.inr (Path.opens_of_parse hparse hne hdot)
  have hparenthesis : '(' ∉ start.space.toList := fun hmem => by
    cases Path.isNamespaceChar_of_parse hparse hmem
  have ht : other.space = "" := by
    rw [hblank]
    exact (Except.ok.inj hempty).symm
  have hdescribed : ∀ r ∈ (start.run ops).routes, ∃ c, start.Describes c r := fun r hr =>
    describes_of_history ops (mem_history_of_mem_routes hstart ops hr)
  have htells : ∀ r ∈ (start.run ops).routes, r.KeyTells := fun r hr => by
    obtain ⟨c, hc⟩ := hdescribed r hr
    obtain ⟨path, _, htarget⟩ := hc.exists_text
    exact keyTells_of_target hparenthesis htarget
  have hconsistent := consistent_of_create hstart ops
  refine (prepareAll_eq_ok_iff _).mpr ⟨_, rfl, ?_, fun _ hq => (nomatch hq), ?_⟩
  · rw [List.map_map]
    refine List.map_congr_left fun r hr => ?_
    obtain ⟨c, hc⟩ := hdescribed r hr
    refine prepare_eq_ok_iff.mpr ⟨hc.candidate hspace ht, ?_, ?_, List.forall_mem_nil _⟩
    · rw [hblank]
      rfl
    · rw [hblank]
      unfold IsFresh table
      cases r.isFixed <;> rfl
  · exact hconsistent.apart.imp_of_mem fun hq hr hapart =>
      hapart.compatible (htells _ hq) (htells _ hr)

/-- A listed route table can be loaded again. Whatever was done to a store whose namespace has no
dots, a new store without a namespace accepts the listed routes one after the other, as the same
routes with the same paths, expressions and segments. Its tables then are those of the first store,
with every key and every method in the same place, and so it lists the same routes. -/
theorem listed_routes_reload (text : String) (chunkSize otherSize : Chunk.Size)
    (start other : RouteStore) (hstart : create text chunkSize = .ok start)
    (hother : create "" otherSize = .ok other) (hdot : '.' ∉ start.space.toList)
    (ops : List Operation) :
    let s := start.run ops
    let again := (s.routes.map Route.candidate).map Operation.add
    (other.records again).map (·.answer) = s.routes.map (fun r => .added (.ok r)) ∧
    (other.run again).fixed = s.fixed ∧ (other.run again).patterns = s.patterns ∧
    (other.run again).routes = s.routes := by
  intro s again
  obtain ⟨empty, hempty, hblank⟩ := create_eq "" otherSize other hother
  have hparenthesis : '(' ∉ other.space.toList := fun hmem => by
    rw [hblank, ← Except.ok.inj hempty] at hmem
    cases hmem
  obtain ⟨haccepted, hhistory⟩ := (prepareAll_eq_ok_iff_adds hparenthesis _).mp
    (prepareAll_listed hstart hother hdot ops)
  have hrun : other.run again = s.routes.foldl insert other := by
    rw [(run_adds other _).1, hhistory]
  have htable : ∀ fixed, (other.run again).table fixed = s.table fixed := fun fixed => by
    have hfiled := filed_of_create hstart ops
    have hempty : other.table fixed = .empty := by
      rw [hblank]
      cases fixed <;> rfl
    rw [hrun, table_foldl_insert, filter_routes hfiled, hempty, (hfiled fixed).foldl_add]
  have hfixed : (other.run again).fixed = s.fixed := htable true
  have hpatterns : (other.run again).patterns = s.patterns := htable false
  refine ⟨?_, hfixed, hpatterns, ?_⟩
  · rw [answers_of_adds _ haccepted, hhistory]
  · unfold routes
    rw [hfixed, hpatterns]

/-- Two fixed routes and a pattern with a shortcut and an optional parameter, which two methods
share under other names, registered in turns, and a batch that is refused. -/
def mixedPlan : List Operation :=
  let handler : Output := .function (.mk "show" true false none none .arguments)
  [.add ⟨.text "POST", .text "posts/{year:i}?/{slug:a}", .text "change", handler⟩,
    .add ⟨.text "GET", .text "/about/", .text "about", handler⟩,
    .addAll [⟨.text "GET", .text "tags/{name:[a-z]+}", .text "tag", handler⟩,
      ⟨.text "GET", .text "posts/{y:[0-9]+}?/{title:a}", .text "post", handler⟩],
    .request (.text "GET") (.text "/blog/tags/lean"),
    .addAll [⟨.text "GET", .text "", .text "home", handler⟩,
      ⟨.text "PUT", .text "x", .text "about", handler⟩],
    .add ⟨.text "GET", .text "", .text "home", handler⟩]

theorem listed_routes_reload_for_mixed_plan :
    let start : RouteStore := { space := "blog", chunkSize := .whole 10 }
    let other : RouteStore := { space := "", chunkSize := .whole 2 }
    let s := start.run mixedPlan
    let again := (s.routes.map Route.candidate).map Operation.add
    create "/blog/" (.whole 10) = .ok start ∧ create "" (.whole 2) = .ok other ∧
    '.' ∉ start.space.toList ∧
    s.routes.map (fun r => (r.name, r.path)) = [("about", "blog/about"), ("home", "blog"),
      ("change", "blog/posts/{year:[0-9]+}?/{slug:[a-zA-Z0-9]+}"),
      ("post", "blog/posts/{y:[0-9]+}?/{title:[a-zA-Z0-9]+}"), ("tag", "blog/tags/{name:[a-z]+}")] ∧
    (other.records again).map (·.answer) = s.routes.map (fun r => .added (.ok r)) ∧
    (other.run again).fixed = s.fixed ∧ (other.run again).patterns = s.patterns ∧
    (other.run again).routes = s.routes := by
  intro start other s again
  have hstart : create "/blog/" (.whole 10) = .ok start := rfl
  have hother : create "" (.whole 2) = .ok other := rfl
  have hdot : '.' ∉ start.space.toList := by decide
  have hlisted : s.routes.map (fun r => (r.name, r.path)) =
      [("about", "blog/about"), ("home", "blog"),
      ("change", "blog/posts/{year:[0-9]+}?/{slug:[a-zA-Z0-9]+}"),
      ("post", "blog/posts/{y:[0-9]+}?/{title:[a-zA-Z0-9]+}"),
      ("tag", "blog/tags/{name:[a-z]+}")] := by decide +kernel
  exact ⟨hstart, hother, hdot, hlisted,
    listed_routes_reload "/blog/" (.whole 10) (.whole 2) start other hstart hother hdot mixedPlan⟩

end RouteStore

end NamedRoutes
