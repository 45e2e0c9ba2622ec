import NamedRoutes.Proofs.Regex.Settling
import NamedRoutes.Regex.Expression

/-!
A text in parentheses. What is known of it from reading it with its parentheses and nothing else
holds wherever it is pasted: it adds one group and leaves the flags alone. If the text can also be
read without the parentheses, it can be pasted anywhere, and it adds one item to the current
alternative.
-/

namespace NamedRoutes

/-- Reading an expression keeps its text. -/
theorem Expression.compile_eq_ok {source : String} {e : Expression}
    (h : Expression.compile source = .ok e) :
    Regex.parse source.toList = .ok (e.regex, e.groups) ∧ e.source = source := by
  unfold Expression.compile at h
  cases hparse : Regex.parse source.toList with
  | error fault =>
      rw [hparse] at h
      cases h
  | ok result =>
      rw [hparse] at h
      cases h
      exact ⟨rfl, rfl⟩

namespace Regex.Reader

/-- Whether a reader waits for a new item or for the greed of a repetition, without any flags. -/
structure Ready (u : Reader) : Prop where
  poised : u.Poised
  mode : u.mode = .plain ∨ ∃ least most, u.mode = .greed least most
  flags : u.top.flags = {}

/-- The reader once the greed of a repetition is settled. -/
def settled (u : Reader) : Reader :=
  match u.mode with
  | .greed least most => u.repeatLast .greedy least most
  | _ => u

variable {u v : Reader}

theorem poised_of_plain (h : u.mode = .plain) : u.Poised := by
  unfold Poised
  rw [h]
  trivial

theorem Ready.settle (hu : u.Ready) : u.settle = .ok u.settled := by
  unfold Reader.settle settled
  rcases hu.mode with hmode | ⟨least, most, hmode⟩ <;> rw [hmode]

theorem Ready.of_plain (hmode : u.mode = .plain) (hflags : u.top.flags = {}) : u.Ready :=
  ⟨poised_of_plain hmode, Or.inl hmode, hflags⟩

/-- Settling the greed of a repetition changes nothing but the latest item. -/
theorem Ready.settled_eq (hu : u.Ready) :
    ∃ items, u.settled = { u with mode := .plain, top := { u.top with items } } ∧
      (u.top.items ≠ [] → items ≠ []) := by
  unfold settled
  rcases hu.mode with hmode | ⟨least, most, hmode⟩
  · refine ⟨u.top.items, ?_, id⟩
    simp only [hmode]
    rw [← hmode]
  · rw [hmode]
    unfold repeatLast
    cases hitems : u.top.items with
    | nil =>
        refine ⟨[], ?_, id⟩
        simp only [← hitems]
    | cons item items => exact ⟨_, rfl, fun _ => List.cons_ne_nil _ _⟩

/-- What is no sign of greed is read once the greed is settled. -/
theorem Ready.step (hu : u.Ready) {c : Char} (hlazy : c ≠ '?') (hpossessive : c ≠ '+') :
    u.step c = u.settled.counting.plain c := by
  have hsettle : u.counting.settle = .ok u.settled.counting := by
    unfold Reader.settle settled
    rcases hu.mode with hmode | ⟨least, most, hmode⟩
    · rw [show u.counting.mode = u.mode from rfl, hmode]
    · rw [show u.counting.mode = u.mode from rfl, hmode]
      simp only [repeatLast, show u.counting.top = u.top from rfl]
      cases u.top.items <;> rfl
  refine take_of_settle hsettle ?_
  change u.mode.continuedBy c = false
  rcases hu.mode with hmode | ⟨least, most, hmode⟩
  · rw [hmode]
    rfl
  · rw [hmode]
    simp [Mode.continuedBy, hlazy, hpossessive]

def opened (u : Reader) : Reader := { u.settled.counting with mode := .opened }

theorem Ready.flags_settled (hu : u.Ready) : u.settled.top.flags = {} := by
  obtain ⟨items, hsettled, _⟩ := hu.settled_eq
  rw [hsettled]
  exact hu.flags

theorem Ready.step_opening (hu : u.Ready) : u.step '(' = .ok u.opened := by
  rw [hu.step (by decide) (by decide)]
  have hflags : u.settled.counting.top.flags = {} := hu.flags_settled
  unfold plain
  rw [hflags]
  rfl

theorem Ready.readAll_opening (hu : u.Ready) (rest : List Char) :
    u.readAll ('(' :: rest) = u.opened.readAll rest :=
  readAll_cons_of_ok hu.step_opening

/-- The reader after an opening parenthesis that no question mark follows. -/
theorem readAll_opened (hmode : u.mode = .opened) (c : Char) (rest : List Char) (hc : c ≠ '?') :
    u.readAll (c :: rest) = u.enterCapture.readAll (c :: rest) := by
  have hstep : u.step c = u.enterCapture.step c := by
    unfold Reader.step take
    rw [show ({ u with position := u.position + 1 } : Reader).mode = .opened from hmode,
      show ({ u.enterCapture with position := u.enterCapture.position + 1 } : Reader).mode =
        .plain from rfl]
    simp only [beq_iff_eq, hc, if_false]
    rfl
  unfold readAll
  rw [List.foldlM_cons, List.foldlM_cons, hstep]

/-- A text in parentheses is read from inside its group, unless it starts with a question mark. -/
theorem Ready.readAll_capture (hu : u.Ready) {t : List Char} (ht : t.head? ≠ some '?') :
    u.readAll ('(' :: (t ++ [')'])) = u.opened.enterCapture.readAll (t ++ [')']) := by
  rw [hu.readAll_opening]
  cases t with
  | nil => exact readAll_opened rfl ')' [] (by decide)
  | cons c rest => exact readAll_opened rfl c _ fun hc => ht (congrArg some hc)

theorem parse_eq_ok {text : List Char} {regex : Regex} {count : Nat}
    (h : parse text = .ok (regex, count)) :
    ∃ w, ({} : Reader).readAll text = .ok w ∧ w.finish = .ok (regex, count) := by
  unfold parse at h
  cases hread : ({} : Reader).readAll text with
  | error fault =>
      rw [hread] at h
      cases h
  | ok w =>
      rw [hread] at h
      exact ⟨w, rfl, h⟩

/-- Whether a text in parentheses is an expression with one group. -/
def HasOneGroup (t : List Char) : Prop := ∃ regex, parse ('(' :: (t ++ [')'])) = .ok (regex, 1)

/-- Whether a text has led from `u` to `v`, has opened some groups and has closed all parentheses of
its own. -/
structure Tracked (u v : Reader) (count : Nat) : Prop where
  ready : v.Ready
  begun : v.Begun
  flags : v.flagStack = u.flagStack
  groups : v.groups.length = u.groups.length + count

theorem ready_start : ({} : Reader).Ready := .of_plain rfl rfl

theorem Ready.flagStack_settled (hu : u.Ready) : u.settled.flagStack = u.flagStack := by
  obtain ⟨items, hsettled, _⟩ := hu.settled_eq
  rw [hsettled]
  rfl

theorem Ready.begun_settled (hu : u.Ready) (hbegun : u.Begun) : u.settled.Begun := by
  obtain ⟨items, hsettled, hitems⟩ := hu.settled_eq
  rw [hsettled]
  unfold Begun at hbegun ⊢
  cases hcase : u.top.items with
  | nil =>
      rw [hcase] at hbegun
      simp only [List.isEmpty_nil, Bool.and_true] at hbegun
      simp only [hbegun, Bool.false_and]
  | cons item rest =>
      have hne := hitems (by simp [hcase])
      simp [hne]

/-- Reading stops inside no sign after the last parenthesis is closed, if no flags are left that
tell remarks apart. -/
theorem mode_of_closed {r w s : Reader} (hr : r.Poised) (hstep : r.step ')' = .ok w)
    (hsettle : w.settle = .ok s) (hflags : w.top.flags = {}) : w.mode = .plain := by
  have hpoised := poised_step hr ')' hstep
  have hclosed := take_parenthesis hstep
  unfold settle at hsettle
  unfold Poised at hpoised
  cases hmode : w.mode with
  | plain => rfl
  | lineRemark escaped =>
      rw [hmode, hflags] at hpoised
      cases hpoised
  | octal digits value =>
      rw [hmode] at hclosed
      cases hclosed
  | reference first =>
      rw [hmode] at hclosed
      cases hclosed
  | longReference first second =>
      rw [hmode] at hclosed
      cases hclosed
  | greed least most =>
      rw [hmode] at hclosed
      cases hclosed
  | bounds read =>
      rw [hmode] at hclosed
      cases hclosed
  | _ =>
      rw [hmode] at hsettle
      cases hsettle

/-- Wherever a text with one group is pasted, it opens one group and closes its parentheses. -/
theorem tracked_group {t : List Char} (ht : HasOneGroup t) (hu : u.Ready) (hbegun : u.Begun)
    (h : u.readAll ('(' :: (t ++ [')'])) = .ok v) : Tracked u v 1 := by
  obtain ⟨regex, hparse⟩ := ht
  obtain ⟨w, hread, hfinish⟩ := parse_eq_ok hparse
  obtain ⟨s, hsettle, houter, _, _, _, _, hcount⟩ := (finish_eq_ok_iff w regex 1).mp hfinish
  obtain ⟨mode, items, hs⟩ := settle_eq_ok hsettle
  rw [ready_start.readAll_opening] at hread
  rw [hu.readAll_opening] at h
  have hstack : u.settled.flagStack = {} :: u.flagStack.tail := by
    rw [hu.flagStack_settled, ← hu.flags]
    rfl
  have hgroups : u.settled.groups = u.groups := by
    obtain ⟨items, hsettled, _⟩ := hu.settled_eq
    rw [hsettled]
  have hparallel : Parallel u.groups.length u.flagStack.tail {} ({} : Reader).opened u.opened := by
    refine ⟨⟨rfl, hstack, ?_⟩, rfl, hu.begun_settled hbegun⟩
    change u.settled.groups.length = 0 + u.groups.length
    rw [hgroups, Nat.zero_add]
  have hpoised : ({} : Reader).opened.Poised := trivial
  have hpoised' : u.opened.Poised := trivial
  obtain ⟨halike, hbottom, hbegun'⟩ :=
    parallel_readAll (t ++ [')']) _ _ w v hpoised hpoised' hparallel hread h
  rw [hs] at houter hcount
  have hflags : w.top.flags = {} := by
    have houter : w.outer = [] := houter
    rw [houter] at hbottom
    exact hbottom
  have hmode : w.mode = .plain := by
    obtain ⟨m, hm, hclose⟩ := readAll_append_eq_ok t [')'] _ w hread
    obtain ⟨w', hstep, hw⟩ := readAll_cons_eq_ok ')' [] m w hclose
    cases hw
    exact mode_of_closed (poised_readAll t _ m hpoised hm) hstep hsettle hflags
  have hstack' : w.flagStack = [{}] := by
    have houter : w.outer = [] := houter
    simp [flagStack, frames, houter, hflags]
  refine ⟨.of_plain (halike.mode.trans hmode) (halike.topFlags.trans hflags), hbegun', ?_, ?_⟩
  · rw [halike.flags, hstack', ← hu.flagStack_settled, hstack]
    rfl
  · have hcount : 1 = w.groups.length := hcount
    rw [halike.groups]
    omega

theorem inside_start (k : Reader) (hmode : k.mode = .plain) (hflags : k.top.flags = {})
    (hlookbehind : k.top.lookbehind = none) : k.inside {} = k := by
  obtain ⟨position, mode, ⟨role, flags, branches, items, lookbehind⟩, outer, groups, names, tested,
    pending⟩ := k
  cases hmode
  cases hflags
  cases hlookbehind
  simp [inside, frameInside, outerInside, Frame.onto, Frame.shift, joinBranches]

theorem groupless_start : ({} : Reader).Groupless := by
  refine ⟨⟨rfl, rfl⟩, rfl, ?_⟩
  intro f hf
  obtain rfl := List.mem_singleton.mp hf
  refine ⟨Frame.all_of_empty _ rfl rfl, ?_⟩
  intro number hnumber
  cases hnumber

theorem sound_start : ({} : Reader).Sound := by
  refine ⟨trivial, ?_, List.forall_mem_nil _⟩
  intro f hf
  obtain rfl := List.mem_singleton.mp hf
  exact .of_empty rfl rfl fun _ => nofun

/-- No group is forgotten while a text is read. -/
theorem groups_of_readAll (text : List Char) (r s : Reader) (hr : r.Poised)
    (h : r.readAll text = .ok s) : r.groups.length ≤ s.groups.length :=
  readAll_induction (P := fun t => r.groups.length ≤ t.groups.length)
    (fun _ _ _ hmove hle => Nat.le_trans hle (groups_of_move hmove))
    (fun _ hle => hle) text r s hr h
    (Nat.le_refl _)

/-- What is left of a text without groups that is an expression by itself, once it has been read. It
can be read anywhere. -/
structure Standalone (t : List Char) (s : Reader) : Prop where
  poised : s.Poised
  groupless : s.Groupless
  outer : s.outer = []
  flags : s.top.flags = {}
  pending : s.pending = none
  complete : ∃ s', s.settle = .ok s'
  inside : ∀ k : Reader, k.Open → k.mode = .plain → k.top.flags = {} → k.top.lookbehind = none →
    k.readAll t = .ok (k.inside s)
  head : t.head? ≠ some '?'
  alone : ({} : Reader).readAll t = .ok s

theorem head_of_readAll {t : List Char} {s : Reader} (h : ({} : Reader).readAll t = .ok s) :
    t.head? ≠ some '?' := by
  cases t with
  | nil => simp
  | cons c rest =>
      intro hc
      have hc : c = '?' := by simpa using hc
      subst hc
      obtain ⟨u, hstep, _⟩ := readAll_cons_eq_ok '?' rest _ s h
      cases hstep

/-- A text that is an expression, and that has no groups since there is one with its parentheses,
can be read anywhere. -/
theorem standalone_of_parse {t : List Char} (ht : HasOneGroup t) {regex : Regex} {count : Nat}
    (hparse : parse t = .ok (regex, count)) : ∃ s, Standalone t s := by
  obtain ⟨s, hread, hfinish⟩ := parse_eq_ok hparse
  obtain ⟨s', hsettle, houter, _, htested, hpending, _, _⟩ := (finish_eq_ok_iff s _ _).mp hfinish
  obtain ⟨mode, items, hs⟩ := settle_eq_ok hsettle
  rw [hs] at houter htested hpending
  have hpoised := poised_readAll t {} s trivial hread
  have hhead := head_of_readAll hread
  obtain ⟨enclosed, hparse'⟩ := ht
  obtain ⟨w, hread', hfinish'⟩ := parse_eq_ok hparse'
  obtain ⟨w', hsettle', _, _, _, _, _, hcount⟩ := (finish_eq_ok_iff w _ _).mp hfinish'
  obtain ⟨mode', items', hw'⟩ := settle_eq_ok hsettle'
  rw [hw'] at hcount
  let k := ({} : Reader).opened.enterCapture
  rw [ready_start.readAll_capture hhead] at hread'
  obtain ⟨m, hm, hclose⟩ := readAll_append_eq_ok t [')'] k w hread'
  have hparallel : Parallel 1 [{}] {} {} k := ⟨⟨rfl, rfl, rfl⟩, rfl, rfl⟩
  obtain ⟨halike, _, _⟩ := parallel_readAll t {} k s m trivial trivial hparallel hread hm
  have hgroups := groups_of_readAll [')'] m w (poised_readAll t k m trivial hm) hclose
  have hnone : s.groups.length = 0 := by
    have hmore := halike.groups
    have hcount : 1 = w.groups.length := hcount
    omega
  have hnumberless : s.Numberless := by
    refine ⟨List.length_eq_zero_iff.mp hnone, ?_⟩
    have htested : s.tested ≤ s.groups.length := htested
    omega
  have hgroupless := groupless_readAll t {} s trivial groupless_start hread hnumberless
  have hopen : k.Open := by
    refine ⟨?_, rfl⟩
    intro number hnumber
    cases hnumber
  have hfollows : ∀ k' : Reader, k'.Open → Follows k k' {} s m ((k'.inside {}).readAll t) :=
    fun k' hk' => readAll_inside hopen hk' t {} s m sound_start hread hgroupless.reference hm
  refine ⟨s, hpoised, hgroupless, houter, ?_, hpending, ⟨s', hsettle⟩, ?_, hhead, hread⟩
  · have hflags := (hfollows k hopen).flags
    have houter : s.outer = [] := houter
    rw [houter] at hflags
    exact hflags
  · intro k' hk' hmode hflags hlookbehind
    have hagain := (hfollows k' hk').again hgroupless.names
    rwa [inside_start k' hmode hflags hlookbehind] at hagain

end Regex.Reader

end NamedRoutes
