import NamedRoutes.Proofs.Regex.Parentheses
import NamedRoutes.Regex.Expression

/-!
Pasting texts together. Each text of a kind is read by every reader that is ready for it and leaves
a reader that is ready for the next one, so the texts of a path can be read one after another. Texts
that can be read wherever they stand leave everything alone but the current alternative and the
groups.
-/

namespace NamedRoutes.Regex

theorem refers_shift (base : Nat) (r : Regex) : (r.shift base).refers = r.refers := by
  induction r with
  | seq first second ihf ihs => simp only [Regex.shift, refers, ihf, ihs]
  | alt first second ihf ihs => simp only [Regex.shift, refers, ihf, ihs]
  | group body ih => exact ih
  | capture number body ih => exact ih
  | atomic body ih => exact ih
  | ahead negated body ih => exact ih
  | behind negated width body ih => exact ih
  | repeated greed least most body ih => exact ih
  | _ => rfl

theorem Frame.NoReference.shift {f : Frame} (base : Nat) (h : f.NoReference) :
    (f.shift base).NoReference := by
  refine ⟨(Frame.all_iff _).mpr ⟨?_, ?_⟩, ?_⟩
  · rw [Frame.branch_shift, List.forall_mem_map]
    intro x hx
    rw [refers_shift]
    exact ((Frame.all_iff f).mp h.all).1 x hx
  · intro branch hbranch x hx
    obtain ⟨own, hown, rfl⟩ := List.mem_map.mp hbranch
    obtain ⟨y, hy, rfl⟩ := List.mem_map.mp hx
    rw [refers_shift]
    exact h.all.branches own hown y hy
  · intro number hnumber
    have hrole := h.role
    have hnumber : f.role.shift base = .condition number := hnumber
    cases hcase : f.role <;> simp_all [Role.shift]

theorem forall_mem_joinBranches {P : Regex → Prop} (before : List Regex)
    (done branches : List (List Regex)) (hbefore : ∀ x ∈ before, P x)
    (hdone : ∀ branch ∈ done, ∀ x ∈ branch, P x)
    (hbranches : ∀ branch ∈ branches, ∀ x ∈ branch, P x) :
    ∀ branch ∈ joinBranches before done branches, ∀ x ∈ branch, P x := by
  induction branches with
  | nil => exact hdone
  | cons branch rest ih =>
      obtain ⟨hbranch, hrest⟩ := List.forall_mem_cons.mp hbranches
      cases rest with
      | nil =>
          refine List.forall_mem_cons.mpr ⟨?_, hdone⟩
          exact fun x hx => (List.mem_append.mp hx).elim (hbefore x) (hbranch x)
      | cons next rest => exact List.forall_mem_cons.mpr ⟨hbranch, ih hrest⟩

theorem Frame.NoReference.onto {f k : Frame} (base : Nat) (hf : f.NoReference)
    (hk : k.NoReference) : (f.onto base k).NoReference := by
  have hshift := hf.shift base
  refine ⟨⟨?_, ?_⟩, hk.role⟩
  · intro item hitem
    rcases List.mem_append.mp hitem with hitem | hitem
    · exact hshift.all.items item hitem
    · split at hitem
      · exact hk.all.items item hitem
      · cases hitem
  · exact forall_mem_joinBranches _ _ _ ((Frame.all_iff k).mp hk.all).1 hk.all.branches
      hshift.all.branches

namespace Reader

theorem noReference_frameInside {k : Reader} (hk : k.top.NoReference) {f : Frame}
    (hf : f.NoReference) (outer : List Frame) : (k.frameInside f outer).NoReference := by
  cases outer with
  | nil => exact hf.onto _ hk
  | cons parent rest => exact hf.shift _

theorem noReference_outerInside {k : Reader} (hk : k.NoReference) (outer : List Frame)
    (houter : ∀ f ∈ outer, f.NoReference) : ∀ f ∈ k.outerInside outer, f.NoReference := by
  obtain ⟨htop, hrest⟩ := List.forall_mem_cons.mp hk
  induction outer with
  | nil => exact hrest
  | cons f rest ih =>
      obtain ⟨hf, hothers⟩ := List.forall_mem_cons.mp houter
      exact List.forall_mem_cons.mpr ⟨noReference_frameInside htop hf rest, ih hothers⟩

theorem noReference_inside {k r : Reader} (hk : k.NoReference) (hr : r.NoReference) :
    (k.inside r).NoReference := by
  obtain ⟨htop, houter⟩ := List.forall_mem_cons.mp hr
  refine List.forall_mem_cons.mpr ⟨noReference_frameInside ?_ htop r.outer, ?_⟩
  · exact (List.forall_mem_cons.mp hk).1
  · exact noReference_outerInside hk r.outer houter

/-- Whether `v` is ready as `u` is, with nothing changed but the current alternative, which refers
to no more groups than before, and with some more groups. -/
structure Extended (u v : Reader) (count : Nat) : Prop where
  ready : v.Ready
  same : ∃ position mode items groups,
    v = { u with position, mode, top := { u.top with items }, groups }
  groups : v.groups.length = u.groups.length + count
  reference : u.NoReference → v.NoReference

variable {u v w : Reader} {m n : Nat}

theorem Extended.refl (hu : u.Ready) : Extended u u 0 :=
  ⟨hu, ⟨u.position, u.mode, u.top.items, u.groups, rfl⟩, rfl, id⟩

theorem Extended.trans (h : Extended u v m) (h' : Extended v w n) : Extended u w (m + n) := by
  obtain ⟨position, mode, items, groups, hv⟩ := h.same
  obtain ⟨position', mode', items', groups', hw⟩ := h'.same
  refine ⟨h'.ready, ⟨position', mode', items', groups', ?_⟩, ?_, fun hu => ?_⟩
  · rw [hw, hv]
  · rw [h'.groups, h.groups, Nat.add_assoc]
  · exact h'.reference (h.reference hu)

theorem Extended.lookbehind (h : Extended u v n) : v.top.lookbehind = u.top.lookbehind := by
  obtain ⟨_, _, _, _, rfl⟩ := h.same
  rfl

theorem Ready.extended_settled (hu : u.Ready) : Extended u u.settled 0 := by
  obtain ⟨items, hsettled, _⟩ := hu.settled_eq
  refine ⟨?_, ⟨u.position, .plain, items, u.groups, hsettled⟩, ?_, fun hreference => ?_⟩
  · refine .of_plain ?_ hu.flags_settled
    rw [hsettled]
  · rw [hsettled, Nat.add_zero]
  · unfold settled
    rcases hu.mode with hmode | ⟨least, most, hmode⟩
    · rwa [hmode]
    · rw [hmode]
      cases hitems : u.top.items with
      | nil =>
          unfold repeatLast
          rwa [hitems]
      | cons item rest =>
          exact noReference_move (.repeatLast .greedy least most item rest hitems) hreference

/-- Counting a character is no step of its own. -/
theorem Extended.counting (h : Extended u v n) : Extended u v.counting n := by
  obtain ⟨position, mode, items, groups, hv⟩ := h.same
  refine ⟨⟨h.ready.poised, h.ready.mode, h.ready.flags⟩, ?_, h.groups, h.reference⟩
  exact ⟨position + 1, mode, items, groups, by rw [hv]; rfl⟩

theorem Extended.push (h : Extended u v n) (item : Regex) (hitem : item.refers = false)
    (hnumbers : ∀ limit, item.numbersWithin limit) : Extended u (v.push item) n := by
  obtain ⟨position, mode, items, groups, hv⟩ := h.same
  refine ⟨.of_plain rfl h.ready.flags, ?_, h.groups, fun hreference => ?_⟩
  · exact ⟨position, .plain, .single item :: items, groups, by rw [hv]; rfl⟩
  · exact noReference_move (.push item hitem hnumbers) (h.reference hreference)

/-- Whether every ready reader can read a text, and the text opens some groups. -/
def Reads (text : List Char) (count : Nat) : Prop :=
  ∀ u : Reader, u.Ready → u.top.lookbehind = none →
    ∃ v, u.readAll text = .ok v ∧ Extended u v count

theorem Reads.nil : Reads [] 0 := fun u hu _ => ⟨u, rfl, .refl hu⟩

theorem Reads.append {first second : List Char} (hfirst : Reads first m)
    (hsecond : Reads second n) :
    Reads (first ++ second) (m + n) := by
  intro u hu hlookbehind
  obtain ⟨v, hread, hv⟩ := hfirst u hu hlookbehind
  obtain ⟨w, hread', hw⟩ := hsecond v hv.ready (hv.lookbehind.trans hlookbehind)
  exact ⟨w, (readAll_append_of_ok hread).trans hread', hv.trans hw⟩

theorem plain_of_isSpecial (r : Reader) {c : Char} (hflags : r.top.flags = {})
    (hc : isSpecial c = false) : r.plain c = .ok (r.pushChar c) := by
  unfold plain
  rw [hflags]
  simp only [Bool.false_and, Bool.false_eq_true, if_false]
  split <;> first | rfl | cases hc

theorem escape_of_special (r : Reader) :
    ∀ c ∈ specialChars, r.escape c = .ok (r.pushChar c) := by
  unfold specialChars
  simp only [List.forall_mem_cons]
  repeat' constructor
  exact List.forall_mem_nil _

theorem escape_of_blank (r : Reader) {c : Char} (hc : Text.isAsciiBlank c.toNat = true) :
    r.escape c = .ok (r.pushChar c) := by
  have hcode : c.toNat = 9 ∨ c.toNat = 10 ∨ c.toNat = 11 ∨ c.toNat = 12 ∨ c.toNat = 13 ∨
      c.toNat = 32 := by
    simp only [Text.isAsciiBlank, Bool.or_eq_true, Bool.and_eq_true, decide_eq_true_eq,
      beq_iff_eq] at hc
    omega
  have hchar : c = Char.ofNat c.toNat := (Char.ofNat_toNat c).symm
  rcases hcode with h | h | h | h | h | h <;> rw [h] at hchar <;> subst hchar <;> rfl

theorem step_escape (r : Reader) {c : Char} (hmode : r.mode = .escape) (hc : isSpecial c = true) :
    r.step c = .ok (r.counting.pushChar c) := by
  have hstep : r.step c = r.counting.escape c := by
    unfold Reader.step take
    rw [show ({ r with position := r.position + 1 } : Reader).mode = .escape from hmode]
    rfl
  rw [hstep]
  rcases Bool.or_eq_true_iff.mp hc with hc | hc
  · exact escape_of_special r.counting c (List.contains_iff_mem.mp hc)
  · exact escape_of_blank r.counting hc

/-- A character of literal text is read as itself. -/
theorem Ready.readAll_quoteChar (hu : u.Ready) (c : Char) :
    ∃ v, u.readAll (quoteChar c) = .ok v ∧ Extended u v 0 ∧ v.mode = .plain ∧
      v.top.items = .single (.one (.literal c.toNat false .exact)) :: u.settled.top.items := by
  have hextended := hu.extended_settled.counting
  have hflags : u.settled.counting.top.flags = {} := hu.flags_settled
  have hitem : Regex.one (.literal c.toNat false u.settled.counting.top.flags.folding) =
      .one (.literal c.toNat false .exact) := by rw [hflags]; rfl
  unfold quoteChar
  by_cases hspecial : isSpecial c = true
  · simp only [hspecial, if_true]
    have hescape : u.step '\\' = .ok { u.settled.counting with mode := .escape } := by
      rw [hu.step (by decide) (by decide)]
      unfold plain
      rw [hflags]
      rfl
    rw [readAll_cons_of_ok hescape, readAll_cons_of_ok (step_escape _ rfl hspecial)]
    refine ⟨_, rfl, hextended.counting.push _ rfl fun _ => trivial, rfl, ?_⟩
    rw [← hitem]
    rfl
  · simp only [hspecial, Bool.false_eq_true, if_false]
    have hspecial : isSpecial c = false := by simpa using hspecial
    have hstep : u.step c = .ok (u.settled.counting.pushChar c) := by
      rw [hu.step (by rintro rfl; cases hspecial) (by rintro rfl; cases hspecial)]
      exact plain_of_isSpecial _ hflags hspecial
    rw [readAll_cons_of_ok hstep]
    refine ⟨_, rfl, hextended.push _ rfl fun _ => trivial, rfl, ?_⟩
    rw [← hitem]
    rfl

theorem Ready.readAll_quote (hu : u.Ready) (text : List Char) :
    ∃ v, u.readAll (quote text) = .ok v ∧ Extended u v 0 := by
  induction text generalizing u with
  | nil => exact ⟨u, rfl, .refl hu⟩
  | cons c rest ih =>
      obtain ⟨v, hfirst, hv, _⟩ := hu.readAll_quoteChar c
      obtain ⟨w, hrest, hw⟩ := ih hv.ready
      exact ⟨w, (readAll_append_of_ok hfirst).trans hrest, hv.trans hw⟩

theorem Reads.quote (text : List Char) : Reads (quote text) 0 :=
  fun _ hu _ => hu.readAll_quote text

/-- Whether `r` has only opened a parenthesis since `u`, with some more groups. -/
structure Enclosed (u r : Reader) (count : Nat) : Prop where
  outer : ∃ items, r.outer = { u.top with items } :: u.outer
  names : r.names = u.names
  tested : r.tested = u.tested
  pending : r.pending = u.pending
  sound : r.top.fault? r.groups = none
  groups : r.groups.length = u.groups.length + count
  reference : u.NoReference → r.NoReference

/-- Closing the parenthesis adds one item. -/
theorem Enclosed.leave {r : Reader} (hu : u.Ready) (h : Enclosed u r n) :
    ∃ v, r.plain ')' = .ok v ∧ Extended u v n ∧ v.mode = .plain ∧
      ∃ items, v.top.items = r.top.item r.groups :: items := by
  obtain ⟨items, houter⟩ := h.outer
  have hleave : r.leave = .ok (r.closeTop { u.top with items } u.outer) := by
    unfold Reader.leave
    rw [houter]
    rfl
  rw [plain_parenthesis, hleave]
  refine ⟨_, rfl, ⟨.of_plain rfl hu.flags, ?_, ?_, fun hreference => ?_⟩, rfl, items, rfl⟩
  · refine ⟨r.position, .plain, r.top.item r.groups :: items, r.groupsOnClose, ?_⟩
    simp only [closeTop, postpone, pushItem, h.names, h.tested, h.pending, h.sound, Option.or_none]
  · exact (length_groupsOnClose r).trans h.groups
  · exact noReference_move (.leave _ _ houter) (h.reference hreference)

/-- Whether every ready reader can read a text, the text opens some groups, and what it amounts to
can be repeated. -/
def ReadsItem (text : List Char) (count : Nat) : Prop :=
  ∀ u : Reader, u.Ready → u.top.lookbehind = none →
    ∃ v, u.readAll text = .ok v ∧ Extended u v count ∧ v.mode = .plain ∧
      v.checkRepeatable = .ok ()

theorem ReadsItem.reads {text : List Char} (h : ReadsItem text n) : Reads text n := by
  intro u hu hlookbehind
  obtain ⟨v, hread, hv, _, _⟩ := h u hu hlookbehind
  exact ⟨v, hread, hv⟩

theorem startRepeat_of_check {v : Reader} (hflags : v.top.flags = {})
    (hcheck : v.checkRepeatable = .ok ()) (least : Nat) (most : Option Nat) :
    v.startRepeat least most = .ok { v with mode := .greed least most } := by
  unfold startRepeat
  rw [hcheck, hflags]
  simp [bind, Except.bind, pure, Except.pure, postpone]

theorem step_of_plain {v : Reader} (hmode : v.mode = .plain) (c : Char) :
    v.step c = v.counting.plain c := by
  unfold Reader.step take
  rw [show ({ v with position := v.position + 1 } : Reader).mode = .plain from hmode]
  rfl

/-- The signs after an item that say how often it is repeated. -/
theorem step_repeat {v : Reader} (hmode : v.mode = .plain) (hflags : v.top.flags = {})
    (hcheck : v.checkRepeatable = .ok ()) :
    v.step '?' = .ok { v.counting with mode := .greed 0 (some 1) } ∧
      v.step '+' = .ok { v.counting with mode := .greed 1 none } := by
  have hflags : v.counting.top.flags = {} := hflags
  rw [step_of_plain hmode, step_of_plain hmode]
  unfold plain
  rw [hflags]
  exact ⟨startRepeat_of_check hflags hcheck 0 (some 1), startRepeat_of_check hflags hcheck 1 none⟩

/-- What can be repeated can be optional. -/
theorem ReadsItem.optional {text : List Char} (h : ReadsItem text n) : Reads (text ++ ['?']) n := by
  intro u hu hlookbehind
  obtain ⟨v, hread, hv, hmode, hcheck⟩ := h u hu hlookbehind
  have hflags : v.top.flags = {} := hv.ready.flags
  have hstep := (step_repeat hmode hflags hcheck).1
  rw [readAll_append_of_ok hread, readAll_cons_of_ok hstep]
  obtain ⟨position, mode, items, groups, hsame⟩ := hv.same
  refine ⟨_, rfl, ⟨⟨?_, Or.inr ⟨0, some 1, rfl⟩, hflags⟩, ?_, hv.groups, hv.reference⟩⟩
  · intro hnil
    have hnil : v.top.items = [] := hnil
    simp [checkRepeatable, hnil] at hcheck
  · exact ⟨position + 1, .greed 0 (some 1), items, groups, by rw [hsame]; rfl⟩

theorem counting_inside (k r : Reader) : (k.inside r).counting = k.counting.inside r := by
  have hframe : ∀ f outer, k.counting.frameInside f outer = k.frameInside f outer := by
    intro f outer
    cases outer <;> rfl
  have houter : ∀ outer, k.counting.outerInside outer = k.outerInside outer := by
    intro outer
    induction outer with
    | nil => rfl
    | cons f rest ih => simp only [outerInside, ih, hframe]
  unfold inside
  rw [hframe, houter]
  simp only [counting, Nat.add_right_comm]

/-- A complete sign goes on with no closing parenthesis, except in a remark. -/
theorem continuedBy_parenthesis {r s : Reader} (h : r.settle = .ok s) (hr : r.Poised)
    (hflags : r.top.flags = {}) : r.mode.continuedBy ')' = false := by
  unfold Reader.settle at h
  unfold Poised at hr
  cases hmode : r.mode with
  | plain => rfl
  | octal digits value => rfl
  | reference first => rfl
  | longReference first second => rfl
  | greed least most => rfl
  | bounds read => rfl
  | lineRemark escaped =>
      rw [hmode, hflags] at hr
      cases hr
  | _ =>
      rw [hmode] at h
      cases h

/-- A text that is an expression without groups leaves behind what can be read anywhere in
parentheses, up to where the parenthesis is closed. -/
theorem Standalone.readAll_group {t : List Char} {s : Reader} (h : Standalone t s) :
    ∃ s', s.settle = .ok s' ∧ s'.outer = [] ∧ s'.groups = [] ∧ s'.names = [] ∧ s'.tested = 0 ∧
      s'.pending = none ∧ ∀ u : Reader, u.Ready → u.top.lookbehind = none →
        u.readAll ('(' :: (t ++ [')'])) = (u.opened.enterCapture.counting.inside s').plain ')' := by
  obtain ⟨s', hsettle⟩ := h.complete
  obtain ⟨mode, items, hs'⟩ := settle_eq_ok hsettle
  refine ⟨s', hsettle, ?_, ?_, ?_, ?_, ?_, fun u hu hlookbehind => ?_⟩
  · rw [hs']
    exact h.outer
  · rw [hs']
    exact h.groupless.numberless.groups
  · rw [hs']
    exact h.groupless.names
  · rw [hs']
    exact h.groupless.numberless.tested
  · rw [hs']
    exact h.pending
  · obtain ⟨kept, hsettled, _⟩ := hu.settled_eq
    let k := u.opened.enterCapture
    have hopen : k.Open := by
      refine ⟨?_, rfl⟩
      intro number hnumber
      cases hnumber
    have hflags : k.top.flags = {} := hu.flags_settled
    have hnone : k.top.lookbehind = none := by
      change u.settled.top.lookbehind = none
      rw [hsettled]
      exact hlookbehind
    have hread := h.inside k hopen rfl hflags hnone
    have hcomplete : (k.inside s).counting.settle = .ok (k.counting.inside s') := by
      rw [counting_inside]
      exact settle_inside _ h.poised h.groupless.numberless.groups hsettle
    have hcontinued := continuedBy_parenthesis hsettle h.poised h.flags
    have hstep : (k.inside s).step ')' = (k.counting.inside s').plain ')' :=
      take_of_settle hcomplete hcontinued
    rw [hu.readAll_capture h.head, readAll_append_of_ok hread]
    change ((k.inside s).step ')' >>= fun v => v.readAll []) = _
    rw [hstep]
    cases (k.counting.inside s').plain ')' <;> rfl

/-- What stands in the parentheses, if nothing was read between the opening one and the text. -/
theorem top_inside_group {s : Reader} (houter : s.outer = []) (k : Reader) :
    (k.counting.inside s).top = s.top.onto k.groups.length k.top := by
  change k.counting.frameInside s.top s.outer = _
  rw [houter]
  rfl

/-- A text that is an expression without groups can be pasted anywhere in parentheses. -/
theorem Standalone.readsItem {t : List Char} {s : Reader} (h : Standalone t s) :
    ReadsItem ('(' :: (t ++ [')'])) 1 := by
  obtain ⟨s', hsettle, houter, hgroups, hnames, htested, hpending, hread⟩ := h.readAll_group
  intro u hu hlookbehind
  obtain ⟨kept, hsettled, _⟩ := hu.settled_eq
  let k := u.opened.enterCapture
  have htop := top_inside_group houter k
  have henclosed : Enclosed u (k.counting.inside s') 1 := by
    refine ⟨⟨kept, ?_⟩, ?_, ?_, ?_, ?_, ?_, fun hreference => ?_⟩
    · change k.counting.outerInside s'.outer = _
      rw [houter]
      change u.settled.top :: u.settled.outer = _
      rw [hsettled]
    · change s'.names.map _ ++ u.settled.names = u.names
      rw [hnames, hsettled]
      rfl
    · change max u.settled.tested s'.tested = u.tested
      rw [htested, hsettled, Nat.max_zero]
    · change u.settled.pending.or s'.pending = u.pending
      rw [hpending, hsettled, Option.or_none]
    · rw [htop]
      rfl
    · change ((u.settled.groups ++ [none]) ++ s'.groups).length = _
      rw [hgroups, hsettled]
      simp
    · have hopened : u.opened.NoReference := hu.extended_settled.reference hreference
      have hk : k.NoReference := noReference_move (.capture u.opened.names (Or.inl rfl)) hopened
      have hs := noReference_settle h.groupless hsettle
      exact noReference_inside hk hs
  obtain ⟨v, hplain, hv, hmode, kept', hitems⟩ := henclosed.leave hu
  rw [hread u hu hlookbehind, hplain]
  refine ⟨v, rfl, hv, hmode, ?_⟩
  unfold checkRepeatable
  rw [hitems, htop]
  rfl

/-- The reader after an opening parenthesis that makes no group. -/
def wrapped (u : Reader) : Reader := u.opened.counting.counting.enter .plain

theorem Ready.readAll_wrapped (hu : u.Ready) (rest : List Char) :
    u.readAll ("(?:".toList ++ rest) = u.wrapped.readAll rest := by
  change u.readAll ('(' :: '?' :: ':' :: rest) = _
  rw [hu.readAll_opening]
  have hquestion : u.opened.step '?' = .ok { u.opened.counting with mode := .question } := rfl
  have hcolon : ({ u.opened.counting with mode := .question } : Reader).step ':' =
      .ok u.wrapped := rfl
  rw [readAll_cons_of_ok hquestion, readAll_cons_of_ok hcolon]

theorem Ready.wrapped (hu : u.Ready) : u.wrapped.Ready := .of_plain rfl hu.flags_settled

/-- A text that can be read can be put in parentheses that record nothing. -/
theorem Reads.wrapped {text : List Char} (h : Reads text n) :
    ReadsItem ("(?:".toList ++ (text ++ [')'])) n := by
  intro u hu hlookbehind
  obtain ⟨kept, hsettled, _⟩ := hu.settled_eq
  have hnone : u.wrapped.top.lookbehind = none := by
    change u.settled.top.lookbehind = none
    rw [hsettled]
    exact hlookbehind
  obtain ⟨v, hread, hv⟩ := h u.wrapped hu.wrapped hnone
  have hextended := (hv.trans hv.ready.extended_settled).counting
  have hstep : v.step ')' = v.settled.counting.plain ')' :=
    hv.ready.step (by decide) (by decide)
  have henclosed : Enclosed u v.settled.counting n := by
    obtain ⟨position, mode, items, groups, hsame⟩ := hextended.same
    have hgroups := hextended.groups
    refine ⟨⟨kept, ?_⟩, ?_, ?_, ?_, ?_, ?_, fun hreference => ?_⟩
    · rw [hsame]
      change u.settled.top :: u.settled.outer = _
      rw [hsettled]
    · rw [hsame]
      change u.settled.names = u.names
      rw [hsettled]
    · rw [hsame]
      change u.settled.tested = u.tested
      rw [hsettled]
    · rw [hsame]
      change u.settled.pending = u.pending
      rw [hsettled]
    · rw [hsame]
      rfl
    · change v.settled.counting.groups.length = u.settled.groups.length + n at hgroups
      rw [hsettled] at hgroups
      exact hgroups
    · have hopened : u.opened.NoReference := hu.extended_settled.reference hreference
      exact hextended.reference (noReference_move (.enter .plain _ rfl) hopened)
  obtain ⟨w, hplain, hw, hmode, kept', hitems⟩ := henclosed.leave hu
  rw [hu.readAll_wrapped, readAll_append_of_ok hread, readAll_cons_of_ok (hstep.trans hplain)]
  refine ⟨w, rfl, hw, hmode, ?_⟩
  obtain ⟨position, mode, items, groups, hsame⟩ := hextended.same
  unfold checkRepeatable
  rw [hitems, hsame]
  rfl

theorem begun_of_readAll (text : List Char) (r s : Reader) (hpoised : r.Poised)
    (h : r.readAll text = .ok s) (hr : r.Begun) : s.Begun :=
  readAll_induction (fun _ _ _ hmove hr => begun_of_move hmove hr) (fun _ hr => hr)
    text r s hpoised h
    hr

/-- Whether a text opens some groups and closes all its parentheses wherever it can be read. -/
def Opens (text : List Char) (count : Nat) : Prop :=
  ∀ u v : Reader, u.Ready → u.Begun → u.readAll text = .ok v → Tracked u v count

theorem Tracked.trans (h : Tracked u v m) (h' : Tracked v w n) : Tracked u w (m + n) := by
  refine ⟨h'.ready, h'.begun, h'.flags.trans h.flags, ?_⟩
  rw [h'.groups, h.groups, Nat.add_assoc]

theorem Opens.nil : Opens [] 0 := by
  intro u v hu hbegun h
  cases h
  exact ⟨hu, hbegun, rfl, rfl⟩

theorem Opens.append {first second : List Char} (hfirst : Opens first m)
    (hsecond : Opens second n) :
    Opens (first ++ second) (m + n) := by
  intro u w hu hbegun h
  obtain ⟨v, hread, hread'⟩ := readAll_append_eq_ok first second u w h
  have hv := hfirst u v hu hbegun hread
  exact hv.trans (hsecond v w hv.ready hv.begun hread')

theorem Opens.quote (text : List Char) : Opens (Regex.quote text) 0 := by
  intro u v hu hbegun h
  obtain ⟨v', hread, hv⟩ := hu.readAll_quote text
  rw [h] at hread
  cases hread
  obtain ⟨position, mode, items, groups, hsame⟩ := hv.same
  refine ⟨hv.ready, begun_of_readAll _ u v hu.poised h hbegun, ?_, hv.groups⟩
  rw [hsame]
  rfl

theorem HasOneGroup.opens {t : List Char} (h : HasOneGroup t) : Opens ('(' :: (t ++ [')'])) 1 :=
  fun _ _ hu hbegun hread => tracked_group h hu hbegun hread

theorem Opens.optional {text : List Char} (h : Opens text n) : Opens (text ++ ['?']) n := by
  intro u w hu hbegun hread
  obtain ⟨v, hfirst, hlast⟩ := readAll_append_eq_ok text ['?'] u w hread
  obtain ⟨w', hstep, hw⟩ := readAll_cons_eq_ok '?' [] v w hlast
  cases hw
  have hv := h u v hu hbegun hfirst
  have hpoised := poised_step hv.ready.poised '?' hstep
  have hbegun' := begun_of_readAll _ v w hv.ready.poised hlast hv.begun
  suffices hw : (w.mode = .plain ∨ ∃ least most, w.mode = .greed least most) ∧
      w.flagStack = v.flagStack ∧ w.groups = v.groups by
    obtain ⟨hmode, hflags, hgroups⟩ := hw
    have htop : w.top.flags = v.top.flags := by
      simp only [flagStack, frames, List.map_cons, List.cons.injEq] at hflags
      exact hflags.1
    refine ⟨⟨hpoised, hmode, htop.trans hv.ready.flags⟩, hbegun', hflags.trans hv.flags, ?_⟩
    rw [hgroups, hv.groups]
  rcases hv.ready.mode with hmode | ⟨least, most, hmode⟩
  · have htake : v.step '?' = v.counting.startRepeat 0 (some 1) := by
      unfold Reader.step take
      rw [show ({ v with position := v.position + 1 } : Reader).mode = .plain from hmode]
      unfold plain
      rw [show ({ v with position := v.position + 1 } : Reader).top.flags = {} from hv.ready.flags]
      rfl
    rw [htake] at hstep
    obtain ⟨_, pending, rfl⟩ := startRepeat_eq_ok _ w 0 (some 1) hstep
    exact ⟨Or.inr ⟨0, some 1, rfl⟩, rfl, rfl⟩
  · have htake : v.step '?' = .ok (v.counting.repeatLast .lazy least most) := by
      unfold Reader.step take
      rw [show ({ v with position := v.position + 1 } : Reader).mode = .greed least most from hmode]
      rfl
    rw [htake] at hstep
    cases hstep
    obtain ⟨hplain, hflags, hgroups⟩ := repeatLast_outline v.counting .lazy least most
    exact ⟨Or.inl hplain, hflags, hgroups⟩

theorem Opens.wrapped {text : List Char} (h : Opens text n) :
    Opens ("(?:".toList ++ (text ++ [')'])) n := by
  intro u w hu hbegun hread
  rw [hu.readAll_wrapped] at hread
  obtain ⟨v, hfirst, hlast⟩ := readAll_append_eq_ok text [')'] _ w hread
  obtain ⟨w', hstep, hw⟩ := readAll_cons_eq_ok ')' [] v w hlast
  cases hw
  have hv := h u.wrapped v hu.wrapped rfl hfirst
  rw [hv.ready.step (by decide) (by decide), plain_parenthesis] at hstep
  obtain ⟨parent, outer, houter, rfl⟩ := leave_eq_ok _ w hstep
  have hflags : v.settled.counting.flagStack = v.flagStack := hv.ready.flagStack_settled
  have hstack : (v.settled.counting.closeTop parent outer).flagStack = u.flagStack := by
    rw [flagStack_closeTop _ parent outer houter, ← hu.flagStack_settled]
    rw [hv.flags] at hflags
    simp only [flagStack, frames, List.map_cons, List.cons.injEq] at hflags
    exact hflags.2
  have hgroups : (v.settled.counting.closeTop parent outer).groups.length =
      u.groups.length + n := by
    obtain ⟨items, hsettled, _⟩ := hv.ready.settled_eq
    obtain ⟨items', hsettled', _⟩ := hu.settled_eq
    have hcount : v.groups.length = u.settled.groups.length + n := hv.groups
    rw [hsettled'] at hcount
    refine (length_groupsOnClose v.settled.counting).trans ?_
    change v.settled.groups.length = _
    rw [hsettled]
    exact hcount
  have htop : (v.settled.counting.closeTop parent outer).top.flags = u.top.flags := by
    simp only [flagStack, frames, List.map_cons, List.cons.injEq] at hstack
    exact hstack.1
  refine ⟨.of_plain rfl (htop.trans hu.flags), begun_of_items rfl, hstack, hgroups⟩

end Reader

end NamedRoutes.Regex
