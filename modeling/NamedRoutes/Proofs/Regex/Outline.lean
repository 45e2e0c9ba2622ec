import NamedRoutes.Proofs.Regex.Reading

/-!
The outline of a reader: its mode, the flags of its open parentheses and the number of its groups.
Two readers with the same outline perform the same script for a character and end with the same
outline, whatever they hold. So a text opens as many groups behind another text as on its own, even
if it refers to groups. And an expression without groups refers to none.
-/

namespace NamedRoutes.Regex.Reader

def flagStack (r : Reader) : List Flags := r.frames.map (·.flags)

/-- Whether `u` has the outline of `r`, with more groups and more parentheses around. -/
structure Alike (base : Nat) (around : List Flags) (r u : Reader) : Prop where
  mode : u.mode = r.mode
  flags : u.flagStack = r.flagStack ++ around
  groups : u.groups.length = r.groups.length + base

/-- Whether a reader has anything that flags of the whole expression would come too late for. -/
def Begun (r : Reader) : Prop :=
  (r.outer.isEmpty && r.top.branches.isEmpty && r.top.items.isEmpty) = false

variable {base : Nat} {around : List Flags}

theorem Alike.topFlags {r u : Reader} (h : Alike base around r u) : u.top.flags = r.top.flags := by
  have hflags := h.flags
  simp only [flagStack, frames, List.map_cons, List.cons_append, List.cons.injEq] at hflags
  exact hflags.1

theorem Alike.outerFlags {r u : Reader} (h : Alike base around r u) :
    u.outer.map (·.flags) = r.outer.map (·.flags) ++ around := by
  have hflags := h.flags
  simp only [flagStack, frames, List.map_cons, List.cons_append, List.cons.injEq] at hflags
  exact hflags.2

theorem begun_of_items {r : Reader} {item : Item} {items : List Item}
    (h : r.top.items = item :: items) : r.Begun := by
  simp [Begun, h]

/-- Nothing that was read is taken back. -/
theorem begun_of_move {r s : Reader} {asks : Bool} (h : r.Move asks s) (hr : r.Begun) :
    s.Begun := by
  cases h with
  | stay mode pending => exact hr
  | push item => exact begun_of_items rfl
  | switch flags => exact hr
  | enter role flags hrole => simp [Begun, descend]
  | capture names hnames => simp [Begun, enterCapture, enter, descend]
  | branch => simp [Begun, endBranch]
  | leave parent outer houter => exact begun_of_items rfl
  | repeatLast greed least most item items hitems =>
      unfold repeatLast
      rw [hitems]
      exact begun_of_items rfl
  | refer number folding => exact begun_of_items rfl
  | condition number tested => simp [Begun, enter, descend]

/-- Flags of the whole expression come too late for a reader that has begun. -/
theorem switch_ne_ok_of_begun {r : Reader} (h : r.Begun) (added : List Char) (s : Reader) :
    (Action.switch added).perform r ≠ .ok s := by
  intro hs
  unfold Begun at h
  simp only [Action.perform, h, Bool.false_eq_true, if_false] at hs
  cases hs

theorem flagStack_closeTop (r : Reader) (parent : Frame) (outer : List Frame)
    (houter : r.outer = parent :: outer) :
    (r.closeTop parent outer).flagStack = r.outer.map (·.flags) := by
  rw [houter]
  rfl

theorem repeatLast_outline (r : Reader) (greed : Greed) (least : Nat) (most : Option Nat) :
    (r.repeatLast greed least most).mode = .plain ∧
      (r.repeatLast greed least most).flagStack = r.flagStack ∧
      (r.repeatLast greed least most).groups = r.groups := by
  unfold repeatLast
  cases r.top.items <;> exact ⟨rfl, rfl, rfl⟩

theorem alike_perform (a : Action) (r u s m : Reader) (h : Alike base around r u)
    (hu : u.Begun) (hs : a.perform r = .ok s) (hm : a.perform u = .ok m) :
    Alike base around s m := by
  have htop := h.topFlags
  have houter := h.outerFlags
  have hgroups := h.groups
  have hpush : ∀ x y : Regex, Alike base around (r.push x) (u.push y) :=
    fun _ _ => ⟨rfl, h.flags, hgroups⟩
  have hrefer : ∀ i j : Nat, r.pushReference i = .ok s → u.pushReference j = .ok m →
      Alike base around s m := by
    intro i j hs hm
    rw [(pushReference_eq_ok r s i hs).1, (pushReference_eq_ok u m j hm).1]
    exact hpush _ _
  have henter : ∀ (role role' : Role), Alike base around (r.enter role) (u.enter role') := by
    intro role role'
    refine ⟨rfl, ?_, hgroups⟩
    change u.top.flags :: u.flagStack = r.top.flags :: (r.flagStack ++ around)
    rw [htop, h.flags]
  have hcapture : Alike base around r.enterCapture u.enterCapture := by
    refine ⟨rfl, (henter _ _).flags, ?_⟩
    simp [enterCapture, hgroups]
    omega
  cases a with
  | fail fault => cases hs
  | wait mode hfree =>
      cases hs
      cases hm
      exact ⟨rfl, h.flags, hgroups⟩
  | remark escaped =>
      rw [(remark_eq_ok r s escaped hs).2, (remark_eq_ok u m escaped hm).2]
      exact ⟨rfl, h.flags, hgroups⟩
  | test question =>
      cases hs
      cases hm
      exact hpush _ _
  | anchor a =>
      cases hs
      cases hm
      exact hpush _ _
  | switch added => exact absurd hm (switch_ne_ok_of_begun hu added m)
  | enter role flags hrole =>
      cases hs
      cases hm
      exact ⟨rfl, congrArg (flags :: ·) h.flags, hgroups⟩
  | capture =>
      cases hs
      cases hm
      exact hcapture
  | captureNamed name =>
      rw [(captureNamed_eq_ok r s name hs).2, (captureNamed_eq_ok u m name hm).2]
      exact ⟨rfl, hcapture.flags, hcapture.groups⟩
  | condition text =>
      obtain ⟨number, tested, rfl, _⟩ := condition_eq_ok r s text hs
      obtain ⟨number', tested', rfl, _⟩ := condition_eq_ok u m text hm
      have hentered := henter (.condition number) (.condition number')
      exact ⟨rfl, hentered.flags, hentered.groups⟩
  | refer number => exact hrefer number number hs hm
  | referNamed name =>
      obtain ⟨number, hnumber⟩ := referNamed_eq_ok r s name hs
      obtain ⟨number', hnumber'⟩ := referNamed_eq_ok u m name hm
      exact hrefer number number' hnumber hnumber'
  | branch =>
      rw [nextBranch_eq_ok r s hs, nextBranch_eq_ok u m hm]
      exact ⟨rfl, h.flags, hgroups⟩
  | leave =>
      obtain ⟨parent, outer, hr, rfl⟩ := leave_eq_ok r s hs
      obtain ⟨parent', outer', hu, rfl⟩ := leave_eq_ok u m hm
      refine ⟨rfl, ?_, ?_⟩
      · rw [flagStack_closeTop r parent outer hr, flagStack_closeTop u parent' outer' hu, houter]
      · change u.groupsOnClose.length = r.groupsOnClose.length + base
        rw [length_groupsOnClose, length_groupsOnClose, hgroups]
  | startRepeat least most =>
      obtain ⟨_, pending, rfl⟩ := startRepeat_eq_ok r s least most hs
      obtain ⟨_, pending', rfl⟩ := startRepeat_eq_ok u m least most hm
      exact ⟨rfl, h.flags, hgroups⟩
  | repeatLast greed =>
      obtain ⟨least, most, _, rfl⟩ := repeatLast_eq_ok r s greed hs
      obtain ⟨least', most', _, rfl⟩ := repeatLast_eq_ok u m greed hm
      obtain ⟨hplain, hflags, hkept⟩ := repeatLast_outline r greed least most
      obtain ⟨hplain', hflags', hkept'⟩ := repeatLast_outline u greed least' most'
      refine ⟨hplain'.trans hplain.symm, ?_, ?_⟩
      · rw [hflags, hflags', h.flags]
      · rw [hkept, hkept', hgroups]

/-- Whether `u` has the outline of `r` and has begun, so that no flags of the whole expression can
come any more. -/
structure Parallel (base : Nat) (around : List Flags) (bottom : Flags) (r u : Reader) : Prop where
  alike : Alike base around r u
  bottom : outerFlags r.top r.outer = bottom
  begun : u.Begun

variable {bottom : Flags}

theorem parallel_perform (a : Action) (r u s m : Reader) (h : Parallel base around bottom r u)
    (hs : a.perform r = .ok s) (hm : a.perform u = .ok m) :
    Parallel base around bottom s m := by
  have hswitch : ∀ added, a ≠ .switch added := by
    rintro added rfl
    exact switch_ne_ok_of_begun h.begun added m hm
  refine ⟨alike_perform a r u s m h.alike h.begun hs hm, ?_, ?_⟩
  · exact (outerFlags_perform r a hswitch s hs).trans h.bottom
  · exact begun_of_move (perform_move a u m hm) h.begun

theorem parallel_performAll (script : List Action) (r u s m : Reader)
    (h : Parallel base around bottom r u) (hs : Action.performAll script r = .ok s)
    (hm : Action.performAll script u = .ok m) : Parallel base around bottom s m := by
  induction script generalizing r u with
  | nil =>
      cases hs
      cases hm
      exact h
  | cons a rest ih =>
      obtain ⟨t, hr, hs⟩ := performAll_cons_eq_ok a rest r s hs
      obtain ⟨v, hu, hm⟩ := performAll_cons_eq_ok a rest u m hm
      exact ih t v (parallel_perform a r u t v h hr hu) hs hm

theorem parallel_step (c : Char) (r u s m : Reader) (hr : r.Poised) (hu : u.Poised)
    (h : Parallel base around bottom r u) (hs : r.step c = .ok s) (hm : u.step c = .ok m) :
    Parallel base around bottom s m := by
  obtain ⟨script, hscript⟩ := take_scripted r.mode r.top.flags c
  have hstep : r.step c = Action.performAll script r.counting :=
    hscript r.counting rfl rfl hr
  have hstep' : u.step c = Action.performAll script u.counting :=
    hscript u.counting h.alike.mode h.alike.topFlags hu
  rw [hstep] at hs
  rw [hstep'] at hm
  have hcounting : Parallel base around bottom r.counting u.counting :=
    ⟨⟨h.alike.mode, h.alike.flags, h.alike.groups⟩, h.bottom, h.begun⟩
  exact parallel_performAll script r.counting u.counting s m hcounting hs hm

/-- A text that can be read at two places opens the same parentheses and as many groups at both. -/
theorem parallel_readAll (text : List Char) (r u s m : Reader) (hr : r.Poised) (hu : u.Poised)
    (h : Parallel base around bottom r u) (hs : r.readAll text = .ok s)
    (hm : u.readAll text = .ok m) : Parallel base around bottom s m := by
  induction text generalizing r u with
  | nil =>
      cases hs
      cases hm
      exact h
  | cons c rest ih =>
      obtain ⟨t, hstep, hs⟩ := readAll_cons_eq_ok c rest r s hs
      obtain ⟨v, hstep', hm⟩ := readAll_cons_eq_ok c rest u m hm
      exact ih t v (poised_step hr c hstep) (poised_step hu c hstep')
        (parallel_step c r u t v hr hu h hstep hstep') hs hm

/-- Whether a reader has opened no group, and asked for none by a number. -/
structure Numberless (r : Reader) : Prop where
  groups : r.groups = []
  tested : r.tested = 0

theorem numberless_of_move {r s : Reader} {asks : Bool} (h : r.Move asks s)
    (hs : s.Numberless) : r.Numberless := by
  have hgroups := groups_of_move h
  have htested := tested_of_move h
  rw [hs.groups] at hgroups
  rw [hs.tested] at htested
  exact ⟨List.length_eq_zero_iff.mp (Nat.le_zero.mp hgroups), Nat.le_zero.mp htested⟩

theorem numberless_of_performAll (script : List Action) (r s : Reader)
    (h : Action.performAll script r = .ok s) (hs : s.Numberless) : r.Numberless := by
  apply Classical.byContradiction
  intro hr
  exact performAll_induction (P := fun r => ¬ r.Numberless)
    (fun _ _ _ hmove hr hs => hr (numberless_of_move hmove hs)) script r s h hr hs

theorem numberless_of_readAll (text : List Char) (r s : Reader) (hr : r.Poised)
    (h : r.readAll text = .ok s) (hs : s.Numberless) : r.Numberless := by
  apply Classical.byContradiction
  intro hnumberless
  exact readAll_induction (P := fun r => ¬ r.Numberless)
    (fun _ _ _ hmove hr hs => hr (numberless_of_move hmove hs))
    (fun _ hr hs => hr ⟨hs.groups, hs.tested⟩) text r s hr h hnumberless hs

/-- Whether a reader has come across no group, no name and no reference. -/
structure Groupless (r : Reader) : Prop where
  numberless : r.Numberless
  names : r.names = []
  reference : r.NoReference

theorem groupless_perform (a : Action) (r s : Reader) (hr : r.Groupless)
    (h : a.perform r = .ok s) (hs : s.Numberless) : s.Groupless := by
  have hasks : a.refers = false := by
    cases a with
    | condition text =>
        obtain ⟨number, tested, rfl, _, hlookup | ⟨_, htested⟩⟩ := condition_eq_ok r s text h
        · rw [hr.names] at hlookup
          cases hlookup
        · have hzero : tested = 0 := hs.tested
          omega
    | refer number => exact absurd hr.numberless.groups (groups_ne_nil_of_pushReference h)
    | referNamed name =>
        obtain ⟨number, hnumber⟩ := referNamed_eq_ok r s name h
        exact absurd hr.numberless.groups (groups_ne_nil_of_pushReference hnumber)
    | _ => rfl
  have hmove := perform_move a r s h
  rw [hasks] at hmove
  refine ⟨hs, ?_, noReference_move hmove hr.reference⟩
  have hnames := hr.names
  cases hmove with
  | capture names hnames =>
      have hgroups : r.groups ++ [none] = [] := hs.groups
      simp at hgroups
  | repeatLast greed least most item items hitems =>
      unfold repeatLast
      rw [hitems]
      exact hnames
  | _ => exact hnames

theorem groupless_performAll (script : List Action) (r s : Reader) (hr : r.Groupless)
    (h : Action.performAll script r = .ok s) (hs : s.Numberless) : s.Groupless := by
  induction script generalizing r with
  | nil =>
      cases h
      exact hr
  | cons a rest ih =>
      obtain ⟨t, hstep, hrest⟩ := performAll_cons_eq_ok a rest r s h
      have ht := numberless_of_performAll rest t s hrest hs
      exact ih t (groupless_perform a r t hr hstep ht) hrest

/-- A text that opens no group refers to none. -/
theorem groupless_readAll (text : List Char) (r s : Reader) (hpoised : r.Poised)
    (hr : r.Groupless) (h : r.readAll text = .ok s) (hs : s.Numberless) : s.Groupless := by
  induction text generalizing r with
  | nil =>
      cases h
      exact hr
  | cons c rest ih =>
      obtain ⟨t, hstep, hrest⟩ := readAll_cons_eq_ok c rest r s h
      have hpoised' := poised_step hpoised c hstep
      have ht := numberless_of_readAll rest t s hpoised' hrest hs
      obtain ⟨script, hscript, _⟩ := step_scripted r hpoised c
      rw [hscript] at hstep
      have hr' : r.counting.Groupless := ⟨⟨hr.numberless.groups, hr.numberless.tested⟩, hr.names,
        hr.reference⟩
      exact ih t hpoised' (groupless_performAll script r.counting t hr' hstep ht) hrest

end NamedRoutes.Regex.Reader
