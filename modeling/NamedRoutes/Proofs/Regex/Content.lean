import NamedRoutes.Proofs.Regex.Alternatives
import NamedRoutes.Proofs.Regex.Script

/-!
What a reader holds. Everything that was read stays in some open parenthesis until it becomes part
of the expression, so a property that passes from an expression to its parts can be followed while a
text is read. Two such properties are that an expression refers to no group and that its groups are
numbered within a limit.
-/

namespace NamedRoutes

def Regex.refers : Regex → Bool
  | .empty | .never | .one _ | .anchor _ => false
  | .seq first second | .alt first second => first.refers || second.refers
  | .group body | .capture _ body | .atomic body | .ahead _ body | .behind _ _ body
  | .repeated _ _ _ body => body.refers
  | .backref .. | .conditional .. => true

namespace Regex

/-- A property of expressions that an expression has if and only if its parts do. Of groups it may
ask more. -/
structure Hereditary (P : Regex → Prop) : Prop where
  empty : P .empty
  never : P .never
  one : ∀ test, P (.one test)
  anchor : ∀ a, P (.anchor a)
  seq : ∀ first second, P (.seq first second) ↔ P first ∧ P second
  alt : ∀ first second, P (.alt first second) ↔ P first ∧ P second
  group : ∀ body, P (.group body) ↔ P body
  capture : ∀ number body, P (.capture number body) → P body
  atomic : ∀ body, P (.atomic body) ↔ P body
  ahead : ∀ negated body, P (.ahead negated body) ↔ P body
  behind : ∀ negated width body, P (.behind negated width body) ↔ P body
  repeated : ∀ greed least most body, P (.repeated greed least most body) ↔ P body

theorem hereditary_not_refers : Hereditary fun r => r.refers = false := by
  constructor <;> simp [refers]

theorem hereditary_numbersWithin (limit : Nat) : Hereditary (numbersWithin limit) := by
  constructor <;> simp [numbersWithin]

theorem numbersWithin_mono {limit more : Nat} (h : limit ≤ more) {r : Regex}
    (hr : r.numbersWithin limit) : r.numbersWithin more := by
  induction r with
  | empty => trivial
  | never => trivial
  | one test => trivial
  | anchor a => trivial
  | seq first second ihf ihs => exact ⟨ihf hr.1, ihs hr.2⟩
  | alt first second ihf ihs => exact ⟨ihf hr.1, ihs hr.2⟩
  | group body ih => exact ih hr
  | capture number body ih => exact ⟨⟨hr.1.1, Nat.le_trans hr.1.2 h⟩, ih hr.2⟩
  | atomic body ih => exact ih hr
  | ahead negated body ih => exact ih hr
  | behind negated width body ih => exact ih hr
  | backref number folding => exact ⟨hr.1, Nat.le_trans hr.2 h⟩
  | conditional number yes no ihy ihn =>
      exact ⟨⟨hr.1.1, Nat.le_trans hr.1.2 h⟩, ihy hr.2.1, ihn hr.2.2⟩
  | repeated greed least most body ih => exact ih hr

namespace Hereditary

variable {P : Regex → Prop}

theorem sequence (hP : Hereditary P) (items : List Regex) :
    P (Regex.sequence items) ↔ ∀ x ∈ items, P x := by
  induction items with
  | nil => simpa [Regex.sequence] using hP.empty
  | cons item rest ih =>
      rw [List.forall_mem_cons, ← ih]
      exact hP.seq item (Regex.sequence rest)

theorem choice (hP : Hereditary P) (alternatives : List Regex) :
    P (Regex.choice alternatives) ↔ ∀ x ∈ alternatives, P x := by
  induction alternatives with
  | nil => simpa [Regex.choice] using hP.never
  | cons first others ih =>
      rw [List.forall_mem_cons, ← ih]
      exact hP.alt first (Regex.choice others)

/-- What some alternatives amount to has the property if and only if all their items do. -/
theorem unite (hP : Hereditary P) (flags : Flags) (branches : List (List Regex)) :
    (∀ x ∈ Regex.unite flags branches, P x) ↔ ∀ branch ∈ branches, ∀ x ∈ branch, P x := by
  match branches with
  | [] => simp [Regex.unite]
  | [branch] => simp [Regex.unite]
  | first :: second :: others =>
      obtain ⟨shared, tails, hbranches, _, hunite⟩ := unite_cases flags first second others
      have hne : tails ≠ [] := by
        rintro rfl
        cases hbranches
      rw [hbranches] at hunite
      rw [hbranches, List.forall_mem_map]
      have hsplit : (∀ tail ∈ tails, ∀ x ∈ shared ++ tail, P x) ↔
          (∀ x ∈ shared, P x) ∧ ∀ tail ∈ tails, ∀ x ∈ tail, P x := by
        constructor
        · intro h
          obtain ⟨tail, htail⟩ := List.exists_mem_of_ne_nil tails hne
          refine ⟨fun x hx => h tail htail x (List.mem_append_left _ hx), ?_⟩
          exact fun tail htail x hx => h tail htail x (List.mem_append_right _ hx)
        · rintro ⟨hshared, htails⟩ tail htail x hx
          rcases List.mem_append.mp hx with hx | hx
          · exact hshared x hx
          · exact htails tail htail x hx
      rw [hsplit]
      rcases hunite with hunite | ⟨set, hunite, htails⟩
      · rw [hunite, List.forall_mem_append, List.forall_mem_singleton, hP.choice,
          List.forall_mem_map]
        simp only [hP.sequence]
      · rw [hunite, List.forall_mem_append, List.forall_mem_singleton]
        refine and_congr_right fun _ => ?_
        refine ⟨fun _ tail htail => ?_, fun _ => hP.one _⟩
        obtain ⟨test, rfl⟩ := htails tail htail
        simpa using hP.one test

end Hereditary

/-- Whether an item consists of expressions with a property. -/
def Item.All (P : Regex → Prop) : Item → Prop
  | .single item => P item
  | .plain items => ∀ x ∈ items, P x

structure Frame.All (P : Regex → Prop) (f : Frame) : Prop where
  items : ∀ item ∈ f.items, item.All P
  branches : ∀ branch ∈ f.branches, ∀ x ∈ branch, P x

theorem Item.all_iff_contents {P : Regex → Prop} (item : Item) :
    item.All P ↔ ∀ x ∈ item.contents, P x := by
  cases item with
  | single item => simp [Item.All, Item.contents]
  | plain items => rfl

theorem Item.all_repeatable {P : Regex → Prop} (hP : Hereditary P) (item : Item) :
    P item.repeatable ↔ item.All P := by
  cases item with
  | single item => rfl
  | plain items => exact hP.sequence items

namespace Frame

variable {P : Regex → Prop}

theorem all_of_empty (f : Frame) (hitems : f.items = []) (hbranches : f.branches = []) :
    f.All P := by
  constructor
  · simp [hitems]
  · simp [hbranches]

theorem forall_mem_branch (f : Frame) :
    (∀ x ∈ f.branch, P x) ↔ ∀ item ∈ f.items, item.All P := by
  simp only [branch, List.forall_mem_flatMap, List.mem_reverse, Item.all_iff_contents]

theorem all_iff (f : Frame) :
    f.All P ↔ (∀ x ∈ f.branch, P x) ∧ ∀ branch ∈ f.branches, ∀ x ∈ branch, P x := by
  rw [forall_mem_branch]
  exact ⟨fun h => ⟨h.items, h.branches⟩, fun h => ⟨h.1, h.2⟩⟩

theorem forall_mem_contents (hP : Hereditary P) (f : Frame) :
    (∀ x ∈ f.contents, P x) ↔ f.All P := by
  rw [contents, hP.unite, all_iff]
  simp only [List.mem_reverse, List.forall_mem_cons]

theorem body_iff (hP : Hereditary P) (f : Frame) : P f.body ↔ f.All P := by
  rw [body, hP.sequence, forall_mem_contents hP]

/-- A closed parenthesis has a property if all that it holds does. Of the group that it records or
asks for the property may ask more. -/
theorem all_item (hP : Hereditary P) (groups : List (Option Width)) (f : Frame)
    (hcapture : ∀ number, f.role = .capture number → P f.body → P (.capture number f.body))
    (hcondition : ∀ number yes no, f.role = .condition number → P yes → P no →
      P (.conditional number yes no))
    (h : f.All P) : (f.item groups).All P := by
  have hbody := (body_iff hP f).mpr h
  have hcontents := (forall_mem_contents hP f).mpr h
  obtain ⟨hbranch, hbranches⟩ := (all_iff f).mp h
  unfold item
  cases hrole : f.role with
  | whole => exact hcontents
  | plain => exact hcontents
  | flagged => exact (hP.group _).mpr hbody
  | capture number => exact hcapture number hrole hbody
  | atomic => exact (hP.atomic _).mpr hbody
  | ahead negated => exact (hP.ahead negated _).mpr hbody
  | behind negated => exact (hP.behind negated _ _).mpr hbody
  | condition number =>
      have hlast : P (.sequence f.branch) := (hP.sequence _).mpr hbranch
      cases hcase : f.branches with
      | nil => exact hcondition number _ _ hrole hlast hP.empty
      | cons yes rest =>
          rw [hcase] at hbranches
          have hyes : P (.sequence yes) :=
            (hP.sequence _).mpr (hbranches yes (List.mem_cons_self ..))
          exact hcondition number _ _ hrole hyes hlast

theorem all_of_item (hP : Hereditary P) (groups : List (Option Width)) (f : Frame)
    (hcondition : ∀ number yes no, ¬ P (.conditional number yes no))
    (h : (f.item groups).All P) : f.All P := by
  unfold item at h
  cases hrole : f.role with
  | whole =>
      rw [hrole] at h
      exact (forall_mem_contents hP f).mp h
  | plain =>
      rw [hrole] at h
      exact (forall_mem_contents hP f).mp h
  | flagged =>
      rw [hrole] at h
      exact (body_iff hP f).mp ((hP.group _).mp h)
  | capture number =>
      rw [hrole] at h
      exact (body_iff hP f).mp (hP.capture number _ h)
  | atomic =>
      rw [hrole] at h
      exact (body_iff hP f).mp ((hP.atomic _).mp h)
  | ahead negated =>
      rw [hrole] at h
      exact (body_iff hP f).mp ((hP.ahead negated _).mp h)
  | behind negated =>
      rw [hrole] at h
      exact (body_iff hP f).mp ((hP.behind negated _ _).mp h)
  | condition number =>
      rw [hrole] at h
      cases hbranches : f.branches with
      | nil =>
          rw [hbranches] at h
          exact absurd h (hcondition number _ _)
      | cons yes rest =>
          rw [hbranches] at h
          exact absurd h (hcondition number _ _)

end Frame

namespace Reader

def endBranch (r : Reader) : Reader :=
  { r with
    mode := .plain,
    top := { r.top with branches := r.top.branch :: r.top.branches, items := [] } }

def groupsOnClose (r : Reader) : List (Option Width) :=
  match r.top.role with
  | .capture number => r.groups.set (number - 1) (some (r.top.body.width r.groups))
  | _ => r.groups

def closeTop (r : Reader) (parent : Frame) (outer : List Frame) : Reader :=
  (({ r with top := parent, outer, groups := r.groupsOnClose } : Reader).postpone
    (r.top.fault? r.groups)).pushItem (r.top.item r.groups)

/-- What an action can make of a reader, and whether it asks for a group. -/
inductive Move (r : Reader) : Bool → Reader → Prop where
  | stay (mode : Mode) (pending : Option RegexError) : Move r false { r with mode, pending }
  | push (item : Regex) (hrefers : item.refers = false)
      (hnumbers : ∀ limit, item.numbersWithin limit) : Move r false (r.push item)
  | switch (flags : Flags) : Move r false { r with mode := .plain, top := { r.top with flags } }
  | enter (role : Role) (flags : Flags) (hrole : role.isNumberless = true) :
      Move r false (r.descend role flags)
  | capture (names : List (List Char × Nat))
      (hnames : names = r.names ∨ ∃ name, names = (name, r.groups.length + 1) :: r.names) :
      Move r false { r.enterCapture with names }
  | branch : Move r false r.endBranch
  | leave (parent : Frame) (outer : List Frame) (houter : r.outer = parent :: outer) :
      Move r false (r.closeTop parent outer)
  | repeatLast (greed : Greed) (least : Nat) (most : Option Nat) (item : Item)
      (items : List Item) (hitems : r.top.items = item :: items) :
      Move r false (r.repeatLast greed least most)
  | refer (number : Nat) (folding : Folding) : Move r true (r.push (.backref number folding))
  | condition (number tested : Nat) (htested : r.tested ≤ tested) :
      Move r true { r.enter (.condition number) with tested }

theorem groups_ne_nil_of_pushReference {r s : Reader} {number : Nat}
    (h : r.pushReference number = .ok s) : r.groups ≠ [] := by
  obtain ⟨_, hpositive, hle⟩ := pushReference_eq_ok r s number h
  exact List.ne_nil_of_length_pos (Nat.lt_of_lt_of_le hpositive hle)

/-- A condition asks for a group with a known name, or for a number that is noted. -/
theorem condition_eq_ok (r s : Reader) (text : List Char) (h : r.condition text = .ok s) :
    ∃ number tested, s = { r.enter (.condition number) with tested } ∧ r.tested ≤ tested ∧
      (r.names.lookup text = some number ∨ 0 < number ∧ number ≤ tested) := by
  have hopen : ∀ number tested,
      (if r.mayTest number then
        (.ok { r.enter (.condition number) with tested := max r.tested tested } :
          Except RegexError Reader)
      else .error .openGroup) = .ok s →
      s = { r.enter (.condition number) with tested := max r.tested tested } := by
    intro number tested hs
    by_cases hmay : r.mayTest number = true
    · simp only [hmay, if_true] at hs
      cases hs
      rfl
    · simp only [hmay, Bool.false_eq_true, if_false] at hs
      cases hs
  unfold condition at h
  by_cases hname : Text.isIdentifier text = true
  · simp only [hname, if_true] at h
    cases hlookup : r.names.lookup text with
    | none => simp [hlookup] at h
    | some number =>
        simp only [hlookup] at h
        exact ⟨number, _, hopen number 0 h, Nat.le_max_left .., Or.inl rfl⟩
  · simp only [hname, Bool.false_eq_true, if_false] at h
    cases hnumber : groupNumber? text with
    | none => simp [hnumber] at h
    | some number =>
        cases number with
        | zero => simp [hnumber] at h
        | succ number =>
            simp only [hnumber] at h
            exact ⟨number + 1, _, hopen (number + 1) (number + 1) h, Nat.le_max_left ..,
              Or.inr ⟨Nat.succ_pos number, Nat.le_max_right ..⟩⟩

theorem referNamed_eq_ok (r s : Reader) (name : List Char)
    (h : (Action.referNamed name).perform r = .ok s) :
    ∃ number, r.pushReference number = .ok s := by
  simp only [Action.perform] at h
  split at h
  · exact ⟨_, h⟩
  · cases h

theorem remark_eq_ok (r s : Reader) (escaped : Bool)
    (h : (Action.remark escaped).perform r = .ok s) :
    r.top.flags.verbose = true ∧ s = { r with mode := .lineRemark escaped } := by
  simp only [Action.perform] at h
  split at h
  · rename_i hverbose
    cases h
    exact ⟨hverbose, rfl⟩
  · cases h

theorem switch_eq_ok (r s : Reader) (added : List Char)
    (h : (Action.switch added).perform r = .ok s) :
    ∃ flags, s = { r with mode := .plain, top := { r.top with flags } } := by
  simp only [Action.perform] at h
  split at h
  · cases h
    exact ⟨_, rfl⟩
  · cases h

theorem captureNamed_eq_ok (r s : Reader) (name : List Char)
    (h : (Action.captureNamed name).perform r = .ok s) :
    r.names.lookup name = none ∧
      s = { r.enterCapture with names := (name, r.groups.length + 1) :: r.names } := by
  simp only [Action.perform] at h
  split at h
  · cases h
  · rename_i hfree
    cases h
    exact ⟨hfree, rfl⟩

theorem repeatLast_eq_ok (r s : Reader) (greed : Greed)
    (h : (Action.repeatLast greed).perform r = .ok s) :
    ∃ least most, r.mode = .greed least most ∧ s = r.repeatLast greed least most := by
  simp only [Action.perform] at h
  split at h
  · rename_i least most hmode
    cases h
    exact ⟨least, most, hmode, rfl⟩
  · cases h

theorem nextBranch_eq_ok (r s : Reader) (h : r.nextBranch = .ok s) : s = r.endBranch := by
  unfold nextBranch at h
  split at h
  · cases h
  · cases h
    rfl

theorem leave_eq_ok (r s : Reader) (h : r.leave = .ok s) :
    ∃ parent outer, r.outer = parent :: outer ∧ s = r.closeTop parent outer := by
  unfold leave at h
  cases houter : r.outer with
  | nil =>
      rw [houter] at h
      cases h
  | cons parent outer =>
      rw [houter] at h
      cases h
      exact ⟨parent, outer, rfl, rfl⟩

theorem startRepeat_eq_ok (r s : Reader) (least : Nat) (most : Option Nat)
    (h : r.startRepeat least most = .ok s) :
    r.checkRepeatable = .ok () ∧ ∃ pending, s = { r with mode := .greed least most, pending } := by
  unfold startRepeat at h
  cases hcheck : r.checkRepeatable with
  | error fault =>
      rw [hcheck] at h
      cases h
  | ok value =>
      rw [hcheck] at h
      cases h
      exact ⟨rfl, _, rfl⟩

/-- Every action makes one of a few moves. -/
theorem perform_move (a : Action) (r s : Reader) (h : a.perform r = .ok s) :
    r.Move a.refers s := by
  cases a with
  | fail fault => cases h
  | wait mode hmode =>
      cases h
      exact .stay mode r.pending
  | remark escaped =>
      rw [(remark_eq_ok r s escaped h).2]
      exact .stay (.lineRemark escaped) r.pending
  | test question =>
      cases h
      exact .push _ rfl fun _ => trivial
  | anchor a =>
      cases h
      exact .push _ rfl fun _ => trivial
  | switch added =>
      obtain ⟨flags, rfl⟩ := switch_eq_ok r s added h
      exact .switch flags
  | enter role flags hrole =>
      cases h
      exact .enter role flags hrole
  | capture =>
      cases h
      exact .capture r.names (Or.inl rfl)
  | captureNamed name =>
      rw [(captureNamed_eq_ok r s name h).2]
      exact .capture _ (Or.inr ⟨name, rfl⟩)
  | condition text =>
      obtain ⟨number, tested, rfl, htested, _⟩ := condition_eq_ok r s text h
      exact .condition number tested htested
  | refer number =>
      rw [(pushReference_eq_ok r s number h).1]
      exact .refer _ _
  | referNamed name =>
      obtain ⟨number, hnumber⟩ := referNamed_eq_ok r s name h
      rw [(pushReference_eq_ok r s number hnumber).1]
      exact .refer _ _
  | branch =>
      rw [nextBranch_eq_ok r s h]
      exact .branch
  | leave =>
      obtain ⟨parent, outer, houter, rfl⟩ := leave_eq_ok r s h
      exact .leave parent outer houter
  | startRepeat least most =>
      obtain ⟨_, pending, rfl⟩ := startRepeat_eq_ok r s least most h
      exact .stay _ pending
  | repeatLast greed =>
      obtain ⟨least, most, _, rfl⟩ := repeatLast_eq_ok r s greed h
      cases hitems : r.top.items with
      | nil =>
          unfold repeatLast
          rw [hitems]
          exact .stay .plain r.pending
      | cons item items => exact .repeatLast greed least most item items hitems

end Reader

structure Frame.NoReference (f : Frame) : Prop where
  all : f.All fun x => x.refers = false
  role : ∀ number, f.role ≠ .condition number

def Role.number? : Role → Option Nat
  | .capture number | .condition number => some number
  | _ => none

theorem Role.number?_of_isNumberless {role : Role} (h : role.isNumberless = true) :
    role.number? = none := by
  cases role <;> first | rfl | cases h

/-- Whether the groups of an open parenthesis and of what it holds are numbered within a limit. -/
structure Frame.Numbered (limit : Nat) (f : Frame) : Prop where
  all : f.All (numbersWithin limit)
  role : ∀ number, f.role.number? = some number → 0 < number ∧ number ≤ limit

theorem Frame.Numbered.mono {limit more : Nat} {f : Frame} (h : limit ≤ more)
    (hf : f.Numbered limit) : f.Numbered more := by
  refine ⟨⟨fun item hitem => ?_, fun branch hbranch x hx => ?_⟩, fun number hrole => ?_⟩
  · rw [Item.all_iff_contents]
    intro x hx
    exact numbersWithin_mono h ((Item.all_iff_contents item).mp (hf.all.items item hitem) x hx)
  · exact numbersWithin_mono h (hf.all.branches branch hbranch x hx)
  · exact ⟨(hf.role number hrole).1, Nat.le_trans (hf.role number hrole).2 h⟩

/-- A parenthesis that has just been opened holds nothing yet. -/
theorem Frame.Numbered.of_empty {limit : Nat} {f : Frame} (hitems : f.items = [])
    (hbranches : f.branches = []) (hrole : ∀ number, f.role.number? = some number →
      0 < number ∧ number ≤ limit) : f.Numbered limit :=
  ⟨Frame.all_of_empty f hitems hbranches, hrole⟩

namespace Reader

def frames (r : Reader) : List Frame := r.top :: r.outer

/-- Whether nothing that was read refers to a group. -/
def NoReference (r : Reader) : Prop := ∀ f ∈ r.frames, f.NoReference

/-- The number of groups that the whole has at least: those so far, and those that it asks for. -/
def reach (r : Reader) : Nat := max r.groups.length r.tested

/-- Whether all groups that are recorded, named or asked for are numbered within reach. -/
structure Numbered (r : Reader) : Prop where
  frames : ∀ f ∈ r.frames, f.Numbered r.reach
  names : ∀ entry ∈ r.names, 0 < entry.2 ∧ entry.2 ≤ r.reach

/-- A reference that was read stays. -/
theorem noReference_of_move {r s : Reader} {asks : Bool} (h : r.Move asks s)
    (hs : s.NoReference) : r.NoReference := by
  have hrefers := hereditary_not_refers
  have hpush : ∀ item, (r.push item).NoReference → r.NoReference := by
    intro item hs
    obtain ⟨⟨⟨htop, hbranches⟩, hrole⟩, houter⟩ := List.forall_mem_cons.mp hs
    have hitems := fun x hx => htop x (List.mem_cons_of_mem _ hx)
    exact List.forall_mem_cons.mpr ⟨⟨⟨hitems, hbranches⟩, hrole⟩, houter⟩
  cases h with
  | stay mode pending => exact hs
  | push item => exact hpush item hs
  | refer number folding => exact hpush _ hs
  | switch flags =>
      obtain ⟨⟨⟨htop, hbranches⟩, hrole⟩, houter⟩ := List.forall_mem_cons.mp hs
      exact List.forall_mem_cons.mpr ⟨⟨⟨htop, hbranches⟩, hrole⟩, houter⟩
  | enter role flags hrole => exact (List.forall_mem_cons.mp hs).2
  | capture names hnames => exact (List.forall_mem_cons.mp hs).2
  | condition number tested => exact (List.forall_mem_cons.mp hs).2
  | branch =>
      obtain ⟨⟨⟨_, hbranches⟩, hrole⟩, houter⟩ := List.forall_mem_cons.mp hs
      obtain ⟨hbranch, hbranches⟩ := List.forall_mem_cons.mp hbranches
      exact List.forall_mem_cons.mpr
        ⟨⟨(Frame.all_iff r.top).mpr ⟨hbranch, hbranches⟩, hrole⟩, houter⟩
  | leave parent outer houter =>
      obtain ⟨⟨⟨htop, hbranches⟩, hrole⟩, hothers⟩ := List.forall_mem_cons.mp hs
      obtain ⟨hitem, hitems⟩ := List.forall_mem_cons.mp htop
      have htop := Frame.all_of_item hrefers r.groups r.top (by simp [refers]) hitem
      have hcondition : ∀ number, r.top.role ≠ .condition number := by
        intro number hnumber
        unfold Frame.item at hitem
        rw [hnumber] at hitem
        cases hbranches : r.top.branches <;> simp [hbranches, Item.All, refers] at hitem
      unfold NoReference frames
      rw [houter]
      exact List.forall_mem_cons.mpr
        ⟨⟨htop, hcondition⟩, List.forall_mem_cons.mpr ⟨⟨⟨hitems, hbranches⟩, hrole⟩, hothers⟩⟩
  | repeatLast greed least most item items hitems =>
      unfold repeatLast at hs
      rw [hitems] at hs
      obtain ⟨⟨⟨htop, hbranches⟩, hrole⟩, houter⟩ := List.forall_mem_cons.mp hs
      obtain ⟨hitem, hrest⟩ := List.forall_mem_cons.mp htop
      have hitem := (Item.all_repeatable hrefers item).mp ((hrefers.repeated ..).mp hitem)
      have hall : ∀ x ∈ r.top.items, x.All fun x => x.refers = false := by
        rw [hitems]
        exact List.forall_mem_cons.mpr ⟨hitem, hrest⟩
      exact List.forall_mem_cons.mpr ⟨⟨⟨hall, hbranches⟩, hrole⟩, houter⟩

theorem length_groupsOnClose (r : Reader) : r.groupsOnClose.length = r.groups.length := by
  unfold groupsOnClose
  cases r.top.role <;> simp

/-- No group is forgotten. -/
theorem groups_of_move {r s : Reader} {asks : Bool} (h : r.Move asks s) :
    r.groups.length ≤ s.groups.length := by
  cases h with
  | capture names hnames => exact Nat.le_of_lt (by simp [enterCapture, enter, descend])
  | leave parent outer houter => exact Nat.le_of_eq (length_groupsOnClose r).symm
  | repeatLast greed least most item items hitems =>
      unfold repeatLast
      exact Nat.le_of_eq (by rw [hitems])
  | _ => exact Nat.le_refl _

/-- What an action that asks for no group keeps of the open parentheses: a property of what they
hold that every part of an expression has with the whole, and a property of their roles. -/
theorem frames_of_move {P : Regex → Prop} {Q : Role → Prop} (hP : Hereditary P) {r s : Reader}
    (h : r.Move false s) (hr : ∀ f ∈ r.frames, f.All P ∧ Q f.role)
    (hpush : ∀ x : Regex, x.refers = false → (∀ limit, x.numbersWithin limit) → P x)
    (henter : ∀ role : Role, role.isNumberless = true → Q role)
    (hcapture : r.groups.length < s.groups.length → Q (.capture (r.groups.length + 1)))
    (hcaptured : ∀ number body, Q (.capture number) → P body → P (.capture number body))
    (hconditional : ∀ number yes no, Q (.condition number) → P yes → P no →
      P (.conditional number yes no)) : ∀ f ∈ s.frames, f.All P ∧ Q f.role := by
  obtain ⟨⟨⟨htop, hbranches⟩, hrole⟩, houter⟩ := List.forall_mem_cons.mp hr
  cases h with
  | stay mode pending => exact hr
  | push item hrefers hnumbers =>
      exact List.forall_mem_cons.mpr
        ⟨⟨⟨List.forall_mem_cons.mpr ⟨hpush item hrefers hnumbers, htop⟩, hbranches⟩, hrole⟩, houter⟩
  | switch flags =>
      exact List.forall_mem_cons.mpr ⟨⟨⟨htop, hbranches⟩, hrole⟩, houter⟩
  | enter role flags hnumberless =>
      exact List.forall_mem_cons.mpr ⟨⟨Frame.all_of_empty _ rfl rfl, henter role hnumberless⟩, hr⟩
  | capture names hnames =>
      have hmore : r.groups.length < (r.groups ++ [none]).length := by simp
      exact List.forall_mem_cons.mpr ⟨⟨Frame.all_of_empty _ rfl rfl, hcapture hmore⟩, hr⟩
  | branch =>
      obtain ⟨hbranch, hbranches⟩ := (Frame.all_iff r.top).mp ⟨htop, hbranches⟩
      have hall : r.endBranch.top.All P :=
        ⟨List.forall_mem_nil _, List.forall_mem_cons.mpr ⟨hbranch, hbranches⟩⟩
      exact List.forall_mem_cons.mpr ⟨⟨hall, hrole⟩, houter⟩
  | leave parent outer hparent =>
      rw [hparent] at houter
      obtain ⟨⟨⟨hitems, hparentBranches⟩, hparentRole⟩, houter⟩ := List.forall_mem_cons.mp houter
      have hitem := Frame.all_item hP r.groups r.top
        (fun number hnumber => hcaptured number _ (hnumber ▸ hrole))
        (fun number yes no hnumber => hconditional number yes no (hnumber ▸ hrole))
        ⟨htop, hbranches⟩
      exact List.forall_mem_cons.mpr
        ⟨⟨⟨List.forall_mem_cons.mpr ⟨hitem, hitems⟩, hparentBranches⟩, hparentRole⟩, houter⟩
  | repeatLast greed least most item items hitems =>
      rw [hitems] at htop
      obtain ⟨hitem, hrest⟩ := List.forall_mem_cons.mp htop
      have hitem := (hP.repeated greed least most _).mpr ((Item.all_repeatable hP item).mpr hitem)
      unfold repeatLast
      rw [hitems]
      exact List.forall_mem_cons.mpr
        ⟨⟨⟨List.forall_mem_cons.mpr ⟨hitem, hrest⟩, hbranches⟩, hrole⟩, houter⟩

/-- An action that asks for no group leaves no reference behind. -/
theorem noReference_move {r s : Reader} (h : r.Move false s) (hr : r.NoReference) :
    s.NoReference := by
  have henter : ∀ role : Role, role.isNumberless = true → ∀ number, role ≠ .condition number := by
    rintro role hnumberless number rfl
    cases hnumberless
  have hframes := frames_of_move hereditary_not_refers h
    (fun f hf => ⟨(hr f hf).all, (hr f hf).role⟩) (fun _ hrefers _ => hrefers) henter
    (fun _ number => nofun) (fun _ _ _ hbody => hbody)
    (fun number _ _ hrole => absurd rfl (hrole number))
  exact fun f hf => ⟨(hframes f hf).1, (hframes f hf).2⟩

/-- What a move makes of parentheses that are numbered within a limit is numbered within it, if
there are no more groups than that. -/
theorem numbered_frames_of_move {r s : Reader} {limit : Nat} (h : r.Move false s)
    (hr : ∀ f ∈ r.frames, f.Numbered limit) (hgroups : s.groups.length ≤ limit) :
    ∀ f ∈ s.frames, f.Numbered limit := by
  have henter : ∀ role : Role, role.isNumberless = true →
      ∀ number, role.number? = some number → 0 < number ∧ number ≤ limit := by
    intro role hnumberless number hnumber
    cases hnumber.symm.trans (Role.number?_of_isNumberless hnumberless)
  have hcapture : r.groups.length < s.groups.length →
      ∀ number, (Role.capture (r.groups.length + 1)).number? = some number →
        0 < number ∧ number ≤ limit := by
    intro hmore number hnumber
    obtain rfl := Option.some.inj hnumber
    exact ⟨Nat.succ_pos _, Nat.le_trans hmore hgroups⟩
  have hframes := frames_of_move (hereditary_numbersWithin limit) h
    (fun f hf => ⟨(hr f hf).all, (hr f hf).role⟩) (fun _ _ hnumbers => hnumbers limit)
    henter hcapture
    (fun number _ hrole hbody => ⟨hrole number rfl, hbody⟩)
    (fun number _ _ hrole hyes hno => ⟨hrole number rfl, hyes, hno⟩)
  exact fun f hf => ⟨(hframes f hf).1, (hframes f hf).2⟩

/-- Only a condition asks for a group by its number. -/
theorem tested_move {r s : Reader} (h : r.Move false s) : s.tested = r.tested := by
  cases h with
  | repeatLast greed least most item items hitems =>
      unfold repeatLast
      rw [hitems]
  | _ => rfl

/-- A move adds at most the name of the group that it opens. -/
theorem names_move {r s : Reader} {asks : Bool} (h : r.Move asks s) :
    s.names = r.names ∨
      ∃ name, s.names = (name, s.groups.length) :: r.names ∧ 0 < s.groups.length := by
  cases h with
  | capture names hnames =>
      have hlength : (r.groups ++ [none]).length = r.groups.length + 1 := by simp
      refine hnames.imp id fun ⟨name, hname⟩ => ⟨name, hname.trans ?_, ?_⟩
      · exact congrArg (fun number => (name, number) :: r.names) hlength.symm
      · exact hlength ▸ Nat.succ_pos _
  | repeatLast greed least most item items hitems =>
      unfold repeatLast
      rw [hitems]
      exact Or.inl rfl
  | _ => exact Or.inl rfl

/-- No name is forgotten. -/
theorem names_of_move {r s : Reader} {asks : Bool} (h : r.Move asks s) (hs : s.names = []) :
    r.names = [] := by
  rcases names_move h with hsame | ⟨name, hmore, _⟩
  · exact hsame ▸ hs
  · rw [hs] at hmore
    cases hmore

/-- A condition may raise the number of groups that are asked for. -/
theorem tested_of_move {r s : Reader} {asks : Bool} (h : r.Move asks s) : r.tested ≤ s.tested := by
  cases h with
  | condition number tested htested => exact htested
  | repeatLast greed least most item items hitems =>
      refine Nat.le_of_eq ?_
      unfold repeatLast
      rw [hitems]
  | _ => exact Nat.le_refl _

theorem reach_of_move {r s : Reader} {asks : Bool} (h : r.Move asks s) : r.reach ≤ s.reach := by
  have hgroups := groups_of_move h
  have htested := tested_of_move h
  unfold reach
  omega

/-- Whatever a reader does, its groups stay numbered within reach. -/
theorem numbered_perform (a : Action) (r s : Reader) (h : a.perform r = .ok s) (hr : r.Numbered) :
    s.Numbered := by
  have hmove := perform_move a r s h
  have hreach := reach_of_move hmove
  have hframes : ∀ f ∈ r.frames, f.Numbered s.reach := fun f hf => (hr.frames f hf).mono hreach
  obtain ⟨⟨⟨htop, hbranches⟩, hrole⟩, houter⟩ := List.forall_mem_cons.mp hframes
  have hrefer : ∀ number, r.pushReference number = .ok s → ∀ f ∈ s.frames, f.Numbered s.reach := by
    intro number hpush
    obtain ⟨hs, hpositive, hle⟩ := pushReference_eq_ok r s number hpush
    have hitem : (Regex.backref number r.top.flags.folding).numbersWithin s.reach :=
      ⟨hpositive, Nat.le_trans hle (Nat.le_trans (Nat.le_max_left ..) hreach)⟩
    rw [show s.frames = _ from congrArg frames hs]
    exact List.forall_mem_cons.mpr
      ⟨⟨⟨List.forall_mem_cons.mpr ⟨hitem, htop⟩, hbranches⟩, hrole⟩, houter⟩
  refine ⟨?_, ?_⟩
  · cases a with
    | refer number => exact hrefer number h
    | referNamed name =>
        obtain ⟨number, hnumber⟩ := referNamed_eq_ok r s name h
        exact hrefer number hnumber
    | condition text =>
        obtain ⟨number, tested, rfl, _, hnumber⟩ := condition_eq_ok r s text h
        refine List.forall_mem_cons.mpr ⟨.of_empty rfl rfl fun asked hasked => ?_, hframes⟩
        obtain rfl := Option.some.inj hasked
        rcases hnumber with hlookup | ⟨hpositive, hle⟩
        · obtain ⟨before, after, hentries, _⟩ := List.lookup_eq_some_iff.mp hlookup
          have hentry : (text, number) ∈ r.names := by simp [hentries]
          exact ⟨(hr.names _ hentry).1, Nat.le_trans (hr.names _ hentry).2 hreach⟩
        · exact ⟨hpositive, Nat.le_trans hle (Nat.le_max_right ..)⟩
    | _ => exact numbered_frames_of_move hmove hframes (Nat.le_max_left ..)
  · have hnames : ∀ entry ∈ r.names, 0 < entry.2 ∧ entry.2 ≤ s.reach :=
      fun entry hentry => ⟨(hr.names entry hentry).1, Nat.le_trans (hr.names entry hentry).2 hreach⟩
    rcases names_move hmove with hsame | ⟨name, hmore, hpositive⟩
    · rwa [hsame]
    · rw [hmore]
      exact List.forall_mem_cons.mpr ⟨⟨hpositive, Nat.le_max_left ..⟩, hnames⟩

/-- An action that leaves no reference behind does not ask for a group. -/
theorem asks_of_noReference {r s : Reader} {asks : Bool} (h : r.Move asks s)
    (hs : s.NoReference) : asks = false := by
  have htop := hs _ (List.mem_cons_self ..)
  cases h with
  | refer number folding => cases htop.all.items _ (List.mem_cons_self ..)
  | condition number tested => exact absurd rfl (htop.role number)
  | _ => rfl

/-- After every action the mode of a reader fits what it has read. -/
theorem poised_perform (a : Action) (r s : Reader) (h : a.perform r = .ok s) : s.Poised := by
  have hplain : ∀ t : Reader, t.mode = .plain → t.Poised := by
    intro t ht
    unfold Poised
    rw [ht]
    trivial
  cases a with
  | fail fault => cases h
  | wait mode hmode =>
      cases h
      unfold Poised
      cases mode <;> cases hmode <;> trivial
  | remark escaped =>
      obtain ⟨hverbose, rfl⟩ := remark_eq_ok r s escaped h
      exact hverbose
  | test question =>
      cases h
      exact hplain _ rfl
  | anchor a =>
      cases h
      exact hplain _ rfl
  | switch added =>
      obtain ⟨flags, rfl⟩ := switch_eq_ok r s added h
      exact hplain _ rfl
  | enter role flags hrole =>
      cases h
      exact hplain _ rfl
  | capture =>
      cases h
      exact hplain _ rfl
  | captureNamed name =>
      rw [(captureNamed_eq_ok r s name h).2]
      exact hplain _ rfl
  | condition text =>
      obtain ⟨number, tested, rfl, _⟩ := condition_eq_ok r s text h
      exact hplain _ rfl
  | refer number =>
      rw [(pushReference_eq_ok r s number h).1]
      exact hplain _ rfl
  | referNamed name =>
      obtain ⟨number, hnumber⟩ := referNamed_eq_ok r s name h
      rw [(pushReference_eq_ok r s number hnumber).1]
      exact hplain _ rfl
  | branch =>
      rw [nextBranch_eq_ok r s h]
      exact hplain _ rfl
  | leave =>
      obtain ⟨parent, outer, houter, rfl⟩ := leave_eq_ok r s h
      exact hplain _ rfl
  | startRepeat least most =>
      obtain ⟨hcheck, pending, rfl⟩ := startRepeat_eq_ok r s least most h
      intro hitems
      change r.top.items = [] at hitems
      simp [checkRepeatable, hitems] at hcheck
  | repeatLast greed =>
      obtain ⟨least, most, _, rfl⟩ := repeatLast_eq_ok r s greed h
      refine hplain _ ?_
      unfold repeatLast
      cases r.top.items <;> rfl

end Reader

end Regex

end NamedRoutes
