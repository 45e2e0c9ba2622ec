import NamedRoutes.Proofs.Regex.Content

/-!
Reading a text inside another one. A reader that reads a text on its own and one that reads it after
an unfinished text do the same, up to the numbers of the groups: what the first one holds ends up in
the second one, behind what that had read before. This holds as long as the text opens and closes
its own parentheses, refers to no group, and brings no name that is taken and no flags for the whole
expression.
-/

namespace NamedRoutes.Regex

theorem sequence_shift (base : Nat) (items : List Regex) :
    (sequence items).shift base = sequence (items.map (Regex.shift base)) := by
  induction items with
  | nil => rfl
  | cons item rest ih => exact congrArg (Regex.seq (item.shift base)) ih

theorem choice_shift (base : Nat) (alternatives : List Regex) :
    (choice alternatives).shift base = choice (alternatives.map (Regex.shift base)) := by
  induction alternatives with
  | nil => rfl
  | cons first others ih => exact congrArg (Regex.alt (first.shift base)) ih

theorem isShareable_shift (base : Nat) (r : Regex) :
    isShareable (r.shift base) = isShareable r := by
  cases r <;> rfl

/-- Higher numbers do not make an expression equal to one that can be shared. -/
theorem shift_inj_of_shareable (base : Nat) {item : Regex} (h : isShareable item = true)
    (r : Regex) : r.shift base = item.shift base ↔ r = item := by
  constructor
  · intro heq
    cases item <;> cases r <;> simp_all [Regex.shift, isShareable]
  · rintro rfl
    rfl

theorem sharePrefix_shift (base : Nat) (first : List Regex) (others : List (List Regex)) :
    sharePrefix (first.map (Regex.shift base)) (others.map (·.map (Regex.shift base))) =
      ((sharePrefix first others).1.map (Regex.shift base),
        (sharePrefix first others).2.map (·.map (Regex.shift base))) := by
  induction first generalizing others with
  | nil => simp [sharePrefix]
  | cons item rest ih =>
      have hall : isShareable item = true →
          (others.map (·.map (Regex.shift base))).all
              (fun branch => branch.head? == some (item.shift base)) =
            others.all fun branch => branch.head? == some item := by
        intro hitem
        rw [List.all_map]
        congr 1
        funext branch
        cases branch with
        | nil => rfl
        | cons x tail =>
            have hbeq : (x.shift base == item.shift base) = (x == item) := by
              rw [Bool.eq_iff_iff, beq_iff_eq, beq_iff_eq]
              exact shift_inj_of_shareable base hitem x
            simpa using hbeq
      simp only [List.map_cons, sharePrefix, isShareable_shift]
      cases hitem : isShareable item with
      | false => simp
      | true =>
          simp only [hall hitem, Bool.true_and]
          by_cases hshared : (others.all fun branch => branch.head? == some item) = true
          · simp only [hshared, if_true]
            have htails : (others.map (·.map (Regex.shift base))).map List.tail =
                (others.map List.tail).map (·.map (Regex.shift base)) := by
              simp [List.map_tail]
            rw [htails, ih]
            rfl
          · simp only [hshared, Bool.false_eq_true, if_false]
            rfl

theorem setItems?_shift (base : Nat) (branch : List Regex) :
    setItems? (branch.map (Regex.shift base)) = setItems? branch := by
  match branch with
  | [] => rfl
  | [x] => cases x <;> rfl
  | x :: y :: rest => cases x <;> simp [Regex.shift, setItems?]

theorem unite_shift (base : Nat) (flags : Flags) (branches : List (List Regex)) :
    unite flags (branches.map (·.map (Regex.shift base))) =
      (unite flags branches).map (Regex.shift base) := by
  match branches with
  | [] => rfl
  | [branch] => rfl
  | first :: second :: others =>
      have hprefix := sharePrefix_shift base first (second :: others)
      rw [List.map_cons] at hprefix
      have hitems : setItems? ∘ (fun x => x.map (Regex.shift base)) = setItems? :=
        funext (setItems?_shift base)
      simp only [List.map_cons, unite, hprefix, List.mapM_map, hitems, List.map_append,
        List.map_nil]
      congr 2
      cases (sharePrefix first (second :: others)).2.mapM setItems? with
      | some items => rfl
      | none =>
          simp only [choice_shift, List.map_map]
          congr 2
          funext branch
          exact (sequence_shift base branch).symm

def Role.shift (base : Nat) : Role → Role
  | .capture number => .capture (number + base)
  | .condition number => .condition (number + base)
  | role => role

def Item.shift (base : Nat) : Item → Item
  | .single item => .single (item.shift base)
  | .plain items => .plain (items.map (Regex.shift base))

def Frame.shift (base : Nat) (f : Frame) : Frame where
  role := f.role.shift base
  flags := f.flags
  branches := f.branches.map (·.map (Regex.shift base))
  items := f.items.map (Item.shift base)
  lookbehind := f.lookbehind.map (· + base)

theorem Item.contents_shift (base : Nat) (item : Item) :
    (item.shift base).contents = item.contents.map (Regex.shift base) := by
  cases item <;> rfl

theorem Item.repeatable_shift (base : Nat) (item : Item) :
    (item.shift base).repeatable = item.repeatable.shift base := by
  cases item with
  | single item => rfl
  | plain items => exact (sequence_shift base items).symm

/-- The width of an expression that refers to no group does not depend on the groups before. -/
theorem width_shift (base : Nat) (groups groups' : List (Option Width)) (r : Regex)
    (h : r.refers = false) : (r.shift base).width groups' = r.width groups := by
  induction r with
  | empty => rfl
  | never => rfl
  | one test => rfl
  | anchor a => rfl
  | seq first second ihf ihs =>
      obtain ⟨hfirst, hsecond⟩ := Bool.or_eq_false_iff.mp h
      simp only [Regex.shift, width, ihf hfirst, ihs hsecond]
  | alt first second ihf ihs =>
      obtain ⟨hfirst, hsecond⟩ := Bool.or_eq_false_iff.mp h
      have ihs := ihs hsecond
      cases second <;> simp_all [Regex.shift, width]
  | group body ih => exact ih h
  | capture number body ih => exact ih h
  | atomic body ih => exact ih h
  | ahead negated body => rfl
  | behind negated width body => rfl
  | backref number folding => cases h
  | conditional number yes no => cases h
  | repeated greed least most body ih => simp only [Regex.shift, width, ih h]

namespace Frame

variable (base : Nat) (f : Frame)

theorem flatMap_contents_shift (items : List Item) :
    (items.map (Item.shift base)).reverse.flatMap Item.contents =
      (items.reverse.flatMap Item.contents).map (Regex.shift base) := by
  rw [← List.map_reverse, List.flatMap_map, List.map_flatMap]
  congr 1
  funext item
  exact item.contents_shift base

theorem branch_shift : (f.shift base).branch = f.branch.map (Regex.shift base) :=
  flatMap_contents_shift base f.items

theorem contents_shift : (f.shift base).contents = f.contents.map (Regex.shift base) := by
  have hbranches : ((f.shift base).branch :: (f.shift base).branches).reverse =
      (f.branch :: f.branches).reverse.map (·.map (Regex.shift base)) := by
    rw [branch_shift, List.map_reverse]
    rfl
  rw [contents, hbranches, contents]
  exact unite_shift base f.flags _

theorem body_shift : (f.shift base).body = f.body.shift base := by
  rw [body, contents_shift, body, sequence_shift]

variable (groups groups' : List (Option Width))

theorem fixedWidth?_shift (h : f.All fun x => x.refers = false) :
    (f.shift base).fixedWidth? groups' = f.fixedWidth? groups := by
  have hbody := (body_iff hereditary_not_refers f).mpr h
  rw [fixedWidth?, body_shift, width_shift base groups groups' f.body hbody, fixedWidth?]

theorem item_shift (h : f.NoReference) :
    (f.shift base).item groups' = (f.item groups).shift base := by
  have hrole : (f.shift base).role = f.role.shift base := rfl
  have hcontents := contents_shift base f
  have hbody := body_shift base f
  have hwidth := fixedWidth?_shift base f groups groups' h.all
  unfold item
  rw [hrole]
  cases hcase : f.role with
  | condition number => exact absurd hcase (h.role number)
  | _ => simp only [Role.shift, hcontents, hbody, hwidth, Item.shift, Regex.shift]

theorem fault?_shift (h : f.NoReference) :
    (f.shift base).fault? groups' = f.fault? groups := by
  have hrole : (f.shift base).role = f.role.shift base := rfl
  have hwidth := fixedWidth?_shift base f groups groups' h.all
  unfold fault?
  rw [hrole]
  cases f.role with
  | behind negated => simp only [Role.shift, hwidth]
  | _ => rfl

end Frame

/-- Some alternatives, the latest first, after finished ones. What had been read of the current
alternative becomes the beginning of the first one. -/
def joinBranches (before : List Regex) (done : List (List Regex)) :
    List (List Regex) → List (List Regex)
  | [] => done
  | [branch] => (before ++ branch) :: done
  | branch :: next :: rest => branch :: joinBranches before done (next :: rest)

/-- What a text holds outside its own parentheses, in the parenthesis `k` and behind what that holds
already. -/
def Frame.onto (f : Frame) (base : Nat) (k : Frame) : Frame where
  role := k.role
  flags := f.flags
  branches := joinBranches k.branch k.branches (f.shift base).branches
  items := (f.shift base).items ++ if f.branches.isEmpty then k.items else []
  lookbehind := f.lookbehind.map (· + base)

namespace Reader

/-- A parenthesis of a text, given those around it, that is read after `k`. -/
def frameInside (k : Reader) (f : Frame) : List Frame → Frame
  | [] => f.onto k.groups.length k.top
  | _ :: _ => f.shift k.groups.length

/-- The parentheses of a text that is read after `k`. -/
def outerInside (k : Reader) : List Frame → List Frame
  | [] => k.outer
  | f :: rest => k.frameInside f rest :: outerInside k rest

/-- The reader `r` of a text, when the text is read after what `k` has read. -/
def inside (k r : Reader) : Reader where
  position := k.position + r.position
  mode := r.mode
  top := k.frameInside r.top r.outer
  outer := k.outerInside r.outer
  groups := k.groups ++ r.groups
  names := r.names.map (fun (name, number) => (name, number + k.groups.length)) ++ k.names
  tested := max k.tested r.tested
  pending := k.pending.or r.pending

/-- Whether a text can be read after what a reader has read: the reader has begun, and it is in no
condition. -/
structure Open (k : Reader) : Prop where
  role : ∀ number, k.top.role ≠ .condition number
  begun : (k.outer.isEmpty && k.top.branches.isEmpty && k.top.items.isEmpty) = false

def outerFlags : Frame → List Frame → Flags
  | f, [] => f.flags
  | _, parent :: outer => outerFlags parent outer

variable (k r : Reader)

@[simp] theorem frameInside_flags (f : Frame) (outer : List Frame) :
    (k.frameInside f outer).flags = f.flags := by
  cases outer <;> rfl

@[simp] theorem frameInside_lookbehind (f : Frame) (outer : List Frame) :
    (k.frameInside f outer).lookbehind = f.lookbehind.map (· + k.groups.length) := by
  cases outer <;> rfl

/-- The items of `k` that come before those of a parenthesis of the text. -/
def itemsBefore (f : Frame) : List Frame → List Item
  | [] => if f.branches.isEmpty then k.top.items else []
  | _ :: _ => []

theorem frameInside_items (f : Frame) (outer : List Frame) (items : List Item) :
    k.frameInside { f with items } outer =
      { k.frameInside f outer with
        items := items.map (Item.shift k.groups.length) ++ k.itemsBefore f outer } := by
  cases outer with
  | nil => rfl
  | cons parent rest => simp [frameInside, Frame.shift, itemsBefore]

theorem items_frameInside (f : Frame) (outer : List Frame) :
    (k.frameInside f outer).items =
      f.items.map (Item.shift k.groups.length) ++ k.itemsBefore f outer :=
  congrArg Frame.items (k.frameInside_items f outer f.items)

theorem pushItem_inside (item : Item) :
    (k.inside r).pushItem (item.shift k.groups.length) = k.inside (r.pushItem item) := by
  have htop := k.frameInside_items r.top r.outer (item :: r.top.items)
  rw [List.map_cons, List.cons_append, ← items_frameInside] at htop
  unfold pushItem inside
  rw [htop]

theorem branch_onto (base : Nat) (k f : Frame) (h : f.branches = []) :
    (f.onto base k).branch = k.branch ++ (f.shift base).branch := by
  simp [Frame.branch, Frame.onto, h]

theorem endBranch_inside : (k.inside r).endBranch = k.inside r.endBranch := by
  have htop : k.frameInside
      { r.top with branches := r.top.branch :: r.top.branches, items := [] } r.outer =
      { k.frameInside r.top r.outer with
        branches := (k.frameInside r.top r.outer).branch :: (k.frameInside r.top r.outer).branches,
        items := [] } := by
    cases r.outer with
    | cons parent rest =>
        simp only [frameInside, Frame.branch_shift]
        rfl
    | nil =>
        cases hbranches : r.top.branches with
        | nil =>
            simp only [frameInside, branch_onto _ _ _ hbranches, Frame.branch_shift]
            simp [Frame.onto, Frame.shift, hbranches, joinBranches]
        | cons branch rest =>
            have hbranch : (r.top.onto k.groups.length k.top).branch =
                (r.top.shift k.groups.length).branch := by
              simp [Frame.branch, Frame.onto, hbranches]
            simp only [frameInside, hbranch, Frame.branch_shift]
            simp [Frame.onto, Frame.shift, hbranches, joinBranches]
  unfold endBranch inside
  rw [htop]

theorem groupsOnClose_inside (parent : Frame) (outer : List Frame)
    (houter : r.outer = parent :: outer) (hreference : r.top.NoReference)
    (hrole : ∀ number, r.top.role = .capture number → 0 < number) :
    (k.inside r).groupsOnClose = k.groups ++ r.groupsOnClose := by
  have htop : (k.inside r).top = r.top.shift k.groups.length := by
    unfold inside
    rw [houter]
    rfl
  have hbody := (Frame.body_iff hereditary_not_refers r.top).mpr hreference.all
  have hshift : (r.top.shift k.groups.length).role = r.top.role.shift k.groups.length := rfl
  unfold groupsOnClose
  rw [htop, hshift]
  cases hcase : r.top.role with
  | capture number =>
      have hpositive := hrole number hcase
      have hindex : number + k.groups.length - 1 - k.groups.length = number - 1 := by omega
      simp only [Role.shift, Frame.body_shift, inside,
        width_shift k.groups.length r.groups _ _ hbody]
      rw [List.set_append_right _ _ (by omega), hindex]
  | _ => rfl

theorem closeTop_inside (parent : Frame) (outer : List Frame)
    (houter : r.outer = parent :: outer) (hreference : r.top.NoReference)
    (hrole : ∀ number, r.top.role = .capture number → 0 < number) :
    (k.inside r).closeTop (k.frameInside parent outer) (k.outerInside outer) =
      k.inside (r.closeTop parent outer) := by
  have htop : (k.inside r).top = r.top.shift k.groups.length := by
    unfold inside
    rw [houter]
    rfl
  have hgroups := groupsOnClose_inside k r parent outer houter hreference hrole
  unfold closeTop
  rw [htop, hgroups, Frame.item_shift _ _ r.groups _ hreference,
    Frame.fault?_shift _ _ r.groups _ hreference]
  have hclosed : ∀ fault : Option RegexError,
      ({ k.inside r with
        top := k.frameInside parent outer, outer := k.outerInside outer,
        groups := k.groups ++ r.groupsOnClose } : Reader).postpone fault =
      k.inside (({ r with top := parent, outer, groups := r.groupsOnClose } : Reader).postpone
        fault) := by
    intro fault
    simp [postpone, inside, Option.or_assoc]
  rw [hclosed, pushItem_inside]

theorem checkRepeatable_inside (h : r.checkRepeatable = .ok ()) :
    (k.inside r).checkRepeatable = .ok () := by
  have hitems : (k.inside r).top.items = _ := k.items_frameInside r.top r.outer
  unfold checkRepeatable at h ⊢
  rw [hitems]
  cases hcase : r.top.items with
  | nil =>
      rw [hcase] at h
      cases h
  | cons item rest =>
      rw [hcase] at h
      cases item with
      | plain items => rfl
      | single item => cases item <;> first | rfl | cases h

theorem repeatLast_inside (greed : Greed) (least : Nat) (most : Option Nat)
    (h : r.top.items ≠ []) :
    (k.inside r).repeatLast greed least most = k.inside (r.repeatLast greed least most) := by
  cases hcase : r.top.items with
  | nil => exact absurd hcase h
  | cons item rest =>
      have hitems : (k.inside r).top.items = _ := k.items_frameInside r.top r.outer
      rw [hcase, List.map_cons, List.cons_append] at hitems
      have htop := k.frameInside_items r.top r.outer
        (.single (.repeated greed least most item.repeatable) :: rest)
      have hleft : (k.inside r).repeatLast greed least most =
          { k.inside r with
            mode := .plain,
            top := { k.frameInside r.top r.outer with
              items := .single (.repeated greed least most (item.shift k.groups.length).repeatable)
                :: (rest.map (Item.shift k.groups.length) ++ k.itemsBefore r.top r.outer) } } := by
        unfold repeatLast
        rw [hitems]
        rfl
      rw [hleft, Item.repeatable_shift]
      unfold repeatLast
      rw [hcase]
      unfold inside
      simp only [htop, List.map_cons, Item.shift, Regex.shift, List.cons_append]

theorem flags_inside : (k.inside r).top.flags = r.top.flags := k.frameInside_flags r.top r.outer

theorem lookbehind_inside :
    (k.inside r).top.lookbehind = r.top.lookbehind.map (· + k.groups.length) :=
  k.frameInside_lookbehind r.top r.outer

theorem length_groups_inside : (k.inside r).groups.length = r.groups.length + k.groups.length := by
  simp [inside, Nat.add_comm]

theorem descend_inside (role : Role) (flags : Flags) (hrole : role.isNumberless = true) :
    (k.inside r).descend role flags = k.inside (r.descend role flags) := by
  have hshift : role.shift k.groups.length = role := by cases role <;> first | rfl | cases hrole
  simp only [descend, lookbehind_inside, length_groups_inside]
  simp only [inside, frameInside, outerInside, Frame.shift, hshift, List.map_nil]
  congr 2
  cases role <;> cases r.top.lookbehind <;> rfl

theorem enterCapture_inside : (k.inside r).enterCapture = k.inside r.enterCapture := by
  have hnumber : (k.inside r).groups.length + 1 = r.groups.length + 1 + k.groups.length := by
    rw [length_groups_inside]
    omega
  simp only [enterCapture, enter, descend, lookbehind_inside, flags_inside, hnumber]
  simp only [inside, frameInside, outerInside, Frame.shift, Role.shift, List.map_nil,
    List.append_assoc]

theorem lookup_names (name : List Char) :
    (k.inside r).names.lookup name =
      ((r.names.lookup name).map (· + k.groups.length)).or (k.names.lookup name) := by
  unfold inside
  rw [List.lookup_append]
  congr 1
  induction r.names with
  | nil => rfl
  | cons entry rest ih =>
      obtain ⟨other, number⟩ := entry
      simp only [List.map_cons, List.lookup_cons]
      cases name == other with
      | true => rfl
      | false => exact ih

theorem outerFlags_congr {f g : Frame} (h : f.flags = g.flags) (outer : List Frame) :
    outerFlags f outer = outerFlags g outer := by
  cases outer with
  | nil => exact h
  | cons parent rest => rfl

theorem role_inside (hk : k.Open) (h : ∀ number, r.top.role ≠ .condition number) (number : Nat) :
    (k.inside r).top.role ≠ .condition number := by
  cases houter : r.outer with
  | nil =>
      simp only [inside, houter]
      exact hk.role number
  | cons parent outer =>
      simp only [inside, houter, frameInside, Frame.shift]
      cases hrole : r.top.role <;> simp_all [Role.shift]

theorem nextBranch_of_role (h : ∀ number, r.top.role ≠ .condition number) :
    r.nextBranch = .ok r.endBranch := by
  unfold nextBranch
  split
  · rename_i number _ _ hrole _
    exact absurd hrole (h number)
  · rfl

/-- Whether a reader is what a reader that reads from the start of a text can be. -/
structure Sound (r : Reader) : Prop where
  poised : r.Poised
  numbered : r.Numbered

/-- Only a switch changes the flags outside all parentheses. -/
theorem outerFlags_perform (a : Action) (ha : ∀ added, a ≠ .switch added) (s : Reader)
    (h : a.perform r = .ok s) : outerFlags s.top s.outer = outerFlags r.top r.outer := by
  cases a with
  | fail fault => cases h
  | wait mode hmode =>
      cases h
      rfl
  | remark escaped =>
      rw [(remark_eq_ok r s escaped h).2]
  | test question =>
      cases h
      apply outerFlags_congr
      rfl
  | anchor a =>
      cases h
      apply outerFlags_congr
      rfl
  | switch added => exact absurd rfl (ha added)
  | enter role flags hrole =>
      cases h
      rfl
  | capture =>
      cases h
      rfl
  | captureNamed name =>
      rw [(captureNamed_eq_ok r s name h).2]
      rfl
  | condition text =>
      obtain ⟨number, tested, rfl, _⟩ := condition_eq_ok r s text h
      rfl
  | refer number =>
      rw [(pushReference_eq_ok r s number h).1]
      apply outerFlags_congr
      rfl
  | referNamed name =>
      obtain ⟨number, hnumber⟩ := referNamed_eq_ok r s name h
      rw [(pushReference_eq_ok r s number hnumber).1]
      apply outerFlags_congr
      rfl
  | branch =>
      rw [nextBranch_eq_ok r s h]
      apply outerFlags_congr
      rfl
  | leave =>
      obtain ⟨parent, outer, houter, rfl⟩ := leave_eq_ok r s h
      rw [houter]
      apply outerFlags_congr
      rfl
  | startRepeat least most =>
      obtain ⟨_, pending, rfl⟩ := startRepeat_eq_ok r s least most h
      rfl
  | repeatLast greed =>
      obtain ⟨least, most, _, rfl⟩ := repeatLast_eq_ok r s greed h
      unfold repeatLast
      cases r.top.items with
      | nil => rfl
      | cons item rest =>
          apply outerFlags_congr
          rfl

/-- No flags are switched for the whole expression inside another text. -/
theorem switch_inside (hk : k.Open) (added : List Char) :
    ∃ fault, (Action.switch added).perform (k.inside r) = .error fault := by
  have hbegun : ((k.inside r).outer.isEmpty && (k.inside r).top.branches.isEmpty &&
      (k.inside r).top.items.isEmpty) = false := by
    have hkept := hk.begun
    cases houter : r.outer with
    | cons parent outer => simp [inside, houter, outerInside]
    | nil =>
        cases hbranches : r.top.branches with
        | nil =>
            cases hitems : r.top.items with
            | nil =>
                simpa [inside, houter, outerInside, frameInside, Frame.onto, Frame.shift, hbranches,
                  hitems, joinBranches] using hkept
            | cons item items => simp [inside, houter, frameInside, Frame.onto, Frame.shift, hitems]
        | cons branch rest =>
            cases rest <;>
              simp [inside, houter, frameInside, Frame.onto, Frame.shift, hbranches, joinBranches]
  simp only [Action.perform, hbegun, Bool.false_eq_true, if_false]
  exact ⟨_, rfl⟩

/-- An action on a text does the same to the text inside another one, unless it asks for a group,
switches flags of the whole expression on or takes a name that is not free. -/
theorem perform_inside (hk : k.Open) (hr : r.Sound) (hreference : r.NoReference) (a : Action)
    (ha : ∀ added, a ≠ .switch added) (hrefers : a.refers = false) (s : Reader)
    (h : a.perform r = .ok s) :
    a.perform (k.inside r) = .ok (k.inside s) ∨
      (s.names ≠ [] ∧ ∃ fault, a.perform (k.inside r) = .error fault) := by
  have hflags := k.flags_inside r
  have htop := hreference _ (List.mem_cons_self ..)
  cases a with
  | fail fault => cases h
  | wait mode hmode =>
      cases h
      exact Or.inl rfl
  | remark escaped =>
      obtain ⟨hverbose, rfl⟩ := remark_eq_ok r s escaped h
      simp only [Action.perform, hflags, hverbose, if_true]
      exact Or.inl rfl
  | test question =>
      cases h
      exact Or.inl (congrArg Except.ok (k.pushItem_inside r (.single (.one question))))
  | anchor a =>
      cases h
      exact Or.inl (congrArg Except.ok (k.pushItem_inside r (.single (.anchor a))))
  | switch added => exact absurd rfl (ha added)
  | enter role flags hrole =>
      cases h
      exact Or.inl (congrArg Except.ok (k.descend_inside r role flags hrole))
  | capture =>
      cases h
      exact Or.inl (congrArg Except.ok (k.enterCapture_inside r))
  | captureNamed name =>
      obtain ⟨hown, rfl⟩ := captureNamed_eq_ok r s name h
      simp only [Action.perform, k.lookup_names r name, hown]
      cases hother : k.names.lookup name with
      | some holder => exact Or.inr ⟨by simp, _, rfl⟩
      | none =>
          left
          have hnumber : (k.inside r).groups.length + 1 =
              r.groups.length + 1 + k.groups.length := by
            rw [length_groups_inside]
            omega
          simp only [Option.map_none, Option.none_or]
          rw [enterCapture_inside, hnumber]
          rfl
  | condition text => cases hrefers
  | refer number => cases hrefers
  | referNamed name => cases hrefers
  | branch =>
      have hnext : (k.inside r).nextBranch = .ok (k.inside r).endBranch :=
        nextBranch_of_role _ (role_inside k r hk htop.role)
      rw [nextBranch_eq_ok r s h]
      left
      simp only [Action.perform, hnext, endBranch_inside]
  | leave =>
      obtain ⟨parent, outer, houter, rfl⟩ := leave_eq_ok r s h
      left
      have hpositive : ∀ number, r.top.role = .capture number → 0 < number :=
        fun number hnumber => ((hr.numbered.frames _ (List.mem_cons_self ..)).role number (by
          rw [hnumber]
          rfl)).1
      rw [← closeTop_inside k r parent outer houter htop hpositive]
      have houterInside : (k.inside r).outer =
          k.frameInside parent outer :: k.outerInside outer := by
        simp only [inside, houter, outerInside]
      simp only [Action.perform, Reader.leave, houterInside]
      rfl
  | startRepeat least most =>
      obtain ⟨hcheck, _, _⟩ := startRepeat_eq_ok r s least most h
      have hinside := k.checkRepeatable_inside r hcheck
      left
      simp only [Action.perform, startRepeat, hcheck, hinside, hflags] at h ⊢
      cases h
      simp [bind, Except.bind, pure, Except.pure, postpone, inside, Option.or_assoc]
  | repeatLast greed =>
      obtain ⟨least, most, hmode, rfl⟩ := repeatLast_eq_ok r s greed h
      have hitems : r.top.items ≠ [] := by simpa [Poised, hmode] using hr.poised
      have hinside : (k.inside r).mode = .greed least most := hmode
      left
      simp only [Action.perform, hinside]
      rw [← k.repeatLast_inside r greed least most hitems]

end Reader

end NamedRoutes.Regex
