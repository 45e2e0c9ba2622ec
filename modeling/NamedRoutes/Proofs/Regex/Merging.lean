import NamedRoutes.Proofs.Regex.Anchored

/-!
Texts as the alternatives of one expression, each with a marker behind it. What the whole amounts to
is what the texts amount to by themselves, one after another, with the markers at their ends and the
groups of each numbered after those before.
-/

namespace NamedRoutes.Regex

open Reader

/-- A text that can be read by itself. -/
structure Part where
  text : List Char
  count : Nat
  reader : Reader
  own : OwnReading text count reader

namespace Part

/-- The alternatives of a text with a marker behind the last one. -/
def branches (p : Part) : List (List Regex) :=
  p.reader.settled.top.branches.reverse ++ [p.reader.settled.top.branch ++ [marker (p.count + 1)]]

def mergedText : List Part → List Char
  | [] => []
  | [p] => p.text ++ ['(', ')']
  | p :: rest => p.text ++ ['(', ')'] ++ '|' :: mergedText rest

def total : List Part → Nat
  | [] => 0
  | p :: rest => p.count + 1 + total rest

def mergedBranches : Nat → List Part → List (List Regex)
  | _, [] => []
  | base, p :: rest =>
      p.branches.map (·.map (Regex.shift base)) ++ mergedBranches (base + (p.count + 1)) rest

end Part

namespace Reader

/-- Whether a reader is at the start of an alternative. -/
structure Between (k : Reader) : Prop where
  isOpen : k.Open
  mode : k.mode = .plain
  flags : k.top.flags = {}
  lookbehind : k.top.lookbehind = none
  items : k.top.items = []

variable {k m : Reader}

theorem Between.ready (hk : k.Between) : k.Ready := .of_plain hk.mode hk.flags

theorem Between.inside_start (hk : k.Between) : k.inside {} = k :=
  Reader.inside_start k hk.mode hk.flags hk.lookbehind

/-- Where a text with its marker has been read after `k`. -/
structure Marked (k : Reader) (p : Part) (m : Reader) : Prop where
  mode : m.mode = .plain
  top : m.top =
    (p.reader.settled.push (marker (p.count + 1))).top.onto k.groups.length k.top
  outer : m.outer = k.outer
  groups : m.groups.length = k.groups.length + (p.count + 1)
  tested : m.tested = k.tested
  pending : m.pending = k.pending

/-- The empty group that is the marker. -/
theorem Ready.readAll_marker {u : Reader} (hu : u.Ready) :
    ∃ v, u.readAll ['(', ')'] = .ok v ∧ v.mode = .plain ∧
      v.top = (u.settled.push (marker (u.settled.groups.length + 1))).top ∧
      v.outer = u.settled.outer ∧ v.groups.length = u.settled.groups.length + 1 ∧
      v.tested = u.settled.tested ∧ v.pending = u.settled.pending := by
  have hleave : u.opened.enterCapture.step ')' =
      .ok (u.opened.enterCapture.counting.closeTop u.opened.top u.opened.outer) := by
    change u.opened.enterCapture.counting.plain ')' = _
    rw [plain_parenthesis]
    rfl
  have hread : u.readAll ['(', ')'] =
      .ok (u.opened.enterCapture.counting.closeTop u.opened.top u.opened.outer) := by
    change u.readAll ('(' :: ([] ++ [')'])) = _
    rw [hu.readAll_capture (by simp), List.nil_append, readAll_cons_of_ok hleave]
    rfl
  refine ⟨_, hread, rfl, rfl, rfl, ?_, rfl, ?_⟩
  · change u.opened.enterCapture.counting.groupsOnClose.length = _
    rw [length_groupsOnClose]
    change (u.settled.groups ++ [none]).length = _
    simp
  · exact Option.or_none

theorem ready_inside (k : Reader) {r : Reader} (hr : r.Ready) : (k.inside r).Ready :=
  ⟨poised_inside k hr.poised, hr.mode, (k.flags_inside r).trans hr.flags⟩

/-- A text is read after `k` as by itself, if it can be read there at all. -/
theorem Between.inside (hk : k.Between) (p : Part) {u : Reader} (h : k.readAll p.text = .ok u) :
    u = k.inside p.reader := by
  have hfollows := readAll_inside hk.isOpen hk.isOpen p.text {} p.reader u sound_start p.own.read
    p.own.reference (hk.inside_start.symm ▸ h)
  exact hfollows.same

theorem Between.marked (hk : k.Between) (p : Part)
    (h : k.readAll (p.text ++ ['(', ')']) = .ok m) : Marked k p m := by
  obtain ⟨u, hread, hmarker⟩ := readAll_append_eq_ok p.text ['(', ')'] k m h
  obtain rfl := hk.inside p hread
  have hready := ready_inside k p.own.ready
  have hsettled := settled_inside k p.own.ready
  obtain ⟨items, hkept, _⟩ := p.own.ready.settled_eq
  obtain ⟨v, hv, hmode, htop, houter, hgroups, htested, hpending⟩ := hready.readAll_marker
  rw [hmarker] at hv
  cases hv
  have hcount : (k.inside p.reader).settled.groups.length = p.count + k.groups.length := by
    rw [hsettled, hkept]
    change (k.groups ++ p.reader.groups).length = _
    rw [List.length_append, p.own.groups, Nat.add_comm]
  have houterSettled : p.reader.settled.outer = [] := by
    rw [hkept]
    exact p.own.outer
  refine ⟨hmode, ?_, ?_, ?_, ?_, ?_⟩
  · rw [htop, hcount, hsettled]
    have hnumber : p.count + k.groups.length + 1 = p.count + 1 + k.groups.length := by omega
    have hpush := k.pushItem_inside p.reader.settled (.single (marker (p.count + 1)))
    rw [hnumber]
    refine (congrArg Reader.top hpush).trans ?_
    change k.frameInside _ p.reader.settled.outer = _
    rw [houterSettled]
    rfl
  · rw [houter, hsettled]
    change k.outerInside p.reader.settled.outer = _
    rw [houterSettled]
    rfl
  · rw [hgroups, hcount]
    omega
  · rw [htested, hsettled, hkept]
    change max k.tested p.reader.tested = _
    rw [p.own.tested, Nat.max_zero]
  · rw [hpending, hsettled, hkept]
    change k.pending.or p.reader.pending = _
    rw [p.own.pending, Option.or_none]

/-- What `k` holds once some texts with their markers have been read after it. -/
structure Merged (k : Reader) (parts : List Part) (m : Reader) : Prop where
  mode : m.mode = .plain
  flags : m.top.flags = {}
  role : m.top.role = k.top.role
  alternatives : m.top.alternatives =
    k.top.branches.reverse ++ Part.mergedBranches k.groups.length parts
  outer : m.outer = k.outer
  groups : m.groups.length = k.groups.length + Part.total parts
  tested : m.tested = k.tested
  pending : m.pending = k.pending

theorem Marked.alternatives (hk : k.Between) {p : Part} (h : Marked k p m) :
    m.top.alternatives =
      k.top.branches.reverse ++ p.branches.map (·.map (Regex.shift k.groups.length)) := by
  have hbranch : k.top.branch = [] := by
    unfold Frame.branch
    rw [hk.items]
    rfl
  have hnone : ∀ branches, prependFirst [] branches = branches := by
    intro branches
    cases branches <;> rfl
  rw [h.top, Frame.alternatives_onto, hbranch, hnone, Frame.alternatives_shift]
  exact congrArg (k.top.branches.reverse ++ ·.map (·.map (Regex.shift k.groups.length)))
    (Frame.alternatives_push p.reader.settled.top (marker (p.count + 1)))

theorem Marked.flags {p : Part} (h : Marked k p m) : m.top.flags = {} := by
  rw [h.top]
  exact p.own.ready.flags_settled

theorem Marked.role {p : Part} (h : Marked k p m) : m.top.role = k.top.role := by
  rw [h.top]
  rfl

/-- The bar after a marker leads to the start of the next alternative. -/
theorem Marked.step_bar (hk : k.Between) {p : Part} (h : Marked k p m) :
    m.step '|' = .ok m.counting.endBranch ∧ m.counting.endBranch.Between := by
  have hrole : ∀ number, m.top.role ≠ .condition number := by
    rw [h.role]
    exact hk.isOpen.role
  constructor
  · have htake : m.step '|' = m.counting.plain '|' := by
      unfold Reader.step take
      rw [show ({ m with position := m.position + 1 } : Reader).mode = .plain from h.mode]
      rfl
    rw [htake]
    unfold plain
    rw [show m.counting.top.flags = {} from h.flags]
    exact nextBranch_of_role m.counting hrole
  · refine ⟨⟨hrole, ?_⟩, rfl, h.flags, ?_, rfl⟩
    · simp [endBranch]
    · change m.top.lookbehind = none
      rw [h.top]
      obtain ⟨items, hsettled, _⟩ := p.own.ready.settled_eq
      rw [hsettled]
      change p.reader.top.lookbehind.map _ = none
      rw [p.own.lookbehind]
      rfl

/-- The alternatives of a merged expression are those of its texts. -/
theorem Between.merged (hk : k.Between) (parts : List Part) (hparts : parts ≠ [])
    (h : k.readAll (Part.mergedText parts) = .ok m) : Merged k parts m := by
  induction parts generalizing k with
  | nil => exact absurd rfl hparts
  | cons p rest ih =>
      cases rest with
      | nil =>
          have hm := hk.marked p h
          refine ⟨hm.mode, hm.flags, hm.role, ?_, hm.outer, ?_, hm.tested, hm.pending⟩
          · rw [hm.alternatives hk]
            simp [Part.mergedBranches]
          · rw [hm.groups]
            simp [Part.total]
      | cons next rest =>
          change k.readAll (p.text ++ ['(', ')'] ++ '|' :: Part.mergedText (next :: rest)) =
            .ok m at h
          obtain ⟨u, hmarker, hmore⟩ := readAll_append_eq_ok (p.text ++ ['(', ')']) _ k m h
          have hu := hk.marked p hmarker
          obtain ⟨hbar, hnext⟩ := hu.step_bar hk
          rw [readAll_cons_of_ok hbar] at hmore
          have hm := ih hnext (by simp) hmore
          have hgroups : u.counting.endBranch.groups.length =
              k.groups.length + (p.count + 1) := hu.groups
          refine ⟨hm.mode, hm.flags, hm.role.trans hu.role, ?_, hm.outer.trans hu.outer, ?_,
            hm.tested.trans hu.tested, hm.pending.trans hu.pending⟩
          · have hdone : u.counting.endBranch.top.branches.reverse = u.top.alternatives := rfl
            rw [hm.alternatives, hgroups, hdone, hu.alternatives hk, List.append_assoc]
            rfl
          · rw [hm.groups, hgroups, Nat.add_assoc]
            rfl

/-- Texts that can be read anywhere can be read as alternatives. -/
theorem Between.reads (hk : k.Between) (parts : List Part) (hparts : parts ≠ [])
    (h : ∀ p ∈ parts, Reads p.text p.count) : ∃ m, k.readAll (Part.mergedText parts) = .ok m := by
  induction parts generalizing k with
  | nil => exact absurd rfl hparts
  | cons p rest ih =>
      obtain ⟨hp, hrest⟩ := List.forall_mem_cons.mp h
      obtain ⟨u, hread, hu⟩ := hp k hk.ready hk.lookbehind
      obtain ⟨v, hmarker, _⟩ := hu.ready.readAll_marker
      have hfirst : k.readAll (p.text ++ ['(', ')']) = .ok v :=
        (readAll_append_of_ok hread).trans hmarker
      cases rest with
      | nil => exact ⟨v, hfirst⟩
      | cons next rest =>
          obtain ⟨hbar, hnext⟩ := (hk.marked p hfirst).step_bar hk
          obtain ⟨m, hm⟩ := ih hnext (by simp) hrest
          refine ⟨m, ?_⟩
          change k.readAll (p.text ++ ['(', ')'] ++ '|' :: Part.mergedText (next :: rest)) = .ok m
          rw [readAll_append_of_ok hfirst, readAll_cons_of_ok hbar, hm]

theorem started_between : started.wrapped.Between := by
  refine ⟨⟨?_, rfl⟩, rfl, rfl, rfl, rfl⟩
  intro number hnumber
  cases hnumber

end Reader

namespace Part

def source (parts : List Part) : List Char :=
  '^' :: ("(?:".toList ++ (mergedText parts ++ [')', '$']))

def regex (parts : List Part) : Regex :=
  .sequence (.anchor (startAnchor {}) ::
    (unite {} (mergedBranches 0 parts) ++ [.anchor (endAnchor {})]))

def finished (m : Reader) : Reader :=
  (m.counting.closeTop started.settled.top []).settled.counting.push (.anchor (endAnchor {}))

theorem readAll_source {parts : List Part} {m : Reader} (hm : Merged started.wrapped parts m)
    (h : started.wrapped.readAll (mergedText parts) = .ok m) :
    ({} : Reader).readAll (source parts) = .ok (finished m) := by
  have hstart : ({} : Reader).step '^' = .ok started := rfl
  have hready : started.Ready := .of_plain rfl rfl
  have hleave : m.step ')' = .ok (m.counting.closeTop started.settled.top []) := by
    have htake : m.step ')' = m.counting.plain ')' := by
      unfold Reader.step take
      rw [show ({ m with position := m.position + 1 } : Reader).mode = .plain from hm.mode]
      rfl
    rw [htake, plain_parenthesis]
    unfold Reader.leave
    rw [show m.counting.outer = [started.settled.top] from hm.outer]
    rfl
  have hclosed : (m.counting.closeTop started.settled.top []).Ready := .of_plain rfl rfl
  unfold source
  rw [readAll_cons_of_ok hstart, hready.readAll_wrapped, readAll_append_of_ok h,
    readAll_cons_of_ok hleave, readAll_cons_of_ok hclosed.step_end]
  rfl

theorem body_finished {parts : List Part} {m : Reader} (hm : Merged started.wrapped parts m) :
    (finished m).top.body = regex parts := by
  have hcontents : m.top.contents = unite {} (mergedBranches 0 parts) := by
    change unite m.top.flags m.top.alternatives = _
    rw [hm.flags, hm.alternatives]
    rfl
  have hitem : m.top.item m.groups = .plain (unite {} (mergedBranches 0 parts)) := by
    unfold Frame.item
    rw [hm.role, ← hcontents]
    rfl
  change Regex.sequence (([.single (.anchor (endAnchor {})), m.top.item m.groups,
    .single (.anchor (startAnchor {}))] : List Item).reverse.flatMap Item.contents) = _
  rw [hitem]
  rfl

theorem groups_finished {parts : List Part} {m : Reader} (hm : Merged started.wrapped parts m) :
    (finished m).groups.length = total parts := by
  change m.counting.groupsOnClose.length = _
  rw [length_groupsOnClose]
  exact hm.groups.trans (Nat.zero_add _)

theorem regex_of_parse {parts : List Part} (hparts : parts ≠ []) {r : Regex} {count : Nat}
    (h : parse (source parts) = .ok (r, count)) : r = regex parts ∧ count = total parts := by
  obtain ⟨w, hread, hfinish⟩ := parse_eq_ok h
  have hstart : ({} : Reader).step '^' = .ok started := rfl
  have hready : started.Ready := .of_plain rfl rfl
  have hwhole := hread
  unfold source at hread
  rw [readAll_cons_of_ok hstart, hready.readAll_wrapped] at hread
  obtain ⟨m, hm, _⟩ := readAll_append_eq_ok _ [')', '$'] _ w hread
  have hmerged := started_between.merged parts hparts hm
  rw [readAll_source hmerged hm] at hwhole
  cases hwhole
  obtain ⟨_, _, hregex, hcount⟩ := finish_of_plain rfl hfinish
  exact ⟨hregex.trans (body_finished hmerged), hcount.trans (groups_finished hmerged)⟩

/-- Texts that can be read anywhere can be merged. -/
theorem parse_source {parts : List Part} (hparts : parts ≠ [])
    (h : ∀ p ∈ parts, Reads p.text p.count) :
    parse (source parts) = .ok (regex parts, total parts) := by
  obtain ⟨m, hm⟩ := started_between.reads parts hparts h
  have hmerged := started_between.merged parts hparts hm
  have hfinish := finish_of_settled (w := finished m) rfl rfl rfl hmerged.tested ?_
  · unfold parse
    rw [readAll_source hmerged hm, ← body_finished hmerged, ← groups_finished hmerged]
    exact hfinish
  · change (m.pending.or (m.top.fault? m.groups)) = none
    rw [show m.pending = none from hmerged.pending]
    unfold Frame.fault?
    rw [hmerged.role]
    rfl

/-- The record with which a text with its marker matches a whole text. -/
def marked? (p : Part) (path : List Char) : Option Marks :=
  p.branches.findSome? fun branch => (sequence branch).ending? (.start path)

/-- The record of the first of some texts that matches, its groups numbered after those before. -/
def merged? (path : List Char) : Nat → List Part → Option Marks
  | _, [] => none
  | base, p :: rest =>
      ((p.marked? path).map (Marks.shift base)).or (merged? path (base + (p.count + 1)) rest)

theorem marker_within (limit : Nat) : (marker (limit + 1)).numbersWithin (limit + 1) :=
  ⟨⟨Nat.succ_pos limit, Nat.le_refl _⟩, trivial⟩

theorem within_branches (p : Part) :
    ∀ branch ∈ p.branches, ∀ x ∈ branch, x.numbersWithin (p.count + 1) := by
  have hwithin := p.own.within
  rw [Frame.alternatives_eq] at hwithin
  have hown : ∀ branch ∈ p.reader.settled.top.branches.reverse ++ [p.reader.settled.top.branch],
      ∀ x ∈ branch, x.numbersWithin (p.count + 1) :=
    fun branch hbranch x hx => numbersWithin_mono (Nat.le_succ _) (hwithin branch hbranch x hx)
  intro branch hbranch x hx
  rcases List.mem_append.mp hbranch with hbranch | hbranch
  · exact hown branch (List.mem_append_left _ hbranch) x hx
  · obtain rfl := List.mem_singleton.mp hbranch
    rcases List.mem_append.mp hx with hx | hx
    · exact hown _ (List.mem_append_right _ (List.mem_singleton_self _)) x hx
    · obtain rfl := List.mem_singleton.mp hx
      exact marker_within p.count

theorem shift_within (base limit : Nat) (r : Regex) (h : r.numbersWithin limit) :
    (r.shift base).numbersWithin (base + limit) := by
  induction r with
  | empty => trivial
  | never => trivial
  | one test => trivial
  | anchor a => trivial
  | seq first second ihf ihs => exact ⟨ihf h.1, ihs h.2⟩
  | alt first second ihf ihs => exact ⟨ihf h.1, ihs h.2⟩
  | group body ih => exact ih h
  | capture number body ih =>
      obtain ⟨⟨hpositive, hle⟩, hbody⟩ := h
      exact ⟨⟨by omega, by omega⟩, ih hbody⟩
  | atomic body ih => exact ih h
  | ahead negated body ih => exact ih h
  | behind negated width body ih => exact ih h
  | backref number folding =>
      obtain ⟨hpositive, hle⟩ := h
      exact ⟨by omega, by omega⟩
  | conditional number yes no ihy ihn =>
      obtain ⟨⟨hpositive, hle⟩, hyes, hno⟩ := h
      exact ⟨⟨by omega, by omega⟩, ihy hyes, ihn hno⟩
  | repeated greed least most body ih => exact ih h

theorem within_mergedBranches (base : Nat) (parts : List Part) :
    ∀ branch ∈ mergedBranches base parts, ∀ x ∈ branch,
      x.numbersWithin (base + total parts) := by
  induction parts generalizing base with
  | nil => exact List.forall_mem_nil _
  | cons p rest ih =>
      intro branch hbranch x hx
      rcases List.mem_append.mp hbranch with hbranch | hbranch
      · obtain ⟨own, hown, rfl⟩ := List.mem_map.mp hbranch
        obtain ⟨y, hy, rfl⟩ := List.mem_map.mp hx
        have hy := shift_within base _ y (p.within_branches own hown y hy)
        exact numbersWithin_mono (by rw [total]; omega) hy
      · have hx := ih (base + (p.count + 1)) branch hbranch x hx
        rw [Nat.add_assoc] at hx
        exact hx

theorem staysChoice_mergedBranches (base : Nat) {parts : List Part} (h : parts ≠ []) :
    StaysChoice (mergedBranches base parts) := by
  cases parts with
  | nil => exact absurd rfl h
  | cons p rest =>
      refine ⟨(p.reader.settled.top.branch ++ [marker (p.count + 1)]).map (Regex.shift base), ?_,
        ?_⟩
      · refine List.mem_append_left _ (List.mem_map.mpr ⟨_, ?_, rfl⟩)
        exact List.mem_append_right _ (List.mem_singleton_self _)
      · intro test htest
        rw [List.map_append, List.map_singleton, List.getLast?_concat] at htest
        cases htest

theorem start_shift (base : Nat) (path : List Char) :
    (Thread.start path).shift base = .start path := rfl

theorem findSome?_shift (base : Nat) (p : Part) (path : List Char) :
    ((p.branches.map (·.map (Regex.shift base))).findSome? fun branch =>
      (sequence branch).ending? (.start path)) = (p.marked? path).map (Marks.shift base) := by
  have hwithin := p.within_branches
  unfold marked?
  generalize p.branches = branches at hwithin ⊢
  induction branches with
  | nil => rfl
  | cons branch rest ih =>
      obtain ⟨hbranch, hrest⟩ := List.forall_mem_cons.mp hwithin
      have hsequence := (numbersWithin_sequence _ branch).mpr hbranch
      have hshift := ending?_shift base hsequence (.start path)
      rw [start_shift, sequence_shift] at hshift
      rw [List.map_cons, List.findSome?_cons, List.findSome?_cons, hshift, ih hrest]
      cases (sequence branch).ending? (.start path) <;> rfl

/-- The whole matches as the first of its texts that matches. -/
theorem ending?_regex {parts : List Part} (hparts : parts ≠ []) (path : List Char) :
    (regex parts).ending? (.start path) = merged? path 0 parts := by
  have hunite := ending?_unite {} _ (mergedBranches 0 parts) (within_mergedBranches 0 parts)
    (staysChoice_mergedBranches 0 hparts) (.start path) rfl
  have hmerged : ∀ base, ((mergedBranches base parts).findSome? fun branch =>
      (sequence branch).ending? (.start path)) = merged? path base parts := by
    clear hunite hparts
    induction parts with
    | nil => exact fun _ => rfl
    | cons p rest ih =>
        intro base
        rw [mergedBranches, List.findSome?_append, findSome?_shift, ih, merged?]
  unfold regex startAnchor endAnchor
  rw [ending?_startAnchor _ _ _ rfl, ending?_endAnchor, hunite, hmerged]

end Part

end NamedRoutes.Regex
