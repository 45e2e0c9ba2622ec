import NamedRoutes.Proofs.Regex.Pasting

/-!
A text between the signs for the start and the end. If the whole refers to no group, the text can be
read without the signs, and the whole matches as the first alternative of the text that matches.
-/

namespace NamedRoutes.Regex

def prependFirst (before : List Regex) : List (List Regex) → List (List Regex)
  | [] => []
  | first :: others => (before ++ first) :: others

theorem prependFirst_append (before : List Regex) {branches : List (List Regex)}
    (h : branches ≠ []) (others : List (List Regex)) :
    prependFirst before (branches ++ others) = prependFirst before branches ++ others := by
  cases branches with
  | nil => exact absurd rfl h
  | cons first rest => rfl

theorem reverse_joinBranches (before : List Regex) (done branches : List (List Regex)) :
    (joinBranches before done branches).reverse =
      done.reverse ++ prependFirst before branches.reverse := by
  induction branches with
  | nil => simp [joinBranches, prependFirst]
  | cons branch rest ih =>
      cases rest with
      | nil => simp [joinBranches, prependFirst]
      | cons next rest =>
          rw [joinBranches, List.reverse_cons, ih, List.append_assoc,
            List.reverse_cons (a := branch), prependFirst_append before (by simp)]

namespace Frame

def alternatives (f : Frame) : List (List Regex) := (f.branch :: f.branches).reverse

theorem alternatives_eq (f : Frame) : f.alternatives = f.branches.reverse ++ [f.branch] :=
  List.reverse_cons

theorem alternatives_shift (base : Nat) (f : Frame) :
    (f.shift base).alternatives = f.alternatives.map (·.map (Regex.shift base)) := by
  rw [alternatives_eq, alternatives_eq, branch_shift, List.map_append]
  simp [shift]

theorem alternatives_onto (base : Nat) (k f : Frame) :
    (f.onto base k).alternatives =
      k.branches.reverse ++ prependFirst k.branch (f.shift base).alternatives := by
  have hbranches : (f.onto base k).branches =
      joinBranches k.branch k.branches (f.shift base).branches := rfl
  rw [alternatives_eq, alternatives_eq, hbranches, reverse_joinBranches]
  cases hcase : f.branches with
  | nil =>
      have hnone : (f.shift base).branches = [] := by simp [shift, hcase]
      rw [hnone, Reader.branch_onto base k f hcase]
      simp [prependFirst]
  | cons branch rest =>
      have hbranch : (f.onto base k).branch = (f.shift base).branch := by
        simp [Frame.branch, onto, hcase]
      have hsome : (f.shift base).branches.reverse ≠ [] := by simp [shift, hcase]
      rw [hbranch, prependFirst_append k.branch hsome, List.append_assoc]

theorem alternatives_push (f : Frame) (x : Regex) :
    ({ f with items := .single x :: f.items } : Frame).alternatives =
      f.branches.reverse ++ [f.branch ++ [x]] := by
  rw [alternatives_eq]
  simp [branch, Item.contents]

end Frame

namespace Reader

/-- What the outermost parenthesis is from the start. -/
def outermost : Frame → List Frame → Role × Option Nat
  | f, [] => (f.role, f.lookbehind)
  | _, parent :: outer => outermost parent outer

theorem outermost_congr {f g : Frame} (hrole : f.role = g.role)
    (hlookbehind : f.lookbehind = g.lookbehind) (outer : List Frame) :
    outermost f outer = outermost g outer := by
  cases outer with
  | nil => rw [outermost, hrole, hlookbehind, outermost]
  | cons parent rest => rfl

theorem outermost_move {r s : Reader} {asks : Bool} (h : r.Move asks s) :
    outermost s.top s.outer = outermost r.top r.outer := by
  cases h with
  | leave parent outer houter =>
      rw [houter]
      apply outermost_congr <;> rfl
  | repeatLast greed least most item items hitems =>
      unfold repeatLast
      rw [hitems]
      apply outermost_congr <;> rfl
  | enter role flags hrole => rfl
  | capture names hnames => rfl
  | condition number tested => rfl
  | stay mode pending => rfl
  | _ => apply outermost_congr <;> rfl

theorem outermost_readAll (text : List Char) (s : Reader) (h : ({} : Reader).readAll text = .ok s)
    (houter : s.outer = []) : s.top.role = .whole ∧ s.top.lookbehind = none := by
  have hsame := readAll_induction (P := fun t => outermost t.top t.outer = (.whole, none))
    (fun _ _ _ hmove heq => (outermost_move hmove).trans heq) (fun _ heq => heq) text {}
    s trivial h rfl
  rw [houter] at hsame
  exact Prod.mk.inj hsame

end Reader

theorem shift_zero (r : Regex) : r.shift 0 = r := by
  induction r with
  | empty => rfl
  | never => rfl
  | one test => rfl
  | anchor a => rfl
  | backref number folding => rfl
  | seq first second ihf ihs => rw [Regex.shift, ihf, ihs]
  | alt first second ihf ihs => rw [Regex.shift, ihf, ihs]
  | group body ih => rw [Regex.shift, ih]
  | capture number body ih => rw [Regex.shift, ih, Nat.add_zero]
  | atomic body ih => rw [Regex.shift, ih]
  | ahead negated body ih => rw [Regex.shift, ih]
  | behind negated width body ih => rw [Regex.shift, ih]
  | conditional number yes no ihy ihn => rw [Regex.shift, ihy, ihn, Nat.add_zero]
  | repeated greed least most body ih => rw [Regex.shift, ih]

theorem map_shift_zero (items : List Regex) : items.map (Regex.shift 0) = items := by
  rw [show Regex.shift 0 = id from funext shift_zero, List.map_id]

namespace Reader

/-- What a text amounts to that has been read from `{}` to `r`, and what is known of it: it has some
groups, refers to none and leaves nothing behind. -/
structure OwnReading (text : List Char) (count : Nat) (r : Reader) : Prop where
  read : ({} : Reader).readAll text = .ok r
  ready : r.Ready
  outer : r.outer = []
  lookbehind : r.top.lookbehind = none
  groups : r.groups.length = count
  tested : r.tested = 0
  pending : r.pending = none
  reference : r.NoReference

theorem tested_of_readAll (text : List Char) (s : Reader) (h : ({} : Reader).readAll text = .ok s)
    (hs : s.NoReference) : s.tested = 0 := by
  refine readAll_induction (P := fun t => t.NoReference → t.tested = 0) ?_
    (fun _ ht => ht) text {} s
    trivial h (fun _ => rfl) hs
  intro t u asks hmove ht hu
  have hasks := asks_of_noReference hmove hu
  rw [hasks] at hmove
  rw [tested_move hmove]
  exact ht (noReference_of_move hmove hu)

theorem settled_inside (k : Reader) {r : Reader} (hr : r.Ready) :
    (k.inside r).settled = k.inside r.settled := by
  have hinside : (k.inside r).mode = r.mode := rfl
  unfold settled
  rw [hinside]
  rcases hr.mode with hmode | ⟨least, most, hmode⟩
  · rw [hmode]
  · have hpoised := hr.poised
    unfold Poised at hpoised
    rw [hmode] at hpoised ⊢
    exact k.repeatLast_inside r .greedy least most hpoised

def started : Reader := ({} : Reader).counting.push (.anchor (startAnchor {}))

theorem started_open : started.Open := by
  refine ⟨?_, rfl⟩
  intro number hnumber
  cases hnumber

theorem started_thin : started.Thin := by
  refine ⟨rfl, rfl, ?_, rfl, rfl⟩
  intro item hitem
  obtain rfl := List.mem_singleton.mp hitem
  exact ⟨_, rfl⟩

theorem Ready.step_end {u : Reader} (hu : u.Ready) :
    u.step '$' = .ok (u.settled.counting.push (.anchor (endAnchor {}))) := by
  rw [hu.step (by decide) (by decide)]
  unfold plain
  rw [show u.settled.counting.top.flags = {} from hu.flags_settled]
  rfl

theorem finish_of_plain {w : Reader} (hmode : w.mode = .plain) {regex : Regex} {count : Nat}
    (h : w.finish = .ok (regex, count)) :
    w.outer = [] ∧ w.pending = none ∧ regex = w.top.body ∧ count = w.groups.length := by
  obtain ⟨s, hsettle, houter, _, _, hpending, hregex, hcount⟩ := (finish_eq_ok_iff w _ _).mp h
  unfold settle at hsettle
  rw [hmode] at hsettle
  cases hsettle
  exact ⟨houter, hpending, hregex, hcount⟩

theorem finish_of_settled {w : Reader} (hmode : w.mode = .plain) (houter : w.outer = [])
    (hflags : w.top.flags = {}) (htested : w.tested = 0) (hpending : w.pending = none) :
    w.finish = .ok (w.top.body, w.groups.length) := by
  refine (finish_eq_ok_iff w _ _).mpr ⟨w, ?_, houter, ?_, ?_, hpending, rfl, rfl⟩
  · unfold settle
    rw [hmode]
  · rw [hflags]
    rfl
  · omega

theorem noReference_of_body {w : Reader} (houter : w.outer = []) (hrole : w.top.role = .whole)
    (h : w.top.body.refers = false) : w.NoReference := by
  intro f hf
  unfold frames at hf
  rw [houter] at hf
  obtain rfl := List.mem_singleton.mp hf
  refine ⟨(Frame.body_iff hereditary_not_refers _).mp h, ?_⟩
  intro number hnumber
  rw [hrole] at hnumber
  cases hnumber

/-- What the whole amounts to when a text stands between the signs for the start and the end. -/
def anchoredBranches (r : Reader) : List (List Regex) :=
  prependFirst [.anchor (startAnchor {})]
    (r.settled.top.branches.reverse ++ [r.settled.top.branch ++ [.anchor (endAnchor {})]])

def ended (m : Reader) : Reader := m.settled.counting.push (.anchor (endAnchor {}))

/-- How a text that closes all its parentheses is read between the signs for the start and the end.
-/
theorem read_anchored {text : List Char} {count : Nat} (hopens : Opens text count) {regex : Regex}
    {groups : Nat} (hparse : parse ('^' :: (text ++ ['$'])) = .ok (regex, groups)) :
    ∃ m, started.readAll text = .ok m ∧ Tracked started m count ∧
      ({} : Reader).readAll ('^' :: (text ++ ['$'])) = .ok m.ended ∧
      m.ended.finish = .ok (regex, groups) := by
  obtain ⟨w, hread, hfinish⟩ := parse_eq_ok hparse
  have hread' := hread
  have hstart : ({} : Reader).step '^' = .ok started := rfl
  rw [readAll_cons_of_ok hstart] at hread'
  obtain ⟨m, hm, hlast⟩ := readAll_append_eq_ok text ['$'] started w hread'
  have htracked := hopens started m (.of_plain rfl rfl) rfl hm
  rw [readAll_cons_of_ok htracked.ready.step_end] at hlast
  cases hlast
  exact ⟨m, hm, htracked, hread, hfinish⟩

theorem groups_ended {m : Reader} (hm : m.Ready) : m.ended.groups = m.groups := by
  obtain ⟨items, hsettled, _⟩ := hm.settled_eq
  change m.settled.groups = m.groups
  rw [hsettled]

/-- Between the signs for the start and the end a text that closes all its parentheses has the
groups that it opens. -/
theorem Opens.groups_eq {text : List Char} {count : Nat} (hopens : Opens text count) {regex : Regex}
    {groups : Nat} (hparse : parse ('^' :: (text ++ ['$'])) = .ok (regex, groups)) :
    groups = count := by
  obtain ⟨m, _, htracked, _, hfinish⟩ := read_anchored hopens hparse
  obtain ⟨_, _, _, hcount⟩ := finish_of_plain rfl hfinish
  have hgroups : m.groups.length = started.groups.length + count := htracked.groups
  rw [hcount, groups_ended htracked.ready, hgroups]
  exact Nat.zero_add count

/-- A text that leaves no parenthesis open inside another one leaves none open by itself. -/
theorem outer_of_settled_inside {k r : Reader} (hr : r.Ready)
    (h : (k.inside r).settled.outer = []) : r.outer = [] := by
  obtain ⟨items, hkept, _⟩ := hr.settled_eq
  rw [settled_inside k hr, hkept] at h
  change k.outerInside r.outer = [] at h
  cases houter : r.outer with
  | nil => rfl
  | cons parent outer =>
      rw [houter] at h
      cases h

/-- What a text has added to the sign for the start once the sign for the end is read. -/
theorem top_ended_inside {r : Reader} (hr : r.Ready) (houter : r.outer = []) :
    (started.inside r).ended.top =
      (r.settled.push (.anchor (endAnchor {}))).top.onto 0 started.top := by
  obtain ⟨items, hkept, _⟩ := hr.settled_eq
  have hkeptOuter : ({ r with mode := .plain, top := { r.top with items } } : Reader).outer = [] :=
    houter
  change ((started.inside r).settled.push (.anchor (endAnchor {}))).top = _
  rw [settled_inside started hr]
  refine (congrArg Reader.top
    (started.pushItem_inside r.settled (.single (.anchor (endAnchor {}))))).trans ?_
  change started.frameInside _ r.settled.outer = _
  rw [hkept, hkeptOuter]
  rfl

theorem alternatives_ended_inside {r : Reader} (hr : r.Ready) (houter : r.outer = []) :
    (started.inside r).ended.top.alternatives = r.anchoredBranches := by
  rw [top_ended_inside hr houter, Frame.alternatives_onto, Frame.alternatives_shift]
  simp only [map_shift_zero, List.map_id']
  exact congrArg (prependFirst [.anchor (startAnchor {})])
    (Frame.alternatives_push r.settled.top (.anchor (endAnchor {})))

/-- A text that refers to no group can be read by itself if it can be read between the signs for the
start and the end. -/
theorem ownReading_of_parse {text : List Char} {count : Nat} (hopens : Opens text count)
    {regex : Regex} {groups : Nat} (hparse : parse ('^' :: (text ++ ['$'])) = .ok (regex, groups))
    (hrefers : regex.refers = false) :
    ∃ r, OwnReading text count r ∧ groups = count ∧
      regex = .sequence (unite {} r.anchoredBranches) := by
  obtain ⟨m, hm, htracked, hread, hfinish⟩ := read_anchored hopens hparse
  obtain ⟨houter, hpending, hregex, _⟩ := finish_of_plain rfl hfinish
  have hended : m.ended.NoReference :=
    noReference_of_body houter (outermost_readAll _ _ hread houter).1 (hregex ▸ hrefers)
  have hmreference : m.NoReference := by
    refine noReference_of_readAll ['$'] m m.ended htracked.ready.poised ?_ hended
    rw [readAll_cons_of_ok htracked.ready.step_end]
    rfl
  have hinside : started.inside {} = started := inside_start started rfl rfl rfl
  obtain ⟨r, hr, hreference, rfl⟩ := reflect_readAll started_open started_thin text {} m sound_start
    groupless_start.reference (hinside.symm ▸ hm) hmreference
  have hready : r.Ready := by
    refine ⟨poised_readAll text {} r trivial hr, htracked.ready.mode, ?_⟩
    rw [← started.flags_inside r]
    exact htracked.ready.flags
  have hrouter : r.outer = [] := outer_of_settled_inside hready houter
  have hrpending : r.pending = none := by
    change (started.inside r).settled.pending = none at hpending
    obtain ⟨items, hkept, _⟩ := hready.settled_eq
    rw [settled_inside started hready, hkept] at hpending
    exact hpending
  have hgroups : r.groups.length = count := by
    have hmore : ([] ++ r.groups).length = 0 + count := htracked.groups
    rwa [List.nil_append, Nat.zero_add] at hmore
  have hflags : (started.inside r).ended.top.flags = {} := by
    rw [top_ended_inside hready hrouter]
    exact hready.flags_settled
  refine ⟨r, ?_, hopens.groups_eq hparse, ?_⟩
  · exact
      { read := hr
        ready := hready
        outer := hrouter
        lookbehind := (outermost_readAll text r hr hrouter).2
        groups := hgroups
        tested := tested_of_readAll text r hr hreference
        pending := hrpending
        reference := hreference }
  · rw [hregex, ← alternatives_ended_inside hready hrouter, ← hflags]
    rfl

/-- The record with which the first alternative of a text that matches a whole text matches it. -/
def own? (r : Reader) (text : List Char) : Option Marks :=
  r.settled.top.alternatives.findSome? fun branch => (sequence branch).ending? (.start text)

variable {text : List Char} {count : Nat} {r : Reader}

theorem OwnReading.numbered (h : OwnReading text count r) : r.settled.Numbered :=
  numbered_settle h.ready.settle (sound_readAll text {} r sound_start h.read).numbered

theorem OwnReading.within (h : OwnReading text count r) :
    ∀ branch ∈ r.settled.top.alternatives, ∀ x ∈ branch, x.numbersWithin count := by
  have hreach : r.settled.reach = count := by
    obtain ⟨items, hsettled, _⟩ := h.ready.settled_eq
    unfold reach
    rw [hsettled, h.tested, Nat.max_zero]
    exact h.groups
  have hall := (h.numbered.frames _ (List.mem_cons_self ..)).all
  rw [hreach] at hall
  obtain ⟨hbranch, hbranches⟩ := (Frame.all_iff _).mp hall
  intro branch hmem
  rcases List.mem_cons.mp (List.mem_reverse.mp hmem) with rfl | hmem
  · exact hbranch
  · exact hbranches branch hmem

theorem findSome?_prependFirst {β : Type} (before : List Regex) (f : List Regex → Option β)
    (h : ∀ branch, f (before ++ branch) = f branch) (branches : List (List Regex)) :
    (prependFirst before branches).findSome? f = branches.findSome? f := by
  cases branches with
  | nil => rfl
  | cons first others => rw [prependFirst, List.findSome?_cons, List.findSome?_cons, h]

theorem mem_prependFirst {before : List Regex} {branches : List (List Regex)}
    {branch : List Regex} (h : branch ∈ prependFirst before branches) :
    ∃ own ∈ branches, branch = own ∨ branch = before ++ own := by
  cases branches with
  | nil => cases h
  | cons first others =>
      rcases List.mem_cons.mp h with rfl | hmem
      · exact ⟨first, List.mem_cons_self .., Or.inr rfl⟩
      · exact ⟨branch, List.mem_cons_of_mem _ hmem, Or.inl rfl⟩

theorem staysChoice_prependFirst (before : List Regex) (branches : List (List Regex))
    (last : List Regex) (x : Regex) (hx : ∀ test, x ≠ .one test) :
    StaysChoice (prependFirst before (branches ++ [last ++ [x]])) := by
  have hlast : ∀ items : List Regex, ∀ test, (items ++ [x]).getLast? ≠ some (.one test) := by
    intro items test htest
    rw [List.getLast?_concat] at htest
    exact hx test (Option.some.inj htest)
  cases branches with
  | nil =>
      refine ⟨before ++ (last ++ [x]), by simp [prependFirst], ?_⟩
      rw [← List.append_assoc]
      exact hlast _
  | cons first others => exact ⟨last ++ [x], by simp [prependFirst], hlast last⟩

/-- The whole matches as the first alternative of the text that matches. -/
theorem OwnReading.ending?_anchored (h : OwnReading text count r) (path : List Char) :
    (sequence (unite {} r.anchoredBranches)).ending? (.start path) = r.own? path := by
  have hwithin := h.within
  rw [Frame.alternatives_eq] at hwithin
  have hanchored : ∀ branch ∈ r.anchoredBranches, ∀ x ∈ branch, x.numbersWithin count := by
    intro branch hbranch x hx
    obtain ⟨own, hown, heq⟩ := mem_prependFirst hbranch
    have hx : x ∈ own ∨ x = .anchor (startAnchor {}) := by
      rcases heq with rfl | rfl
      · exact Or.inl hx
      · exact (List.mem_append.mp hx).symm.imp id List.mem_singleton.mp
    rcases hx with hx | rfl
    · rcases List.mem_append.mp hown with hown | hown
      · exact hwithin own (List.mem_append_left _ hown) x hx
      · obtain rfl := List.mem_singleton.mp hown
        rcases List.mem_append.mp hx with hx | hx
        · exact hwithin _ (List.mem_append_right _ (List.mem_singleton_self _)) x hx
        · obtain rfl := List.mem_singleton.mp hx
          trivial
    · trivial
  rw [ending?_unite {} count r.anchoredBranches hanchored
    (staysChoice_prependFirst _ _ _ _ (by simp)) _ rfl]
  unfold anchoredBranches own?
  rw [findSome?_prependFirst]
  · rw [Frame.alternatives_eq, List.findSome?_append, List.findSome?_append]
    simp only [List.findSome?_cons, List.findSome?_nil, endAnchor, ending?_endAnchor]
  · exact fun branch => ending?_startAnchor _ branch _ rfl

/-- A text that can be read anywhere has one alternative. -/
theorem OwnReading.single (h : OwnReading text count r) (hreads : Reads text count) :
    r.settled.top.branches = [] := by
  obtain ⟨v, hread, hv⟩ := hreads {} ready_start rfl
  rw [h.read] at hread
  cases hread
  obtain ⟨_, _, _, _, hsame⟩ := (hv.trans hv.ready.extended_settled).same
  rw [hsame]

/-- The whole when a text that can be read anywhere stands between the signs for the start and the
end. -/
theorem parse_anchored (h : Reads text count) :
    ∃ v, started.readAll text = .ok v ∧
      Extended started (v.settled.counting.push (.anchor (endAnchor {}))) count ∧
      parse ('^' :: (text ++ ['$'])) =
        .ok ((v.settled.counting.push (.anchor (endAnchor {}))).top.body, count) := by
  have hstart : ({} : Reader).step '^' = .ok started := rfl
  obtain ⟨v, hread, hv⟩ := h started (.of_plain rfl rfl) rfl
  have hfinal := (hv.trans hv.ready.extended_settled).counting.push (.anchor (endAnchor {})) rfl
    fun _ => trivial
  refine ⟨v, hread, hfinal, ?_⟩
  obtain ⟨position, mode, items, groups, hsame⟩ := hfinal.same
  let w := v.settled.counting.push (.anchor (endAnchor {}))
  have hread : ({} : Reader).readAll ('^' :: (text ++ ['$'])) = .ok w := by
    rw [readAll_cons_of_ok hstart, readAll_append_of_ok hread, readAll_cons_of_ok hv.ready.step_end]
    rfl
  have hfinish : w.finish = .ok (w.top.body, w.groups.length) := by
    refine finish_of_settled rfl ?_ hfinal.ready.flags ?_ ?_
    · rw [show w = _ from hsame]
      rfl
    · rw [show w = _ from hsame]
      rfl
    · rw [show w = _ from hsame]
      rfl
  have hgroups : w.groups.length = 0 + count := hfinal.groups
  unfold parse
  rw [hread]
  refine hfinish.trans ?_
  rw [hgroups, Nat.zero_add]

/-- A text that can be read anywhere can be read between the signs for the start and the end. -/
theorem parse_of_reads (h : Reads text count) :
    ∃ regex, parse ('^' :: (text ++ ['$'])) = .ok (regex, count) ∧ regex.refers = false := by
  obtain ⟨v, _, hfinal, hparse⟩ := parse_anchored h
  refine ⟨_, hparse, ?_⟩
  have hstarted : started.NoReference :=
    noReference_move (.push (.anchor (startAnchor {})) rfl fun _ => trivial)
      groupless_start.reference
  have hreference := hfinal.reference hstarted
  exact (Frame.body_iff hereditary_not_refers _).mpr (hreference _ (List.mem_cons_self ..)).all

end Reader

end NamedRoutes.Regex
