import NamedRoutes.Proofs.Regex.Numbering

/-!
What texts amount to that are pasted together. Each text adds its own items to the current
alternative, with its groups numbered from where the texts before it have got, so the whole is read
as the items of all the texts in turn.
-/

namespace NamedRoutes.Regex.Reader

variable {m n : Nat} {text : List Char}

/-- Whether every ready reader can read a text, and the text adds some items to the current
alternative, given how many groups there were before. -/
structure Yields (text : List Char) (count : Nat) (items : Nat → List Item) : Prop where
  reads : Reads text count
  items : ∀ u v : Reader, u.Ready → u.top.lookbehind = none → u.readAll text = .ok v →
    v.settled.top.items = (items u.groups.length).reverse ++ u.settled.top.items

/-- Whether every ready reader can read a text, and the text adds one item that can be repeated. -/
structure YieldsItem (text : List Char) (count : Nat) (item : Nat → Item) : Prop where
  reads : ReadsItem text count
  item : ∀ u v : Reader, u.Ready → u.top.lookbehind = none → u.readAll text = .ok v →
    v.top.items = item u.groups.length :: u.settled.top.items

theorem Yields.nil : Yields [] 0 fun _ => [] := by
  refine ⟨Reads.nil, fun u v _ _ hread => ?_⟩
  cases hread
  rfl

theorem Yields.append {first second : List Char} {items items' : Nat → List Item}
    (hfirst : Yields first m items) (hsecond : Yields second n items') :
    Yields (first ++ second) (m + n) fun base => items base ++ items' (base + m) := by
  refine ⟨hfirst.reads.append hsecond.reads, fun u w hu hlookbehind hread => ?_⟩
  obtain ⟨v, hread, hrest⟩ := readAll_append_eq_ok first second u w hread
  obtain ⟨v', hread', hv⟩ := hfirst.reads u hu hlookbehind
  obtain rfl := Except.ok.inj (hread.symm.trans hread')
  rw [hsecond.items v w hv.ready (hv.lookbehind.trans hlookbehind) hrest,
    hfirst.items u v hu hlookbehind hread, hv.groups, List.reverse_append, List.append_assoc]

/-- Literal text is a test for each of its characters. -/
theorem Yields.quote (text : List Char) : Yields (Regex.quote text) 0 fun _ =>
    text.map fun c => .single (.one (.literal c.toNat false .exact)) := by
  refine ⟨Reads.quote text, fun u w hu hlookbehind hread => ?_⟩
  induction text generalizing u with
  | nil =>
      cases hread
      rfl
  | cons c rest ih =>
      obtain ⟨v, hfirst, hv, hmode, hitems⟩ := hu.readAll_quoteChar c
      have hread : u.readAll (quoteChar c ++ Regex.quote rest) = .ok w := hread
      rw [readAll_append_of_ok hfirst] at hread
      have hsettled : v.settled = v := by
        unfold settled
        rw [hmode]
      rw [ih v hv.ready (hv.lookbehind.trans hlookbehind) hread, hsettled, hitems]
      simp

theorem YieldsItem.yields {item : Nat → Item} (h : YieldsItem text n item) :
    Yields text n fun base => [item base] := by
  refine ⟨h.reads.reads, fun u v hu hlookbehind hread => ?_⟩
  obtain ⟨v', hread', _, hmode, _⟩ := h.reads u hu hlookbehind
  obtain rfl := Except.ok.inj (hread.symm.trans hread')
  have hsettled : v.settled = v := by
    unfold settled
    rw [hmode]
  rw [hsettled, h.item u v hu hlookbehind hread]
  rfl

/-- An item that may be left out. -/
theorem YieldsItem.optional {item : Nat → Item} (h : YieldsItem text n item) :
    Yields (text ++ ['?']) n fun base =>
      [.single (.repeated .greedy 0 (some 1) (item base).repeatable)] := by
  refine ⟨h.reads.optional, fun u w hu hlookbehind hread => ?_⟩
  obtain ⟨v, hfirst, hstep⟩ := readAll_append_eq_ok text ['?'] u w hread
  obtain ⟨v', hfirst', hv, hmode, hcheck⟩ := h.reads u hu hlookbehind
  obtain rfl := Except.ok.inj (hfirst.symm.trans hfirst')
  rw [readAll_cons_of_ok ((step_repeat hmode hv.ready.flags hcheck).1)] at hstep
  cases hstep
  have hitems := h.item u v hu hlookbehind hfirst
  unfold settled repeatLast
  simp only [show v.counting.top = v.top from rfl, hitems]
  rfl

/-- Items in parentheses that record nothing are one item. -/
theorem Yields.wrapped {items : Nat → List Item} (h : Yields text n items) :
    YieldsItem ("(?:".toList ++ (text ++ [')'])) n fun base =>
      .plain ((items base).flatMap Item.contents) := by
  refine ⟨h.reads.wrapped, fun u w hu hlookbehind hread => ?_⟩
  obtain ⟨kept, hsettled, _⟩ := hu.settled_eq
  have hnone : u.wrapped.top.lookbehind = none := by
    change u.settled.top.lookbehind = none
    rw [hsettled]
    exact hlookbehind
  rw [hu.readAll_wrapped] at hread
  obtain ⟨v, hread, hclose⟩ := readAll_append_eq_ok text [')'] _ w hread
  obtain ⟨v', hread', hv⟩ := h.reads u.wrapped hu.wrapped hnone
  obtain rfl := Except.ok.inj (hread.symm.trans hread')
  obtain ⟨w', hstep, hw⟩ := readAll_cons_eq_ok ')' [] v w hclose
  cases hw
  obtain ⟨_, _, settledItems, _, hsame⟩ := (hv.trans hv.ready.extended_settled).same
  have hgroups : u.wrapped.groups = u.groups := by
    change u.settled.groups = u.groups
    rw [hsettled]
  have hitems : v.settled.top.items = (items u.groups.length).reverse := by
    rw [h.items u.wrapped v hu.wrapped hnone hread, hgroups]
    exact List.append_nil _
  rw [hv.ready.step (by decide) (by decide), plain_parenthesis] at hstep
  have houter : v.settled.counting.outer = u.settled.top :: u.settled.outer := by
    change v.settled.outer = _
    rw [hsame]
    rfl
  have hcontents : v.settled.counting.top.contents =
      (items u.groups.length).flatMap Item.contents := by
    have hbranches : v.settled.top.branches = [] := by rw [hsame]; rfl
    change unite v.settled.top.flags (v.settled.top.branch :: v.settled.top.branches).reverse = _
    rw [hbranches, Frame.branch, hitems, List.reverse_reverse]
    rfl
  have hrole : v.settled.counting.top.role = .plain := by
    change v.settled.top.role = .plain
    rw [hsame]
    rfl
  unfold leave at hstep
  rw [houter] at hstep
  cases hstep
  change v.settled.counting.top.item _ :: u.settled.top.items = _
  rw [Frame.item, hrole, hcontents]

/-- What is read between the signs for the start and the end. -/
theorem Yields.parse {items : Nat → List Item} (h : Yields text n items) :
    parse ('^' :: (text ++ ['$'])) = .ok (.sequence (.anchor (startAnchor {}) ::
      ((items 0).flatMap Item.contents ++ [.anchor (endAnchor {})])), n) := by
  obtain ⟨v, hread, hfinal, hparse⟩ := parse_anchored h.reads
  obtain ⟨_, _, _, _, hsame⟩ := hfinal.same
  have hitems : v.settled.top.items = (items 0).reverse ++ [.single (.anchor (startAnchor {}))] :=
    h.items started v (.of_plain rfl rfl) rfl hread
  have hbranches : v.settled.top.branches = [] :=
    congrArg (fun r : Reader => r.top.branches) hsame
  rw [hparse]
  refine congrArg (fun regex => Except.ok (regex, n)) (congrArg sequence ?_)
  change unite v.settled.top.flags (Frame.branch (Frame.mk _ _ _
    (.single (.anchor (endAnchor {})) :: v.settled.top.items) _) ::
    v.settled.top.branches).reverse = _
  rw [hbranches, hitems]
  simp [unite, Frame.branch, Item.contents]

theorem joinBranches_nil (branches : List (List Regex)) :
    joinBranches [] [] branches = branches := by
  induction branches with
  | nil => rfl
  | cons branch rest ih =>
      cases rest with
      | nil => rfl
      | cons next rest => rw [joinBranches, ih]

/-- In a parenthesis that holds nothing yet a text amounts to what it is by itself. -/
theorem body_onto (f : Frame) (base : Nat) {k : Frame} (hbranches : k.branches = [])
    (hitems : k.items = []) : (f.onto base k).body = f.body.shift base := by
  have hbranch : k.branch = [] := by
    rw [Frame.branch, hitems]
    rfl
  have honto : (f.onto base k).items = (f.shift base).items := by
    change (f.shift base).items ++ (if f.branches.isEmpty then k.items else []) = _
    rw [hitems, ite_self, List.append_nil]
  have hothers : (f.onto base k).branches = (f.shift base).branches := by
    change joinBranches k.branch k.branches (f.shift base).branches = _
    rw [hbranch, hbranches, joinBranches_nil]
  rw [← Frame.body_shift, Frame.body, Frame.contents, Frame.branch, honto, hothers]
  rfl

/-- A text that is an expression without groups is one by itself. -/
theorem Standalone.parse_eq {s : Reader} (h : Standalone text s) :
    ∃ regex, parse text = .ok (regex, 0) := by
  obtain ⟨s', hsettle, houter, hgroups, _, htested, hpending, _⟩ := h.readAll_group
  obtain ⟨mode, items, hsame⟩ := settle_eq_ok hsettle
  have hflags : s'.top.flags.contradictory = false := by
    rw [hsame]
    exact congrArg Flags.contradictory h.flags
  refine ⟨s'.top.body, ?_⟩
  unfold parse
  rw [h.alone]
  refine (finish_eq_ok_iff s _ _).mpr ⟨s', hsettle, houter, hflags, ?_, hpending, rfl, ?_⟩
  · rw [htested]
    exact Nat.zero_le _
  · rw [hgroups]
    rfl

/-- In parentheses a text that is an expression without groups is a group around that expression. -/
theorem Standalone.yieldsItem {s : Reader} (h : Standalone text s) {regex : Regex} {count : Nat}
    (hparse : parse text = .ok (regex, count)) :
    YieldsItem ('(' :: (text ++ [')'])) 1 fun base => .single (.capture (base + 1) regex) := by
  obtain ⟨s', hsettle, houter, hnone, _, _, _, hread⟩ := h.readAll_group
  have hregex : regex = s'.top.body ∧ count = 0 := by
    obtain ⟨w, halone, hfinish⟩ := parse_eq_ok hparse
    obtain rfl := Except.ok.inj (h.alone.symm.trans halone)
    obtain ⟨w', hsettle', _, _, _, _, hbody, hcount⟩ := (finish_eq_ok_iff s _ _).mp hfinish
    obtain rfl := Except.ok.inj (hsettle.symm.trans hsettle')
    exact ⟨hbody, by rw [hcount, hnone]; rfl⟩
  obtain ⟨rfl, rfl⟩ := hregex
  refine ⟨h.readsItem, fun u v hu hlookbehind hv => ?_⟩
  obtain ⟨kept, hsettled, _⟩ := hu.settled_eq
  let k := u.opened.enterCapture
  have hgroups : u.settled.groups = u.groups := by rw [hsettled]
  have houterInside : (k.counting.inside s').outer = u.settled.top :: u.settled.outer := by
    change k.counting.outerInside s'.outer = _
    rw [houter]
    rfl
  have hlength : k.groups.length = u.settled.groups.length + 1 := List.length_append
  have hbody : (k.counting.inside s').top.body = s'.top.body := by
    rw [top_inside_group houter k, body_onto _ _ rfl rfl]
    exact shift_eq_self (numbersWithin_of_parse hparse) _
  rw [hread u hu hlookbehind, plain_parenthesis] at hv
  unfold leave at hv
  rw [houterInside] at hv
  cases hv
  change (k.counting.inside s').top.item _ :: u.settled.top.items = _
  have hrole : (k.counting.inside s').top.role = .capture (u.groups.length + 1) := by
    rw [top_inside_group houter k, ← hgroups]
    rfl
  rw [Frame.item, hrole, hbody]

end NamedRoutes.Regex.Reader
