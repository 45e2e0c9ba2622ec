import NamedRoutes.Proofs.Regex.Leftovers
import NamedRoutes.Regex.Reader

/-!
A choice matches as its first alternative that matches does, and with the same record. This holds of
a choice as it is read from a text too, where the items that all alternatives begin with are taken
out and run once. The sign at the end of an alternative that marks it adds a group to the record and
changes nothing else.
-/

namespace NamedRoutes

/-- Before any group has been entered there is nothing to be put right. -/
theorem Marks.afterGivingUp_of_clean {m : Marks} (left : Marks) (h : m.edges = []) :
    m.afterGivingUp left = m := by
  cases m
  simp_all [afterGivingUp]

namespace Thread

theorem marks_step? (t u : Thread) (accepts : Char → Bool) (h : t.step? accepts = some u) :
    u.marks = t.marks := by
  obtain ⟨p, _, hp⟩ := Option.map_eq_some_iff.mp h
  rw [← hp]
  rfl

theorem marks_follow? (t u : Thread) (folding : Folding) (text : List Char)
    (h : t.follow? folding text = some u) : u.marks = t.marks := by
  induction text generalizing t with
  | nil =>
      cases h
      rfl
  | cons c rest ih =>
      obtain ⟨v, hv, hu⟩ := Option.bind_eq_some_iff.mp h
      exact (ih v hu).trans (t.marks_step? v _ hv)

end Thread

def Attempt.marks? : Attempt → Option Marks
  | .matched t => some t.marks
  | .failed .. => none

/-- Whether a record knows of some first groups only. -/
structure Marks.Within (limit : Nat) (m : Marks) : Prop where
  edges : m.edges.length ≤ 2 * limit
  lastClosed : m.lastClosed ≤ limit

theorem Thread.Same.of_clean (limit : Nat) {t : Thread} (h : t.marks = {}) :
    Thread.Same limit t t :=
  .refl (by simp [Thread.known, h]) (by simp [h])

namespace Regex

/-- The record with which an expression matches all that is left of a text. -/
def ending? (r : Regex) (t : Thread) : Option Marks := (r.run false t atEnd).marks?

theorem fullMatch?_eq (r : Regex) (text : List Char) :
    r.fullMatch? text = r.ending? (.start text) := by
  unfold fullMatch? ending?
  cases r.run false (.start text) atEnd <;> rfl

/-- Ending a match agrees with itself, on threads that know no more edges than allowed. -/
theorem atEnd_similar (limit n : Nat) :
    Rest.Similar limit n (Thread.Same limit) atEnd atEnd := by
  refine ⟨rfl, fun u u' hu _ => ?_⟩
  simp only [atEnd, hu.place]
  by_cases hend : u.place.after.isEmpty = true
  · simp only [hend, if_true]
    exact hu
  · simp only [hend, Bool.false_eq_true, if_false]
    exact hu.fail

theorem ending?_same {limit : Nat} {r : Regex} (hr : r.numbersWithin limit) {t t' : Thread}
    (ht : Thread.Same limit t t') : r.ending? t' = r.ending? t := by
  unfold ending?
  rcases (run_steady limit r hr false _ t t' _ _ ht (atEnd_similar limit _)).cases with
    ⟨u, v, hu, hv, hsame⟩ | ⟨reached, m, reached', m', hu, hv, _, _⟩
  · rw [hu, hv]
    exact congrArg some hsame.marks
  · rw [hu, hv]
    rfl

/-- A match records no groups beyond those of the expression. -/
theorem ending?_bound {limit : Nat} {r : Regex} (hr : r.numbersWithin limit) {t : Thread}
    (hclean : t.marks = {}) {m : Marks} (h : r.ending? t = some m) : m.Within limit := by
  have ht := Thread.Same.of_clean limit hclean
  unfold ending? at h
  rcases (run_steady limit r hr false _ t t _ _ ht (atEnd_similar limit _)).cases with
    ⟨u, v, hu, _, hsame⟩ | ⟨reached, m', reached', m'', hu, _, _, _⟩
  · rw [hu] at h
    cases h
    exact ⟨hsame.bound, hsame.closed⟩
  · rw [hu] at h
    cases h

/-- Under higher numbers an expression matches with the same record under higher numbers. -/
theorem ending?_shift (base : Nat) {limit : Nat} {r : Regex} (hr : r.numbersWithin limit)
    (t : Thread) :
    (r.shift base).ending? (t.shift base) = (r.ending? t).map (Marks.shift base) := by
  have hend : Rest.Shifted base atEnd atEnd := by
    refine ⟨rfl, fun u => ?_⟩
    simp only [atEnd, Thread.shift_place]
    by_cases hover : u.place.after.isEmpty = true
    · simp only [hover, if_true, Attempt.shift_matched]
    · simp only [hover, Bool.false_eq_true, if_false, Thread.shift_fail]
  unfold ending?
  rw [run_shift base limit r hr false t atEnd atEnd hend]
  cases r.run false t atEnd <;> rfl

/-- What consumes nothing and asks nothing hands its thread on. -/
theorem run_of_lead_none (r : Regex) (h : r.lead? = none) (looping : Bool) (t : Thread)
    (k : Rest) : r.run looping t k = k.go t := by
  induction r generalizing t k with
  | empty => rfl
  | seq first second ihf ihs =>
      simp only [lead?] at h
      cases hfirst : first.lead? with
      | some lead => simp [hfirst] at h
      | none =>
          simp only [hfirst] at h
          simp only [run, ihf hfirst, ihs h]
  | group body ih => exact ih h t k
  | _ => simp [lead?] at h

/-- A test fails wherever a look at the next character rules it out. -/
theorem next?_of_lacks (test : CharTest) (p : Place) (h : test.lead.lacks p = true) :
    p.next? test.accepts = none := by
  cases test with
  | literal code negated folding =>
      cases negated with
      | true => simp [CharTest.lead, Lead.lacks, Lead.lacksLetter] at h
      | false =>
          cases hcased : folding.isCased code with
          | true => simp [CharTest.lead, hcased, Lead.lacks, Lead.lacksLetter] at h
          | false =>
              have haccepts : (CharTest.literal code false folding).accepts =
                  fun c => c.toNat == code := by
                funext c
                simp [CharTest.accepts, hcased]
              rw [haccepts]
              simpa [CharTest.lead, hcased, Lead.lacks, Lead.lacksLetter] using h
  | set s =>
      cases hcased : s.isCased with
      | true => simp [CharTest.lead, hcased, Lead.lacks, Lead.lacksLetter] at h
      | false =>
          have haccepts : (CharTest.set s).accepts = fun c => s.holds c.toNat := rfl
          rw [haccepts]
          simpa [CharTest.lead, hcased, Lead.lacks] using h
  | any lineFeed => simp [CharTest.lead, Lead.lacks, Lead.lacksLetter] at h

/-- An alternative that is passed over after a look at the next character would have failed. -/
theorem run_of_lacks (r : Regex) (looping : Bool) (t : Thread) (k : Rest)
    (h : (r.lead?.getD .other).lacks t.place = true) : r.run looping t k = t.fail := by
  induction r generalizing k with
  | one test =>
      have hnext := next?_of_lacks test t.place h
      simp only [run, Thread.step?, hnext, Option.map_none]
  | seq first second ihf ihs =>
      simp only [lead?] at h
      cases hfirst : first.lead? with
      | some lead =>
          simp only [hfirst] at h
          exact ihf _ (by simpa only [hfirst] using h)
      | none =>
          simp only [hfirst] at h
          rw [run, run_of_lead_none first hfirst]
          exact ihs k h
  | group body ih => exact ih k h
  | _ => simp [lead?, Lead.lacks, Lead.lacksLetter] at h

/-- A choice matches with the record of its first alternative that matches, if no group has been
entered before. -/
theorem ending?_choice (limit : Nat) (alternatives : List Regex)
    (hwithin : ∀ r ∈ alternatives, r.numbersWithin limit) (t : Thread)
    (hclean : t.marks = {}) :
    (choice alternatives).ending? t = alternatives.findSome? (·.ending? t) := by
  have hsame : ∀ u : Thread, u.place = t.place → u.marks = t.marks → Thread.Same limit t u := by
    intro u hplace hmarks
    have hclean := Thread.Same.of_clean limit hclean
    exact ⟨hplace, hmarks, hclean.bound, hclean.closed⟩
  suffices hfrom : ∀ u : Thread, u.place = t.place → u.marks = t.marks →
      (choice alternatives).ending? u = alternatives.findSome? (·.ending? t) from
    hfrom t rfl rfl
  induction alternatives with
  | nil => exact fun u _ _ => rfl
  | cons first others ih =>
      intro u hplace hmarks
      have hfirst := hwithin first (List.mem_cons_self ..)
      have ih := ih fun r hr => hwithin r (List.mem_cons_of_mem _ hr)
      rw [List.findSome?_cons, ← ending?_same hfirst (hsame u.setOut hplace hmarks)]
      have hrun : (choice (first :: others)).run false u atEnd =
          if (first.lead?.getD .other).lacks u.place then (choice others).run false u atEnd
          else match first.run false u.setOut atEnd with
            | .matched v => .matched v
            | .failed reached marks =>
                (choice others).run false (u.resume false reached marks) atEnd := rfl
      simp only [ending?, hrun]
      by_cases hlacks : (first.lead?.getD .other).lacks u.place = true
      · simp only [hlacks, if_true, run_of_lacks first false u.setOut atEnd hlacks]
        exact ih u hplace hmarks
      · simp only [hlacks, Bool.false_eq_true, if_false]
        cases first.run false u.setOut atEnd with
        | matched v => rfl
        | failed reached marks =>
            refine ih (u.resume false reached marks) hplace ?_
            have hedges : u.marks.edges = [] := by rw [hmarks, hclean]
            exact (Marks.afterGivingUp_of_clean marks hedges).trans hmarks

theorem lead?_sequence (items : List Regex) :
    (sequence items).lead? = items.findSome? lead? := by
  induction items with
  | nil => rfl
  | cons item rest ih =>
      rw [List.findSome?_cons, ← ih]
      change (Regex.seq item (sequence rest)).lead? = _
      simp only [lead?]
      cases item.lead? <;> rfl

/-- One sequence after another is run with the second one as what follows the first. -/
theorem run_sequence_append (first second : List Regex) (looping : Bool) (t : Thread)
    (k : Rest) :
    (sequence (first ++ second)).run looping t k =
      (sequence first).run looping t
        ⟨(sequence second).lead?.getD k.lead, fun u => (sequence second).run looping u k⟩ := by
  induction first generalizing t with
  | nil => rfl
  | cons item rest ih =>
      have hlead : (sequence (rest ++ second)).lead?.getD k.lead =
          (sequence rest).lead?.getD ((sequence second).lead?.getD k.lead) := by
        simp only [lead?_sequence, List.findSome?_append]
        cases rest.findSome? lead? <;> rfl
      have hgo : (fun u => (sequence (rest ++ second)).run looping u k) = fun u =>
          (sequence rest).run looping u
            ⟨(sequence second).lead?.getD k.lead, fun u => (sequence second).run looping u k⟩ :=
        funext ih
      change item.run looping t ⟨(sequence (rest ++ second)).lead?.getD k.lead,
        fun u => (sequence (rest ++ second)).run looping u k⟩ = _
      rw [hlead, hgo]
      rfl

/-- The thread after an item that alternatives can share. -/
def advance? : Regex → Thread → Option Thread
  | .one test, t => t.step? test.accepts
  | .anchor a, t => if a.holds t.place then some t else none
  | .backref number folding, t =>
      (t.marks.text? number t.place.text).bind fun text => t.follow? folding text
  | _, _ => none

theorem run_of_shareable (item : Regex) (h : isShareable item = true) (looping : Bool)
    (t : Thread) (k : Rest) :
    item.run looping t k = match item.advance? t with
      | some u => k.go u
      | none => t.fail := by
  cases item with
  | one test => rfl
  | anchor a =>
      simp only [run, advance?]
      by_cases hholds : a.holds t.place = true
      · simp only [hholds, if_true]
      · simp only [hholds, Bool.false_eq_true, if_false]
  | backref number folding => rfl
  | _ => simp [isShareable] at h

/-- Items that alternatives can share enter no group. -/
theorem marks_advance? (item : Regex) (t u : Thread) (h : item.advance? t = some u) :
    u.marks = t.marks := by
  cases item with
  | one test => exact t.marks_step? u test.accepts h
  | anchor a =>
      simp only [advance?] at h
      by_cases hholds : a.holds t.place = true
      · simp only [hholds, if_true, Option.some.injEq] at h
        rw [h]
      · simp only [hholds, Bool.false_eq_true, if_false] at h
        cases h
  | backref number folding =>
      simp only [advance?] at h
      cases htext : t.marks.text? number t.place.text with
      | none =>
          rw [htext] at h
          cases h
      | some text =>
          rw [htext] at h
          exact t.marks_follow? u folding text h
  | _ => cases h

def advanceAll? : List Regex → Thread → Option Thread
  | [], t => some t
  | item :: rest, t => (item.advance? t).bind (advanceAll? rest)

theorem marks_advanceAll? (items : List Regex) (t u : Thread)
    (h : advanceAll? items t = some u) : u.marks = t.marks := by
  induction items generalizing t with
  | nil =>
      cases h
      rfl
  | cons item rest ih =>
      simp only [advanceAll?] at h
      cases hitem : item.advance? t with
      | none =>
          rw [hitem] at h
          cases h
      | some v =>
          rw [hitem] at h
          exact (ih v h).trans (marks_advance? item t v hitem)

/-- The items that alternatives share are run first, and they have one outcome. -/
theorem ending?_shared (shared rest : List Regex)
    (hshared : ∀ x ∈ shared, isShareable x = true) (t : Thread) :
    (sequence (shared ++ rest)).ending? t =
      (advanceAll? shared t).bind (sequence rest).ending? := by
  induction shared generalizing t with
  | nil => rfl
  | cons item others ih =>
      have hitem := hshared item (List.mem_cons_self ..)
      have ih := ih fun x hx => hshared x (List.mem_cons_of_mem _ hx)
      have hrun : (sequence (item :: others ++ rest)).run false t atEnd =
          item.run false t ⟨(sequence (others ++ rest)).lead?.getD .other,
            fun u => (sequence (others ++ rest)).run false u atEnd⟩ := rfl
      simp only [advanceAll?, ending?, hrun, run_of_shareable item hitem]
      cases item.advance? t with
      | none => rfl
      | some u => exact ih u

/-- The alternatives are what was taken out followed by what remains of each. -/
theorem sharePrefix_spec (first : List Regex) (others : List (List Regex)) :
    first :: others =
        (sharePrefix first others).2.map ((sharePrefix first others).1 ++ ·) ∧
      ∀ x ∈ (sharePrefix first others).1, isShareable x = true := by
  induction first generalizing others with
  | nil => simp [sharePrefix]
  | cons item rest ih =>
      unfold sharePrefix
      by_cases hshared :
          (isShareable item && others.all fun branch => branch.head? == some item) = true
      · simp only [hshared, if_true]
        obtain ⟨hbranches, hshareable⟩ := ih (others.map List.tail)
        rw [Bool.and_eq_true, List.all_eq_true] at hshared
        have hothers : others = (others.map List.tail).map (item :: ·) := by
          rw [List.map_map]
          refine (List.map_id others).symm.trans (List.map_congr_left fun branch hbranch => ?_)
          have hhead := hshared.2 branch hbranch
          cases branch with
          | nil => simp at hhead
          | cons first tail =>
              have hfirst : first = item := by simpa using hhead
              simp [hfirst]
        constructor
        · have hcons : (item :: rest) :: others =
              (rest :: others.map List.tail).map (item :: ·) := by
            rw [List.map_cons, ← hothers]
          rw [hcons, hbranches, List.map_map]
          rfl
        · intro x hx
          rcases List.mem_cons.mp hx with rfl | hx
          · exact hshared.1
          · exact hshareable x hx
      · simp only [hshared, Bool.false_eq_true, if_false]
        simp

theorem setItems?_eq_some (branch : List Regex) (items : List SetItem)
    (h : setItems? branch = some items) : ∃ test, branch = [.one test] := by
  unfold setItems? at h
  split at h
  · exact ⟨_, rfl⟩
  · exact ⟨_, rfl⟩
  · cases h

theorem of_mapM_setItems? (branches : List (List Regex)) (items : List (List SetItem))
    (h : branches.mapM setItems? = some items) :
    ∀ branch ∈ branches, ∃ test, branch = [.one test] := by
  induction branches generalizing items with
  | nil => simp
  | cons first others ih =>
      rw [List.mapM_cons] at h
      obtain ⟨firstItems, hfirst, hrest⟩ := Option.bind_eq_some_iff.mp h
      obtain ⟨otherItems, hothers, _⟩ := Option.bind_eq_some_iff.mp hrest
      exact List.forall_mem_cons.mpr ⟨setItems?_eq_some first _ hfirst, ih _ hothers⟩

/-- What several alternatives amount to: the items that all begin with, and a choice between the
remainders, or a set if every remainder is a test of one character. -/
theorem unite_cases (flags : Flags) (first second : List Regex) (others : List (List Regex)) :
    ∃ (shared : List Regex) (tails : List (List Regex)),
      first :: second :: others = tails.map (shared ++ ·) ∧
      (∀ x ∈ shared, isShareable x = true) ∧
      (unite flags (first :: second :: others) = shared ++ [.choice (tails.map .sequence)] ∨
        ∃ set, unite flags (first :: second :: others) = shared ++ [.one (.set set)] ∧
          ∀ tail ∈ tails, ∃ test, tail = [.one test]) := by
  obtain ⟨hbranches, hshareable⟩ := sharePrefix_spec first (second :: others)
  refine ⟨_, _, hbranches, hshareable, ?_⟩
  simp only [unite]
  cases hitems : (sharePrefix first (second :: others)).2.mapM setItems? with
  | none => exact Or.inl rfl
  | some items => exact Or.inr ⟨_, rfl, of_mapM_setItems? _ items hitems⟩

theorem numbersWithin_sequence (limit : Nat) (items : List Regex) :
    (sequence items).numbersWithin limit ↔ ∀ x ∈ items, x.numbersWithin limit := by
  induction items with
  | nil => simp [sequence, numbersWithin]
  | cons item rest ih =>
      rw [List.forall_mem_cons, ← ih]
      rfl

/-- Whether no set of characters can take the place of some alternatives: one of them does not end
with a test of a character. -/
def StaysChoice (branches : List (List Regex)) : Prop :=
  ∃ branch ∈ branches, ∀ test, branch.getLast? ≠ some (.one test)

/-- What some alternatives amount to matches as the first of them that matches. -/
theorem ending?_unite (flags : Flags) (limit : Nat) (branches : List (List Regex))
    (hwithin : ∀ branch ∈ branches, ∀ x ∈ branch, x.numbersWithin limit)
    (hchoice : StaysChoice branches) (t : Thread) (hclean : t.marks = {}) :
    (sequence (unite flags branches)).ending? t =
      branches.findSome? fun branch => (sequence branch).ending? t := by
  match branches, hwithin, hchoice with
  | [], _, hchoice => simp [StaysChoice] at hchoice
  | [branch], _, _ =>
      simp only [unite, List.findSome?_cons, List.findSome?_nil]
      cases (sequence branch).ending? t <;> rfl
  | first :: second :: others, hwithin, hchoice =>
      obtain ⟨shared, tails, hbranches, hshareable, hunite⟩ :=
        unite_cases flags first second others
      have hunite : unite flags (first :: second :: others) =
          shared ++ [.choice (tails.map .sequence)] := by
        rcases hunite with hunite | ⟨set, _, htails⟩
        · exact hunite
        · obtain ⟨branch, hmem, hlast⟩ := hchoice
          rw [hbranches] at hmem
          obtain ⟨tail, htail, rfl⟩ := List.mem_map.mp hmem
          obtain ⟨test, rfl⟩ := htails tail htail
          exact absurd (List.getLast?_concat ..) (hlast test)
      rw [hunite, ending?_shared _ _ hshareable, hbranches, List.findSome?_map]
      have hfun : ((fun branch => (sequence branch).ending? t) ∘ (shared ++ ·)) = fun tail =>
          (advanceAll? shared t).bind (sequence tail).ending? :=
        funext fun tail => ending?_shared shared tail hshareable t
      rw [hfun]
      cases hadvance : advanceAll? shared t with
      | none => exact (List.findSome?_eq_none_iff.mpr fun tail _ => rfl).symm
      | some u =>
          have hmarks := marks_advanceAll? shared t u hadvance
          have htails : ∀ r ∈ tails.map sequence, r.numbersWithin limit := by
            intro r hr
            obtain ⟨tail, htail, rfl⟩ := List.mem_map.mp hr
            refine (numbersWithin_sequence limit tail).mpr fun x hx => ?_
            refine hwithin (shared ++ tail) ?_ x (List.mem_append_right _ hx)
            rw [hbranches]
            exact List.mem_map.mpr ⟨tail, htail, rfl⟩
          change (choice (tails.map sequence)).ending? u = _
          rw [ending?_choice limit _ htails u (hmarks ▸ hclean), List.findSome?_map]
          rfl

/-- At the start of a text the sign for it changes nothing. -/
theorem ending?_startAnchor (everyLine : Bool) (items : List Regex) (t : Thread)
    (hstart : t.place.before = []) :
    (sequence (.anchor (.lineStart everyLine) :: items)).ending? t =
      (sequence items).ending? t := by
  have hholds : (Anchor.lineStart everyLine).holds t.place = true := by
    simp [Anchor.holds, hstart]
  have hshared := ending?_shared [.anchor (.lineStart everyLine)] items (by simp [isShareable]) t
  simpa [advanceAll?, advance?, hholds] using hshared

/-- Where a whole text is to be matched, the sign for its end changes nothing. -/
theorem ending?_endAnchor (everyLine : Bool) (items : List Regex) (t : Thread) :
    (sequence (items ++ [.anchor (.lineEnd everyLine)])).ending? t =
      (sequence items).ending? t := by
  have hgo : (fun u => (sequence [.anchor (.lineEnd everyLine)]).run false u atEnd) =
      atEnd.go := by
    funext u
    change (if (Anchor.lineEnd everyLine).holds u.place then atEnd.go u else u.fail) = atEnd.go u
    cases hend : u.place.after.isEmpty with
    | true => simp [Anchor.holds, hend]
    | false => simp only [atEnd, hend, Bool.false_eq_true, if_false, ite_self]
  unfold ending?
  rw [run_sequence_append, hgo]
  rfl

end Regex

namespace Marks

def recorded (group first last : Nat) (m : Marks) : Marks :=
  (m.opening group first).closing group last

def marked (group index : Nat) (m : Marks) : Marks :=
  (m.opening group index).closing group index

theorem setEdge_beyond (edge index : Nat) (edges : List (Option Nat))
    (h : edges.length ≤ edge) :
    setEdge edge index edges =
      edges ++ List.replicate (edge - edges.length) none ++ [some index] := by
  unfold setEdge
  rw [if_neg (by omega)]

/-- The record after a group that comes after all others. -/
theorem edges_recorded {limit : Nat} {m : Marks} (hbound : m.edges.length ≤ 2 * limit)
    (first last : Nat) :
    (m.recorded (limit + 1) first last).edges =
      m.edges ++ List.replicate (2 * limit - m.edges.length) none ++
        [some first, some last] := by
  have hstart : startEdge (limit + 1) = 2 * limit := rfl
  simp only [recorded, closing, opening, hstart]
  rw [setEdge_beyond (2 * limit) first m.edges hbound, setEdge_beyond]
  · simp only [List.length_append, List.length_replicate, List.length_cons, List.length_nil]
    have hgap : 2 * limit + 1 - (m.edges.length + (2 * limit - m.edges.length) + (0 + 1)) = 0 := by
      omega
    rw [hgap]
    simp
  · simp only [List.length_append, List.length_replicate, List.length_cons, List.length_nil]
    omega

theorem edges_marked {limit : Nat} {m : Marks} (hbound : m.edges.length ≤ 2 * limit)
    (index : Nat) :
    (m.marked (limit + 1) index).edges =
      m.edges ++ List.replicate (2 * limit - m.edges.length) none ++
        [some index, some index] :=
  edges_recorded hbound index index

theorem join_getElem?_padded (edges : List (Option Nat)) (count edge : Nat) :
    ((edges ++ List.replicate count none)[edge]?).join = (edges[edge]?).join := by
  by_cases h : edge < edges.length
  · rw [List.getElem?_append_left h]
  · rw [List.getElem?_append_right (by omega), List.getElem?_eq_none (l := edges) (by omega),
      List.getElem?_replicate]
    by_cases hcount : edge - edges.length < count <;> simp [hcount]

/-- What a record says of its groups is not changed by a later group. -/
theorem edges?_recorded {limit : Nat} {m : Marks} (hbound : m.edges.length ≤ 2 * limit)
    (first last number : Nat) (hpositive : 0 < number) (hnumber : number ≤ limit) :
    (m.recorded (limit + 1) first last).edges? number = m.edges? number := by
  have hedge : ∀ edge, edge < 2 * limit →
      ((m.recorded (limit + 1) first last).edges[edge]?).join = (m.edges[edge]?).join := by
    intro edge hedge
    rw [edges_recorded hbound, List.getElem?_append_left, join_getElem?_padded]
    simp only [List.length_append, List.length_replicate]
    omega
  have hfirst := hedge (startEdge number) (by unfold startEdge; omega)
  have hlast := hedge (startEdge number + 1) (by unfold startEdge; omega)
  simp only [edges?, hfirst, hlast]

theorem edges?_marked {limit : Nat} {m : Marks} (hbound : m.edges.length ≤ 2 * limit)
    (index number : Nat) (hpositive : 0 < number) (hnumber : number ≤ limit) :
    (m.marked (limit + 1) index).edges? number = m.edges? number :=
  edges?_recorded hbound index index number hpositive hnumber

theorem edges?_recorded_self {limit : Nat} {m : Marks} (hbound : m.edges.length ≤ 2 * limit)
    (first last : Nat) :
    (m.recorded (limit + 1) first last).edges? (limit + 1) = some (first, last) := by
  have hstart : startEdge (limit + 1) =
      (m.edges ++ List.replicate (2 * limit - m.edges.length) none).length := by
    simp only [startEdge, List.length_append, List.length_replicate]
    omega
  unfold edges?
  rw [edges_recorded hbound, hstart, List.getElem?_append_right (Nat.le_refl _),
    List.getElem?_append_right (by omega)]
  simp

theorem edges?_marked_self {limit : Nat} {m : Marks} (hbound : m.edges.length ≤ 2 * limit)
    (index : Nat) : (m.marked (limit + 1) index).edges? (limit + 1) = some (index, index) :=
  edges?_recorded_self hbound index index

end Marks

namespace Regex

/-- The empty group that marks the end of an alternative. -/
def marker (group : Nat) : Regex := .capture group .empty

/-- What goes on after the marker. -/
def atMarkedEnd (group : Nat) : Rest :=
  ⟨.other, fun u => atEnd.go ((u.opening group).closing group)⟩

theorem ending?_marker (limit : Nat) (items : List Regex)
    (hwithin : ∀ x ∈ items, x.numbersWithin limit) (t : Thread) (hclean : t.marks = {}) :
    ((sequence items).ending? t = none ∧
      (sequence (items ++ [marker (limit + 1)])).ending? t = none) ∨
    ∃ m index, (sequence items).ending? t = some m ∧ m.Within limit ∧
      (sequence (items ++ [marker (limit + 1)])).ending? t = some (m.marked (limit + 1) index) := by
  have hmarked : Rest.Similar limit t.known
      (fun u v => u.marks.Within limit ∧ ∃ index, v.marks = u.marks.marked (limit + 1) index)
      atEnd (atMarkedEnd (limit + 1)) := by
    refine ⟨rfl, fun u u' hu _ => ?_⟩
    simp only [atMarkedEnd, atEnd]
    have hplace : ((u'.opening (limit + 1)).closing (limit + 1)).place = u.place := hu.place
    have hmarks : ((u'.opening (limit + 1)).closing (limit + 1)).marks =
        u.marks.marked (limit + 1) u.place.index := by
      simp only [Thread.opening, Thread.closing, hu.marks, hu.place, Marks.marked]
    rw [hplace]
    cases u.place.after.isEmpty with
    | true => exact ⟨⟨hu.bound, hu.closed⟩, u.place.index, hmarks⟩
    | false =>
        have hedges := Marks.edges_marked hu.bound u.place.index
        rw [← hmarks] at hedges
        refine ⟨Nat.le_refl _, ?_, ?_⟩
        · rw [hedges]
          simp only [List.length_append, Thread.known]
          omega
        · rw [hedges]
          simp [Thread.known]
  have hrun : (sequence (items ++ [marker (limit + 1)])).run false t atEnd =
      (sequence items).run false t (atMarkedEnd (limit + 1)) := run_sequence_append ..
  have hsequence := (numbersWithin_sequence limit items).mpr hwithin
  have ht := Thread.Same.of_clean limit hclean
  unfold ending?
  rw [hrun]
  rcases (run_steady limit _ hsequence false _ t t _ _ ht hmarked).cases with
    ⟨u, v, hu, hv, hbound, index, hmarks⟩ | ⟨reached, m, reached', m', hu, hv, _, _⟩
  · rw [hu, hv]
    exact Or.inr ⟨u.marks, index, rfl, hbound, congrArg some hmarks⟩
  · rw [hu, hv]
    exact Or.inl ⟨rfl, rfl⟩

end Regex

end NamedRoutes
