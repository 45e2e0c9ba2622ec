import NamedRoutes.Proofs.Regex.Merging

/-!
What a match of some merged texts tells. The first text that matches by itself decides it. The
groups of that text hold what they hold when it matches by itself, and the group that was closed
last belongs to it, unless no group was closed at all.
-/

namespace NamedRoutes

namespace Marks

theorem edges?_beyond {limit : Nat} {m : Marks} (hbound : m.edges.length ≤ 2 * limit)
    (number : Nat) (hnumber : limit < number) : m.edges? number = none := by
  have hnone : m.edges[startEdge number]? = none := by
    apply List.getElem?_eq_none
    unfold startEdge
    omega
  unfold edges?
  rw [hnone]
  rfl

theorem edges?_shift_below (base number : Nat) (m : Marks) (hpositive : 0 < number)
    (hnumber : number ≤ base) : (m.shift base).edges? number = none := by
  have hnone : ((m.shift base).edges[startEdge number]?).join = none := by
    unfold shift
    cases hedges : m.edges with
    | nil => rfl
    | cons edge rest =>
        rw [shiftEdges_of_ne_nil base (by simp)]
        have hlt : startEdge number < 2 * base := by
          unfold startEdge
          omega
        rw [List.getElem?_append_left (by simpa using hlt), List.getElem?_replicate, if_pos hlt]
        rfl
  unfold edges?
  rw [hnone]

theorem length_edges_marked {limit : Nat} {m : Marks} (hbound : m.edges.length ≤ 2 * limit)
    (index : Nat) : (m.marked (limit + 1) index).edges.length = 2 * (limit + 1) := by
  rw [edges_marked hbound]
  simp only [List.length_append, List.length_replicate, List.length_cons, List.length_nil]
  omega

end Marks

namespace Regex.Part

/-- Whether a record of a text with its marker comes from a record of the text. Alternatives before
the last one have no marker. -/
def Stems (p : Part) (m found : Marks) : Prop :=
  (∃ index, found = m.marked (p.count + 1) index) ∨
    (p.reader.settled.top.branches ≠ [] ∧ found = m)

/-- A text with its marker matches if and only if the text does. -/
theorem marked?_cases (p : Part) (path : List Char) :
    (p.reader.own? path = none ∧ p.marked? path = none) ∨
    ∃ m found, p.reader.own? path = some m ∧ m.Within p.count ∧ p.marked? path = some found ∧
      p.Stems m found := by
  have hwithin := p.own.within
  unfold Reader.own? marked? branches
  rw [Frame.alternatives_eq] at hwithin ⊢
  rw [List.findSome?_append, List.findSome?_append]
  cases hfirst : p.reader.settled.top.branches.reverse.findSome? fun branch =>
      (sequence branch).ending? (.start path) with
  | some m =>
      obtain ⟨branch, hbranch, hm⟩ := List.exists_of_findSome?_eq_some hfirst
      have hsequence := (numbersWithin_sequence p.count branch).mpr
        (hwithin branch (List.mem_append_left _ hbranch))
      refine Or.inr ⟨m, m, rfl, ending?_bound hsequence rfl hm, rfl, Or.inr ⟨?_, rfl⟩⟩
      intro hnil
      rw [hnil] at hbranch
      cases hbranch
  | none =>
      have hlast := hwithin p.reader.settled.top.branch
        (List.mem_append_right _ (List.mem_singleton_self _))
      simp only [Option.none_or, List.findSome?_cons, List.findSome?_nil]
      rcases ending?_marker p.count _ hlast (.start path) rfl with
        ⟨hnone, hmarked⟩ | ⟨m, index, hsome, hbound, hmarked⟩
      · rw [hnone, hmarked]
        exact Or.inl ⟨rfl, rfl⟩
      · rw [hsome, hmarked]
        exact Or.inr ⟨m, _, rfl, hbound, rfl, Or.inl ⟨index, rfl⟩⟩

/-- The first of some texts that matches decides what the whole matches with. -/
theorem merged?_cases (path : List Char) (base : Nat) (parts : List Part) :
    ((∀ p ∈ parts, p.reader.own? path = none) ∧ merged? path base parts = none) ∨
    ∃ before p after m found, parts = before ++ p :: after ∧
      (∀ q ∈ before, q.reader.own? path = none) ∧ p.reader.own? path = some m ∧
      m.Within p.count ∧ p.Stems m found ∧
      merged? path base parts = some (found.shift (base + total before)) := by
  induction parts generalizing base with
  | nil => exact Or.inl ⟨List.forall_mem_nil _, rfl⟩
  | cons p rest ih =>
      rcases p.marked?_cases path with ⟨hown, hmarked⟩ | ⟨m, found, hown, hbound, hmarked, hstems⟩
      · rw [merged?, hmarked]
        rcases ih (base + (p.count + 1)) with
          ⟨hnone, hmerged⟩ | ⟨before, q, after, m, found, rfl, hbefore, hq, hbound, hstems, hmerged⟩
        · exact Or.inl ⟨List.forall_mem_cons.mpr ⟨hown, hnone⟩, hmerged⟩
        · refine Or.inr ⟨p :: before, q, after, m, found, rfl,
            List.forall_mem_cons.mpr ⟨hown, hbefore⟩, hq, hbound, hstems, ?_⟩
          rw [Nat.add_assoc] at hmerged
          exact hmerged
      · refine Or.inr ⟨[], p, rest, m, found, rfl, List.forall_mem_nil _, hown, hbound, hstems, ?_⟩
        rw [merged?, hmarked]
        rfl

variable {p : Part} {m found : Marks}

theorem Stems.edges? (h : p.Stems m found) (hbound : m.Within p.count) (number : Nat)
    (hpositive : 0 < number) (hnumber : number ≤ p.count) :
    found.edges? number = m.edges? number := by
  rcases h with ⟨index, rfl⟩ | ⟨_, rfl⟩
  · exact Marks.edges?_marked hbound.edges index number hpositive hnumber
  · rfl

/-- The groups of the text hold what they hold when it matches by itself. -/
theorem Stems.text? (h : p.Stems m found) (hbound : m.Within p.count) (base number : Nat)
    (path : List Char) (hpositive : 0 < number) (hnumber : number ≤ p.count) :
    (found.shift base).text? (number + base) path = m.text? number path := by
  rw [Marks.text?_shift base number path found hpositive]
  unfold Marks.text? Marks.span?
  rw [h.edges? hbound number hpositive hnumber]

/-- The group that was closed last is one of the text or its marker. -/
theorem Stems.lastClosed (h : p.Stems m found) (hbound : m.Within p.count) (base : Nat) :
    (found.shift base).lastClosed = 0 ∨
      (base < (found.shift base).lastClosed ∧
        (found.shift base).lastClosed ≤ base + p.count + 1) := by
  have hclosed := hbound.lastClosed
  have hle : found.lastClosed ≤ p.count + 1 := by
    rcases h with ⟨index, rfl⟩ | ⟨_, rfl⟩
    · exact Nat.le_refl _
    · omega
  unfold Marks.shift
  by_cases hzero : found.lastClosed = 0
  · simp [hzero]
  · simp only [hzero, if_false]
    omega

/-- A text with one alternative closes its marker last. -/
theorem Stems.lastClosed_ne_zero (h : p.Stems m found) (base : Nat)
    (hsingle : p.reader.settled.top.branches = []) : (found.shift base).lastClosed ≠ 0 := by
  rcases h with ⟨index, rfl⟩ | ⟨hbranches, _⟩
  · simp [Marks.shift, Marks.marked, Marks.closing]
  · exact absurd hsingle hbranches

/-- A group of the whole ends before it starts if and only if one of the text by itself does. -/
theorem Stems.isReversed_iff (h : p.Stems m found) (hbound : m.Within p.count) (base number : Nat)
    (hpositive : 0 < number) :
    (found.shift base).isReversed number = true ↔
      ∃ own, 0 < own ∧ own ≤ p.count ∧ number = own + base ∧ m.isReversed own = true := by
  have hsame : ∀ own, 0 < own → own ≤ p.count → found.isReversed own = m.isReversed own := by
    intro own hown hle
    unfold Marks.isReversed
    rw [h.edges? hbound own hown hle]
  constructor
  · intro hreversed
    by_cases hbelow : number ≤ base
    · unfold Marks.isReversed at hreversed
      rw [Marks.edges?_shift_below base number found hpositive hbelow] at hreversed
      cases hreversed
    obtain ⟨own, rfl⟩ : ∃ own, number = own + base := ⟨number - base, by omega⟩
    have hown : 0 < own := by omega
    rw [Marks.isReversed_shift base own found hown] at hreversed
    by_cases hle : own ≤ p.count
    · exact ⟨own, hown, hle, rfl, (hsame own hown hle).symm.trans hreversed⟩
    -- Behind the groups of the text there is at most the marker, and it is empty.
    unfold Marks.isReversed at hreversed
    rcases h with ⟨index, rfl⟩ | ⟨_, rfl⟩
    · by_cases hmarker : own = p.count + 1
      · rw [hmarker, Marks.edges?_marked_self hbound.edges] at hreversed
        simp at hreversed
      · have hlength := Marks.length_edges_marked hbound.edges index
        rw [Marks.edges?_beyond (Nat.le_of_eq hlength) own (by omega)] at hreversed
        cases hreversed
    · rw [Marks.edges?_beyond hbound.edges own (by omega)] at hreversed
      cases hreversed
  · rintro ⟨own, hown, hle, rfl, hreversed⟩
    rw [Marks.isReversed_shift base own found hown, hsame own hown hle]
    exact hreversed

end Regex.Part

end NamedRoutes
