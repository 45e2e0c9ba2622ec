import NamedRoutes.Proofs.Chunk.Entries

/-!
Cutting a table into chunks. The pieces one after the other are the table again, and none is empty,
so that the chunks answer in turn what their entries answer one by one. Sizes from one on always
give pieces, as long as no quotient by them is too small for double precision.
-/

namespace NamedRoutes

namespace Chunk

variable {α β : Type}

theorem cut_cons (bound length : Nat) (item : α) (rest : List α) :
    cut (bound + 1) length (item :: rest) =
      (item :: rest).take length :: cut bound length ((item :: rest).drop length) := rfl

theorem flatten_cut (bound length : Nat) (items : List α) (hlength : 0 < length)
    (hbound : items.length ≤ bound) : (cut bound length items).flatten = items := by
  induction bound generalizing items with
  | zero =>
      have hnil : items = [] := List.length_eq_zero_iff.mp (by omega)
      rw [hnil]
      rfl
  | succ bound ih =>
      cases items with
      | nil => rfl
      | cons item rest =>
          have hdrop : ((item :: rest).drop length).length ≤ bound := by
            rw [List.length_drop]
            simp only [List.length_cons] at hbound ⊢
            omega
          rw [cut_cons, List.flatten_cons, ih _ hdrop, List.take_append_drop]

theorem ne_nil_of_mem_cut (bound length : Nat) (items : List α) (hlength : 0 < length) :
    ∀ piece ∈ cut bound length items, piece ≠ [] := by
  induction bound generalizing items with
  | zero => exact List.forall_mem_nil _
  | succ bound ih =>
      cases items with
      | nil => exact List.forall_mem_nil _
      | cons item rest =>
          rw [cut_cons]
          refine List.forall_mem_cons.mpr ⟨?_, ih _⟩
          obtain ⟨length, rfl⟩ : ∃ n, length = n + 1 := ⟨length - 1, by omega⟩
          simp

theorem cut_map (f : α → β) (bound length : Nat) (items : List α) :
    cut bound length (items.map f) = (cut bound length items).map (List.map f) := by
  induction bound generalizing items with
  | zero => rfl
  | succ bound ih =>
      cases items with
      | nil => rfl
      | cons item rest =>
          have hrest := ih ((item :: rest).drop length)
          rw [List.map_drop] at hrest
          rw [List.map_cons, cut_cons, cut_cons, List.map_cons, List.map_take, ← hrest]
          rfl

theorem ceilDiv_pos {n d : Nat} (hn : 0 < n) (hd : 0 < d) : 0 < ceilDiv n d :=
  Nat.div_pos (by omega) hd

/-- The only errors of splitting a list are those of a size by which there are no pieces. -/
theorem split_error {items : List α} {size : Size} {e : Error} (h : split items size = .error e) :
    e = .noPieces ∨ e = .unknownPieces := by
  unfold split at h
  by_cases hempty : items.length = 0
  · simp only [hempty, if_true] at h
    cases h
  simp only [hempty, if_false] at h
  cases hpieces : size.pieces items.length with
  | ok count =>
      simp only [hpieces, bind, Except.bind] at h
      cases count <;> cases h
  | error cause =>
      simp only [hpieces, bind, Except.bind] at h
      cases h
      unfold Size.pieces at hpieces
      split at hpieces
      · split at hpieces
        · exact Or.inl (Except.error.inj hpieces).symm
        · split at hpieces <;> cases hpieces
      · simp only at hpieces
        split at hpieces
        · exact Or.inr (Except.error.inj hpieces).symm
        · split at hpieces
          · exact Or.inl (Except.error.inj hpieces).symm
          · cases hpieces
      · split at hpieces
        · cases hpieces
        · exact Or.inl (Except.error.inj hpieces).symm

/-- What a list is split into: nothing at all, or pieces that make it up. -/
theorem split_eq_ok {items : List α} {size : Size} {pieces : List (List α)}
    (h : split items size = .ok pieces) :
    (pieces = [] ∨ pieces.flatten = items) ∧ ∀ piece ∈ pieces, piece ≠ [] := by
  unfold split at h
  by_cases hempty : items.length = 0
  · simp only [hempty, if_true] at h
    cases h
    exact ⟨Or.inl rfl, List.forall_mem_nil _⟩
  simp only [hempty, if_false] at h
  cases hpieces : size.pieces items.length with
  | error e => simp [hpieces, bind, Except.bind] at h
  | ok count =>
      simp only [hpieces, bind, Except.bind] at h
      cases count with
      | zero =>
          cases h
          exact ⟨Or.inl rfl, List.forall_mem_nil _⟩
      | succ count =>
          cases h
          have hlength := ceilDiv_pos (Nat.pos_of_ne_zero hempty) (Nat.succ_pos count)
          exact ⟨Or.inr (flatten_cut _ _ _ hlength (Nat.le_refl _)),
            ne_nil_of_mem_cut _ _ _ hlength⟩

theorem split_map (f : α → β) (items : List α) (size : Size) :
    split (items.map f) size = (split items size).map (List.map (List.map f)) := by
  unfold split
  rw [List.length_map]
  by_cases hempty : items.length = 0
  · simp only [hempty, if_true]
    rfl
  simp only [hempty, if_false]
  cases size.pieces items.length with
  | error e => rfl
  | ok count =>
      cases count with
      | zero => rfl
      | succ count => exact congrArg Except.ok (cut_map f _ _ items)

/-- A size that is a whole number from one on, by which no quotient counts as zero. -/
inductive Size.IsOrdinary : Size → Prop where
  | whole {n : Int} (hone : 1 ≤ n) (htop : n < Int.pow 2 smallestQuotientPower) :
      IsOrdinary (.whole n)
  | truth : IsOrdinary (.truth true)

theorem lt_mul_pow {n : Int} {count power : Nat} (hn : n < Int.pow 2 power) (hcount : 0 < count) :
    n < count * Int.pow 2 power := by
  have hpow : Int.pow 2 power = (Nat.pow 2 power : Nat) := (Int.natCast_pow 2 power).symm
  rw [hpow] at hn ⊢
  have hmul := Nat.mul_le_mul_right (Nat.pow 2 power) hcount
  rw [Nat.one_mul] at hmul
  have hright : ((count * Nat.pow 2 power : Nat) : Int) = count * (Nat.pow 2 power : Nat) :=
    Int.natCast_mul _ _
  omega

theorem Size.pieces_whole {n : Int} (hone : 1 ≤ n) (htop : n < Int.pow 2 smallestQuotientPower)
    {count : Nat}
    (hcount : 0 < count) : (Size.whole n).pieces count = .ok (ceilDiv count n.toNat) := by
  have hlarge := lt_mul_pow htop hcount
  have hsound : ¬ (n = 0 ∨ (count : Int) < -n ∨
      (count : Int) * Int.pow 2 smallestQuotientPower ≤ n) := by
    generalize (count : Int) * Int.pow 2 smallestQuotientPower = product at hlarge
    omega
  have hpositive : ¬ n < 0 := by omega
  simp only [Size.pieces, hpositive, Bool.or_eq_true, decide_eq_true_eq, if_false]
  rw [if_neg]
  intro hwrong
  apply hsound
  rcases hwrong with (hzero | hbelow) | htiny
  · exact Or.inl hzero
  · exact Or.inr (Or.inl hbelow)
  · exact Or.inr (Or.inr htiny)

theorem Size.IsOrdinary.pieces {size : Size} (h : size.IsOrdinary) {count : Nat}
    (hcount : 0 < count) : ∃ number, 0 < number ∧ size.pieces count = .ok number := by
  cases h with
  | truth => exact ⟨count, hcount, rfl⟩
  | @whole n hone htop =>
      exact ⟨ceilDiv count n.toNat, ceilDiv_pos hcount (by omega),
        Size.pieces_whole hone htop hcount⟩

/-- An ordinary size always gives pieces, and they make up the list. -/
theorem split_of_isOrdinary {size : Size} (hsize : size.IsOrdinary) (items : List α) :
    ∃ pieces, split items size = .ok pieces ∧ pieces.flatten = items ∧
      ∀ piece ∈ pieces, piece ≠ [] := by
  by_cases hempty : items.length = 0
  · have hnil : items = [] := List.length_eq_zero_iff.mp hempty
    rw [hnil]
    exact ⟨[], rfl, rfl, List.forall_mem_nil _⟩
  obtain ⟨number, hnumber, hpieces⟩ := hsize.pieces (Nat.pos_of_ne_zero hempty)
  have hlength := ceilDiv_pos (Nat.pos_of_ne_zero hempty) hnumber
  refine ⟨cut items.length (ceilDiv items.length number) items, ?_,
    flatten_cut _ _ _ hlength (Nat.le_refl _), ne_nil_of_mem_cut _ _ _ hlength⟩
  unfold split
  simp only [hempty, if_false, hpieces, bind, Except.bind]
  cases number with
  | zero => omega
  | succ number => rfl

end Chunk

end NamedRoutes
