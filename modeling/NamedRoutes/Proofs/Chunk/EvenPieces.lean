import Mathlib.Algebra.Order.Floor.Div
import NamedRoutes.Proofs.Chunk.RoundedQuotient
import NamedRoutes.Proofs.Chunk.Splitting

/-!
How evenly a table is cut into chunks. The length of the pieces is the quotient of the number of
items by a number of pieces that is a quotient rounded up itself; cutting by that length gives that
number of pieces again, so that none is left out and none is too long. There is no cutting into
fewer pieces of the allowed size, and none into as many of which the longest is shorter.
-/

namespace NamedRoutes

namespace Chunk

variable {α : Type}

theorem ceilDiv_le_iff {n d k : Nat} (hd : 0 < d) : ceilDiv n d ≤ k ↔ n ≤ d * k := by
  have hceil : ceilDiv n d = n ⌈/⌉ d := by
    rw [Nat.ceilDiv_eq_add_pred_div, Nat.add_sub_assoc hd]
    rfl
  rw [hceil]
  exact ceilDiv_le_iff_le_mul hd

theorem le_mul_ceilDiv (n : Nat) {d : Nat} (hd : 0 < d) : n ≤ d * ceilDiv n d :=
  (ceilDiv_le_iff hd).mp (Nat.le_refl _)

theorem ceil_quotient (n : Nat) {d : Nat} (hd : 0 < d) : ⌈(n / d : ℚ)⌉₊ = ceilDiv n d := by
  have hdpos : (0 : ℚ) < d := by exact_mod_cast hd
  refine eq_of_forall_ge_iff fun k => ?_
  rw [Nat.ceil_le, div_le_iff₀' hdpos, ceilDiv_le_iff hd]
  exact_mod_cast Iff.rfl

/-- The length of pieces is at most the size that gave their number. -/
theorem ceilDiv_ceilDiv_le {n size : Nat} (hn : 0 < n) (hsize : 0 < size) :
    ceilDiv n (ceilDiv n size) ≤ size := by
  rw [ceilDiv_le_iff (ceilDiv_pos hn hsize), Nat.mul_comm]
  exact le_mul_ceilDiv n hsize

/-- By the length of the pieces, there are as many of them as planned. -/
theorem ceilDiv_ceilDiv {n size : Nat} (hn : 0 < n) (hsize : 0 < size) :
    ceilDiv n (ceilDiv n (ceilDiv n size)) = ceilDiv n size := by
  have hcount := ceilDiv_pos hn hsize
  have hlength := ceilDiv_pos hn hcount
  apply Nat.le_antisymm
  · rw [ceilDiv_le_iff hlength, Nat.mul_comm]
    exact le_mul_ceilDiv n hcount
  · rw [ceilDiv_le_iff hsize]
    calc
      n ≤ ceilDiv n (ceilDiv n size) * ceilDiv n (ceilDiv n (ceilDiv n size)) :=
        le_mul_ceilDiv n hlength
      _ ≤ size * ceilDiv n (ceilDiv n (ceilDiv n size)) :=
        Nat.mul_le_mul_right _ (ceilDiv_ceilDiv_le hn hsize)

theorem length_cut (bound length : Nat) (items : List α) (hlength : 0 < length)
    (hbound : items.length ≤ bound) :
    (cut bound length items).length = ceilDiv items.length length := by
  refine eq_of_forall_ge_iff fun k => ?_
  rw [ceilDiv_le_iff hlength]
  induction bound generalizing items k with
  | zero =>
      have hnil : items = [] := List.length_eq_zero_iff.mp (by omega)
      simp [hnil, cut]
  | succ bound ih =>
      cases items with
      | nil => simp [cut]
      | cons item rest =>
          rw [cut_cons, List.length_cons]
          cases k with
          | zero => simp
          | succ k =>
              have hdrop : ((item :: rest).drop length).length = (item :: rest).length - length :=
                List.length_drop
              have hrest : ((item :: rest).drop length).length ≤ bound := by
                rw [List.length_cons] at hbound hdrop
                omega
              rw [Nat.add_le_add_iff_right, ih _ hrest k, hdrop,
                Nat.sub_le_iff_le_add, Nat.mul_succ]

theorem length_le_of_mem_cut (bound length : Nat) (items : List α) :
    ∀ piece ∈ cut bound length items, piece.length ≤ length := by
  induction bound generalizing items with
  | zero => exact List.forall_mem_nil _
  | succ bound ih =>
      cases items with
      | nil => exact List.forall_mem_nil _
      | cons item rest =>
          rw [cut_cons]
          exact List.forall_mem_cons.mpr ⟨List.length_take_le _ _, ih _⟩

/-- Only the last piece may be shorter than the length that was asked for. -/
theorem length_of_mem_dropLast_cut (bound length : Nat) (items : List α) :
    ∀ piece ∈ (cut bound length items).dropLast, piece.length = length := by
  induction bound generalizing items with
  | zero => exact List.forall_mem_nil _
  | succ bound ih =>
      cases items with
      | nil => exact List.forall_mem_nil _
      | cons item rest =>
          rw [cut_cons]
          cases hmore : cut bound length ((item :: rest).drop length) with
          | nil => exact List.forall_mem_nil _
          | cons next others =>
              rw [List.dropLast_cons_cons, ← hmore]
              refine List.forall_mem_cons.mpr ⟨?_, ih _⟩
              have hdrop : (item :: rest).drop length ≠ [] := by
                intro hnil
                rw [hnil] at hmore
                cases bound <;> cases hmore
              rw [List.length_take]
              have := List.length_drop ▸ List.length_pos_of_ne_nil hdrop
              omega

theorem length_flatten_le (length : Nat) (pieces : List (List α))
    (h : ∀ piece ∈ pieces, piece.length ≤ length) :
    pieces.flatten.length ≤ length * pieces.length := by
  rw [List.length_flatten, Nat.mul_comm]
  simpa using List.sum_le_card_nsmul (pieces.map List.length) length (by simpa using h)

/-- Some piece is at least as long as all would be if they were alike. -/
theorem exists_ceilDiv_le_length (pieces : List (List α)) (hpieces : 0 < pieces.flatten.length) :
    ∃ piece ∈ pieces, ceilDiv pieces.flatten.length pieces.length ≤ piece.length := by
  by_contra hshort
  push Not at hshort
  have hmany : 0 < pieces.length := by
    rw [List.length_pos_iff]
    rintro rfl
    exact Nat.lt_irrefl _ hpieces
  have hlength := ceilDiv_pos hpieces hmany
  have hle := length_flatten_le (ceilDiv pieces.flatten.length pieces.length - 1) pieces
    fun piece hpiece => Nat.le_sub_one_of_lt (hshort piece hpiece)
  rw [Nat.mul_comm, ← ceilDiv_le_iff hmany] at hle
  omega

/-- Pieces that no other pieces of a list improve on: as few as a size allows, and cut as evenly as
so many can be. -/
structure IsEven (items : List α) (size : Nat) (pieces : List (List α)) : Prop where
  flatten : pieces.flatten = items
  ne_nil : ∀ piece ∈ pieces, piece ≠ []
  le_size : ∀ piece ∈ pieces, piece.length ≤ size
  count : pieces.length = ⌈(items.length / size : ℚ)⌉₊
  fewest : ∀ others : List (List α), others.flatten = items →
    (∀ other ∈ others, other.length ≤ size) →
    pieces.length ≤ others.length
  /-- All pieces but the last have one length, and the last is not longer. -/
  alike : ∃ length, (∀ piece ∈ pieces.dropLast, piece.length = length) ∧
    ∀ piece ∈ pieces, piece.length ≤ length
  /-- Any other cutting into as many pieces has one that is as long as the longest of these. -/
  shortest : ∀ others : List (List α), others.flatten = items → others.length = pieces.length →
    ∃ other ∈ others, ∀ piece ∈ pieces, piece.length ≤ other.length

theorem isEven_cut {items : List α} {size : Nat} (hitems : 0 < items.length) (hsize : 0 < size) :
    IsEven items size
      (cut items.length (ceilDiv items.length (ceilDiv items.length size)) items) := by
  have hcount := ceilDiv_pos hitems hsize
  have hlength := ceilDiv_pos hitems hcount
  have hnumber :
      (cut items.length (ceilDiv items.length (ceilDiv items.length size)) items).length =
      ceilDiv items.length size := by
    rw [length_cut _ _ _ hlength (Nat.le_refl _), ceilDiv_ceilDiv hitems hsize]
  have hle := length_le_of_mem_cut items.length
    (ceilDiv items.length (ceilDiv items.length size)) items
  refine {
    flatten := flatten_cut _ _ _ hlength (Nat.le_refl _)
    ne_nil := ne_nil_of_mem_cut _ _ _ hlength
    le_size := fun piece hpiece => (hle piece hpiece).trans (ceilDiv_ceilDiv_le hitems hsize)
    count := hnumber.trans (ceil_quotient _ hsize).symm
    fewest := ?_
    alike := ⟨_, length_of_mem_dropLast_cut _ _ _, hle⟩
    shortest := ?_ }
  · rintro others rfl hshort
    rw [hnumber, ceilDiv_le_iff hsize]
    exact length_flatten_le size others hshort
  · rintro others rfl hmany
    obtain ⟨other, hother, hlong⟩ := exists_ceilDiv_le_length others hitems
    rw [hmany, hnumber] at hlong
    exact ⟨other, hother, fun piece hpiece => (hle piece hpiece).trans hlong⟩

theorem lt_pow_of_lt {n power : Nat} (hn : n < 2 ^ 53) (hpower : 53 ≤ power) :
    (n : Int) < Int.pow 2 power := by
  have hpow : Int.pow 2 power = (2 ^ power : Nat) := (Int.natCast_pow 2 power).symm
  rw [hpow]
  exact_mod_cast hn.trans_le (Nat.pow_le_pow_right two_pos hpower)

theorem split_whole {items : List α} {size : Nat} (hitems : 0 < items.length) (hsize : 0 < size)
    (htop : size < 2 ^ 53) : split items (.whole size) =
      .ok (cut items.length (ceilDiv items.length (ceilDiv items.length size)) items) := by
  have hordinary : (size : Int) < Int.pow 2 smallestQuotientPower := lt_pow_of_lt htop (by decide)
  unfold split
  rw [if_neg hitems.ne', Size.pieces_whole (by exact_mod_cast hsize) hordinary hitems]
  obtain ⟨number, hnumber⟩ : ∃ number, ceilDiv items.length size = number + 1 :=
    ⟨_, (Nat.succ_pred_eq_of_pos (ceilDiv_pos hitems hsize)).symm⟩
  rw [Int.toNat_natCast, hnumber]
  rfl

theorem ceil_round_quotient {n d : Nat} (hn : 0 < n) (hntop : n < 2 ^ 53) (hd : 0 < d) :
    ⌈Double.round (n / d)⌉₊ = ceilDiv n d := by
  rw [← Int.ceil_toNat, Double.ceil_round hn hntop hd, Int.ceil_toNat, ceil_quotient n hd]

/-- Below 2^53, a list is split into pieces that no others improve on, and the program's two
quotients in double precision, rounded up, are the number of the pieces and the length by which the
list is cut. -/
theorem split_isEven (items : List α) (size : Nat) (hitems : items ≠ [])
    (hcount : items.length < 2 ^ 53) (hsize : 1 ≤ size) (htop : size < 2 ^ 53) :
    ∃ pieces, split items (.whole size) = .ok pieces ∧ IsEven items size pieces ∧
      pieces.length = ⌈Double.round (items.length / size)⌉₊ ∧
      pieces = cut items.length ⌈Double.round (items.length / pieces.length)⌉₊ items := by
  have hpos := List.length_pos_of_ne_nil hitems
  have heven := isEven_cut hpos hsize
  refine ⟨_, split_whole hpos hsize htop, heven, ?_, ?_⟩
  · rw [heven.count, ceil_quotient _ hsize, ceil_round_quotient hpos hcount hsize]
  · rw [heven.count, ceil_quotient _ hsize,
      ceil_round_quotient hpos hcount (ceilDiv_pos hpos hsize)]

theorem split_isEven_for_three_pieces :
    List.range 7 ≠ [] ∧ (List.range 7).length < 2 ^ 53 ∧ 1 ≤ 3 ∧ 3 < 2 ^ 53 ∧
      split (List.range 7) (.whole 3) = .ok [[0, 1, 2], [3, 4, 5], [6]] ∧
      IsEven (List.range 7) 3 [[0, 1, 2], [3, 4, 5], [6]] := by
  have hpieces : split (List.range 7) (.whole 3) = .ok [[0, 1, 2], [3, 4, 5], [6]] :=
    split_whole (by decide) (by decide) (by decide)
  obtain ⟨pieces, hsplit, heven, _, _⟩ :=
    split_isEven (List.range 7) 3 (by decide) (by decide) (by decide) (by decide)
  cases hpieces.symm.trans hsplit
  exact ⟨by decide, by decide, by decide, by decide, hpieces, heven⟩

end Chunk

end NamedRoutes
