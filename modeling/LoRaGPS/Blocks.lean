/-
**Numbering the places of consecutive blocks.**

The integers are cut into blocks, one after the other and of any positive lengths, and a place is
given by its block and its offset in the block.  Blocks can be nested: the places of one scale are
the blocks of the next, as the days of the months are cut into hours.  A place of the innermost
scale is then a list of offsets, and the numbers of two places are ordered as their lists are.

Main definitions:

* `Blocks`, `Blocks.number` — a scale, and the number of a place;
* `Blocks.uniform` — the blocks of one length;
* `Blocks.nest`, `Blocks.Fits` — nested scales, and the lists of offsets that name a place.

Main results:

* `Blocks.number_lt_iff`, `Blocks.number_inj` — a place is before another if its block is, or if it
  is in the same block and its offset is smaller;
* `Blocks.nest_lt_iff` — **the numbers are ordered as the lists of offsets are**.
-/

import Mathlib.Algebra.Order.SuccPred
import Mathlib.Data.Int.SuccPred
import Mathlib.Data.List.Lex
import Mathlib.Order.SuccPred.Archimedean
import Mathlib.Tactic.Ring

set_option relaxedAutoImplicit false
set_option autoImplicit false

/-- Blocks of the integers, one after the other. -/
structure Blocks where
  start : ℤ → ℤ
  length : ℤ → ℤ
  length_pos : ∀ n, 0 < length n
  start_succ : ∀ n, start (n + 1) = start n + length n

namespace Blocks

/-- The number of the place `k` of the block `n`. -/
def number (B : Blocks) (n k : ℤ) : ℤ := B.start n + k

/-- Blocks of the length `L`. -/
def uniform (L : ℤ) (h : 0 < L) : Blocks where
  start n := L * n
  length _ := L
  length_pos _ := h
  start_succ n := by ring

@[simp] theorem number_uniform {L : ℤ} (h : 0 < L) (n k : ℤ) :
    (uniform L h).number n k = L * n + k := rfl

@[simp] theorem length_uniform {L : ℤ} (h : 0 < L) (n : ℤ) : (uniform L h).length n = L := rfl

section One

variable (B : Blocks)

variable {n n' k k' : ℤ}

theorem start_le (h : n ≤ n') : B.start n ≤ B.start n' := by
  have hmono : Monotone B.start := by
    refine monotone_int_of_le_succ ?_
    intro n
    rw [B.start_succ]
    have hpos := B.length_pos n
    omega
  exact hmono h

/-- A block ends before the later ones begin. -/
theorem start_add_length_le (h : n < n') : B.start n + B.length n ≤ B.start n' := by
  rw [← B.start_succ]
  exact B.start_le h

theorem number_lt_of_lt (hk : k < B.length n) (hk' : 0 ≤ k') (h : n < n') :
    B.number n k < B.number n' k' := by
  have hle := B.start_add_length_le h
  simp only [number]
  omega

theorem number_lt_iff (hk : 0 ≤ k ∧ k < B.length n) (hk' : 0 ≤ k' ∧ k' < B.length n') :
    B.number n k < B.number n' k' ↔ n < n' ∨ n = n' ∧ k < k' := by
  rcases lt_trichotomy n n' with h | rfl | h
  · exact iff_of_true (B.number_lt_of_lt hk.2 hk'.1 h) (Or.inl h)
  · simp [number]
  · refine iff_of_false (B.number_lt_of_lt hk'.2 hk.1 h).not_gt ?_
    omega

/-- Different places have different numbers. -/
theorem number_inj (hk : 0 ≤ k ∧ k < B.length n) (hk' : 0 ≤ k' ∧ k' < B.length n') :
    B.number n k = B.number n' k' ↔ n = n' ∧ k = k' := by
  constructor
  · intro h
    have hlt := B.number_lt_iff hk hk'
    have hgt := B.number_lt_iff hk' hk
    omega
  · rintro ⟨rfl, rfl⟩
    rfl

end One

/-! ### Nested scales -/

/-- The number of a place in nested scales: the block `n` of the first one, and an offset in each
of them. -/
def nest : List Blocks → ℤ → List ℤ → ℤ
  | [], n, _ => n
  | _ :: _, n, [] => n
  | B :: Bs, n, k :: ks => nest Bs (B.number n k) ks

/-- There is one offset for each scale, and each is inside its block. -/
inductive Fits : List Blocks → ℤ → List ℤ → Prop
  | nil {n : ℤ} : Fits [] n []
  | cons {B : Blocks} {Bs : List Blocks} {n k : ℤ} {ks : List ℤ}
      (hk : 0 ≤ k ∧ k < B.length n) (h : Fits Bs (B.number n k) ks) : Fits (B :: Bs) n (k :: ks)

/-- **The numbers are ordered as the lists of offsets are.** -/
theorem nest_lt_iff {Bs : List Blocks} {n n' : ℤ} {ks ks' : List ℤ} (h : Fits Bs n ks)
    (h' : Fits Bs n' ks') : nest Bs n ks < nest Bs n' ks' ↔ n :: ks < n' :: ks' := by
  induction h generalizing n' ks' with
  | nil =>
      cases h'
      simp [nest, List.cons_lt_cons_iff]
  | @cons B Bs n k ks hk _ ih =>
      cases h' with
      | @cons _ _ _ k' ks' hk' h' =>
          calc nest (B :: Bs) n (k :: ks) < nest (B :: Bs) n' (k' :: ks')
            _ ↔ B.number n k :: ks < B.number n' k' :: ks' := ih h'
            _ ↔ (n < n' ∨ n = n' ∧ k < k') ∨ (n = n' ∧ k = k') ∧ ks < ks' := by
                rw [List.cons_lt_cons_iff, B.number_lt_iff hk hk', B.number_inj hk hk']
            _ ↔ n :: k :: ks < n' :: k' :: ks' := by
                rw [List.cons_lt_cons_iff, List.cons_lt_cons_iff]
                tauto

end Blocks
