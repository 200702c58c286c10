/-
**Integers in decimal.**

The text of an integer is its decimal digits, behind a minus sign if it is negative.  A reader that
takes digits for as long as there are any takes the digits of whatever follows the text as well;
the value it gets is still the one that was written exactly if nothing but zeros follow a zero.

Main definitions:

* `Decimal.ofInt` — the text of an integer;
* `Decimal.signed` — the integer of a sign and digits.

Main results:

* `Decimal.ofInt_eq` — the text is a sign and digits, and the integer is read back from them;
* `Decimal.ofDigits_append_eq_iff` — **when digits that follow do not change the value**.
-/

import Mathlib.Data.List.TakeWhile
import Mathlib.Tactic.Linarith

set_option relaxedAutoImplicit false
set_option autoImplicit false

namespace Decimal

/-! ### The text of an integer -/

/-- The decimal text of an integer. -/
def ofInt : ℤ → List Char
  | .ofNat n => Nat.toDigits 10 n
  | .negSucc n => '-' :: Nat.toDigits 10 (n + 1)

/-- The integer with the given sign and magnitude. -/
def signed (neg : Bool) (n : ℕ) : ℤ := if neg then -(n : ℤ) else n

theorem signed_inj {neg : Bool} {n k : ℕ} : signed neg n = signed neg k ↔ n = k := by
  cases neg <;> simp [signed]

theorem ofInt_ne_nil (z : ℤ) : ofInt z ≠ [] := by
  cases z with
  | ofNat n => exact Nat.toDigits_ne_nil
  | negSucc n => exact List.cons_ne_nil _ _

/-- The text of an integer is a sign, if it is negative, and the digits of its magnitude. -/
theorem ofInt_eq (z : ℤ) :
    ofInt z = (if z < 0 then ['-'] else []) ++ Nat.toDigits 10 z.natAbs ∧
      signed (decide (z < 0)) z.natAbs = z := by
  cases z with
  | ofNat n =>
      have hn : ¬ ((n : ℤ) < 0) := by omega
      constructor
      · simp [ofInt]
      · simp [signed]
  | negSucc n =>
      constructor
      · simp [ofInt, Int.negSucc_lt_zero]
      · rw [decide_eq_true (Int.negSucc_lt_zero n), signed, if_pos rfl]
        omega

theorem isDigit_toDigits (n : ℕ) : ∀ c ∈ Nat.toDigits 10 n, c.isDigit :=
  fun _ => Nat.isDigit_of_mem_toDigits (by omega) (by omega)

/-- A digit is none of the other characters. -/
theorem ne_of_isDigit {c d : Char} (hc : c.isDigit) (hd : d.isDigit = false) : c ≠ d := by
  rintro rfl
  simp [hd] at hc

/-! ### The value of digits -/

theorem toNat_eq_iff_of_isDigit {c : Char} (h : c.isDigit) : c.toNat - '0'.toNat = 0 ↔ c = '0' := by
  rw [Char.isDigit_iff_toNat] at h
  constructor
  · intro h0
    exact Char.toNat_inj.1 (by omega)
  · rintro rfl
    rfl

/-- Digits of value zero are zeros. -/
theorem ofDigits_eq_zero_iff {ds : List Char} (h : ∀ c ∈ ds, c.isDigit) :
    Nat.ofDigitChars 10 ds 0 = 0 ↔ ∀ c ∈ ds, c = '0' := by
  induction ds with
  | nil => simp
  | cons c ds ih =>
      have hc := toNat_eq_iff_of_isDigit (h c (List.mem_cons_self ..))
      have ih := ih fun d hd => h d (List.mem_cons_of_mem _ hd)
      rw [Nat.ofDigitChars_cons, Nat.ofDigitChars_eq_ofDigitChars_zero, Nat.add_eq_zero_iff, ih]
      simp only [Nat.mul_zero, Nat.zero_add, mul_eq_zero, pow_eq_zero_iff', hc,
        List.forall_mem_cons]
      simp

/-- **Digits that follow a number leave its value alone** exactly if there are none, or the number
is zero and they are zeros. -/
theorem ofDigits_append_eq_iff (n : ℕ) {ds : List Char} (h : ∀ c ∈ ds, c.isDigit) :
    Nat.ofDigitChars 10 (Nat.toDigits 10 n ++ ds) 0 = n ↔
      ds = [] ∨ n = 0 ∧ ∀ c ∈ ds, c = '0' := by
  rw [Nat.ofDigitChars_append, Nat.ofDigitChars_ten_toDigits,
    Nat.ofDigitChars_eq_ofDigitChars_zero, ← ofDigits_eq_zero_iff h]
  cases ds with
  | nil => simp
  | cons c ds =>
      have hten : 10 ≤ 10 ^ (c :: ds).length := Nat.le_self_pow (by simp) 10
      cases n with
      | zero => simp
      | succ n =>
          have hmul : 10 * (n + 1) ≤ 10 ^ (c :: ds).length * (n + 1) := Nat.mul_le_mul_right _ hten
          simp only [reduceCtorEq, Nat.succ_ne_zero, false_and, or_self, iff_false]
          omega

/-- The integer whose text is that of `z` continued with the digits `ds`. -/
def continued (z : ℤ) (ds : List Char) : ℤ :=
  signed (decide (z < 0)) (Nat.ofDigitChars 10 (Nat.toDigits 10 z.natAbs ++ ds) 0)

/-- **Digits that follow the text of an integer leave its value alone** exactly if there are none,
or the integer is zero and they are zeros. -/
theorem continued_eq_iff (z : ℤ) {ds : List Char} (h : ∀ c ∈ ds, c.isDigit) :
    continued z ds = z ↔ ds = [] ∨ z = 0 ∧ ∀ c ∈ ds, c = '0' := by
  have hz := (ofInt_eq z).2
  rw [← Int.natAbs_eq_zero, ← ofDigits_append_eq_iff z.natAbs h, ← signed_inj, hz]
  rfl

/-! ### Runs of digits -/

/-- The digits at the start of a text. -/
def digits (cs : List Char) : List Char := cs.takeWhile Char.isDigit

/-- What follows the digits at the start of a text. -/
def afterDigits (cs : List Char) : List Char := cs.dropWhile Char.isDigit

theorem isDigit_digits (cs : List Char) : ∀ c ∈ digits cs, c.isDigit :=
  fun _ => List.mem_takeWhile_imp

theorem digits_append {ds : List Char} (h : ∀ c ∈ ds, c.isDigit) (cs : List Char) :
    digits (ds ++ cs) = ds ++ digits cs := List.takeWhile_append_of_pos h

theorem afterDigits_append {ds : List Char} (h : ∀ c ∈ ds, c.isDigit) (cs : List Char) :
    afterDigits (ds ++ cs) = afterDigits cs := List.dropWhile_append_of_pos h

/-- Where there are no digits, nothing is taken. -/
theorem afterDigits_of_digits_eq_nil {cs : List Char} (h : digits cs = []) :
    afterDigits cs = cs := by
  have hsplit : digits cs ++ afterDigits cs = cs := List.takeWhile_append_dropWhile
  rwa [h, List.nil_append] at hsplit

end Decimal
