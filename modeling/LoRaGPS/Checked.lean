/-
**Checked machine arithmetic and array accesses.**

A C program that leaves the range of `int`, divides by zero or indexes an array outside its
bounds has no defined behaviour.  The operations below return `none` exactly then, so that a
model written with them runs to `some` result only where the program is defined.  Conversions to
`unsigned` and arithmetic on `unsigned` are total, modulo `2 ^ 32`.

Main definitions:

* `Checked.int`, `Checked.addInt`, `Checked.subInt` — arithmetic on `int`;
* `Checked.toUnsigned`, `Checked.modUnsigned` — `int` operands meeting an `unsigned` one;
* `Checked.store`, `Checked.loadInt`, `Checked.storeInt` — accesses to an array (reading a cell at
  a natural number is `xs[i]?`);
* `Checked.shiftDown` — the loop that moves every cell of an array one index down.

Main results:

* `Checked.int_eq_some`, `Checked.toUnsigned_of_nonneg` — where the operations are exact;
* `Checked.shiftDown_eq` — what the shifting loop leaves in the array.
-/

import Mathlib.Data.List.TakeDrop
import Mathlib.Tactic.Linarith

set_option relaxedAutoImplicit false
set_option autoImplicit false

namespace Checked

/-- Running one defined step of a computation. -/
theorem bind_of_eq {α β : Type} {x : Option α} {a : α} (h : x = some a) (f : α → Option β) :
    (x >>= f) = f a := by
  rw [h]
  rfl

/-! ### Arithmetic on `int` and `unsigned` -/

/-- A value as an `int`: it has to lie in `[-2 ^ 31, 2 ^ 31)`. -/
def int (x : ℤ) : Option ℤ := if -2 ^ 31 ≤ x ∧ x < 2 ^ 31 then some x else none

/-- Addition on `int`, undefined on overflow. -/
def addInt (x y : ℤ) : Option ℤ := int (x + y)

/-- Subtraction on `int`, undefined on overflow. -/
def subInt (x y : ℤ) : Option ℤ := int (x - y)

/-- The conversion of an `int` to `unsigned`. -/
def toUnsigned (x : ℤ) : ℕ := (x % 2 ^ 32).toNat

/-- The remainder of an `int` by an `unsigned`: the left operand is converted first. -/
def modUnsigned (x : ℤ) (m : ℕ) : Option ℕ := if m = 0 then none else some (toUnsigned x % m)

theorem int_eq_some {x : ℤ} (h₀ : -2 ^ 31 ≤ x) (h₁ : x < 2 ^ 31) : int x = some x :=
  if_pos ⟨h₀, h₁⟩

theorem addInt_natCast {a b : ℕ} (h : a + b < 2 ^ 31) :
    addInt (a : ℤ) (b : ℤ) = some ((a + b : ℕ) : ℤ) := by
  rw [addInt, int_eq_some (by omega) (by omega)]
  push_cast
  rfl

theorem subInt_natCast {a b : ℕ} (hb : b ≤ a) (h : a < 2 ^ 31) :
    subInt (a : ℤ) (b : ℤ) = some ((a - b : ℕ) : ℤ) := by
  rw [subInt, int_eq_some (by omega) (by omega), Nat.cast_sub hb]

/-- A nonnegative `int` keeps its value as an `unsigned`. -/
theorem toUnsigned_of_nonneg {a : ℕ} (h : a < 2 ^ 32) : toUnsigned (a : ℤ) = a := by
  unfold toUnsigned
  omega

theorem modUnsigned_natCast {a m : ℕ} (hm : 0 < m) (h : a < 2 ^ 32) :
    modUnsigned (a : ℤ) m = some (a % m) := by
  rw [modUnsigned, if_neg (by omega), toUnsigned_of_nonneg h]

/-! ### Array cells -/

variable {α : Type*}

/-- Writing `x` at index `i` of an array. -/
def store (xs : List α) (i : ℕ) (x : α) : Option (List α) :=
  if i < xs.length then some (xs.set i x) else none

theorem store_eq_some {xs : List α} {i : ℕ} (x : α) (h : i < xs.length) :
    store xs i x = some (xs.set i x) := if_pos h

/-- Reading the cell whose index is an `int`. -/
def loadInt (xs : List α) (i : ℤ) : Option α := if i < 0 then none else xs[i.toNat]?

/-- Writing the cell whose index is an `int`. -/
def storeInt (xs : List α) (i : ℤ) (x : α) : Option (List α) :=
  if i < 0 then none else store xs i.toNat x

@[simp] theorem loadInt_natCast (xs : List α) (i : ℕ) : loadInt xs (i : ℤ) = xs[i]? := by
  simp [loadInt]

@[simp] theorem storeInt_natCast (xs : List α) (i : ℕ) (x : α) :
    storeInt xs (i : ℤ) x = store xs i x := by
  simp [storeInt]

/-- `xs[j - 1] = xs[j];` -/
def moveDown (xs : List α) (j : ℕ) : Option (List α) := do
  let x ← xs[j]?
  store xs (j - 1) x

/-- `for (j = 1; j <= n; j++) xs[j - 1] = xs[j];` -/
def shiftDown (xs : List α) (n : ℕ) : Option (List α) := (List.range' 1 n).foldlM moveDown xs

theorem shiftDown_succ (xs : List α) (n : ℕ) :
    shiftDown xs (n + 1) = (shiftDown xs n).bind fun ys => moveDown ys (n + 1) := by
  unfold shiftDown
  rw [List.range'_concat, List.foldlM_append, Nat.one_mul, Nat.add_comm 1 n]
  cases List.foldlM moveDown xs (List.range' 1 n) <;> simp

/-- After `n` rounds the first `n` cells hold what was one index further up. -/
theorem shiftDown_eq {xs : List α} {n : ℕ} (h : n < xs.length) :
    shiftDown xs n = some (xs.tail.take n ++ xs.drop n) := by
  induction n with
  | zero => simp [shiftDown]
  | succ n ih =>
      have hlen : (xs.tail.take n).length = n := by simp; omega
      have hdrop : xs.drop n = xs[n] :: xs.drop (n + 1) := List.drop_eq_getElem_cons (by omega)
      have hread : (xs.tail.take n ++ xs.drop n)[n + 1]? = some xs[n + 1] := by
        rw [List.getElem?_append_right (by omega), hlen, Nat.add_sub_cancel_left,
          List.getElem?_drop, List.getElem?_eq_getElem h]
      have htail : xs.tail.take (n + 1) = xs.tail.take n ++ [xs[n + 1]] := by
        rw [List.take_succ_eq_append_getElem (by simp; omega), List.getElem_tail]
      rw [shiftDown_succ, ih (by omega), Option.bind_some, moveDown, hread]
      change store _ n xs[n + 1] = _
      rw [store_eq_some _ (by simp; omega), htail, List.set_append_right _ _ (by omega), hlen,
        Nat.sub_self, hdrop, List.set_cons_zero, List.append_assoc, List.singleton_append]

/-- Shifting an array down and writing its last cell drops the first element. -/
theorem shiftDown_store {xs : List α} {n : ℕ} (h : xs.length = n + 1) (x : α) :
    ((shiftDown xs n).bind fun ys => store ys n x) = some (xs.tail ++ [x]) := by
  have htail : xs.tail.take n = xs.tail := List.take_of_length_le (by rw [List.length_tail]; omega)
  have hlast : xs.drop n = [xs[n]] := by
    rw [List.drop_eq_getElem_cons (by omega), List.drop_of_length_le (by omega)]
  have hlen : xs.tail.length = n := by rw [List.length_tail]; omega
  rw [shiftDown_eq (by omega), Option.bind_some, htail, hlast, store_eq_some x (by simp; omega),
    List.set_append_right _ _ (by omega), hlen, Nat.sub_self, List.set_cons_zero]

end Checked
