/-
**Reading a list off a ring of cells.**

A ring buffer keeps a list in an array of `c` cells: the item at position `i` of the list is in
cell `(front + i) % c`.  This module says what happens to the list when the front moves on and
when a cell is overwritten, for any type of items.

Main definitions:

* `Ring.Holds` — the ring starting at a cell holds a list.

Main results:

* `Ring.Holds.head`, `Ring.Holds.last` — where the two ends of the list are;
* `Ring.Holds.dequeue` — moving the front one cell on removes the head;
* `Ring.Holds.enqueue` — overwriting the first cell past the list appends to it.
-/

import Mathlib.Data.List.TakeDrop
import Mathlib.Data.Nat.ModEq

set_option relaxedAutoImplicit false
set_option autoImplicit false

namespace Ring

variable {α : Type*}

/-- The ring of cells starting at `front` holds the list `l`. -/
structure Holds (cells : List α) (front : ℕ) (l : List α) : Prop where
  fits : l.length ≤ cells.length
  item : ∀ (i : ℕ) (x : α), l[i]? = some x → cells[(front + i) % cells.length]? = some x

/-- Cells at different positions of a list that fits are different cells. -/
theorem cell_ne {front c i j : ℕ} (hi : i < j) (hj : j < c) :
    (front + i) % c ≠ (front + j) % c := by
  intro h
  have hmod : i ≡ j [MOD c] := Nat.ModEq.add_left_cancel' front h
  have := Nat.ModEq.eq_of_lt_of_lt hmod (by omega) hj
  omega

namespace Holds

variable {cells : List α} {front : ℕ} {l : List α} {x : α}

theorem nil (cells : List α) (front : ℕ) : Holds cells front [] := ⟨by simp, by simp⟩

/-- The item at a position of the list, as a list of cells to read. -/
theorem getElem? (H : Holds cells front l) {i : ℕ} (hi : i < l.length) :
    cells[(front + i) % cells.length]? = l[i]? := by
  rw [List.getElem?_eq_getElem hi]
  exact H.item i _ (List.getElem?_eq_getElem hi)

/-- Reading `l.length` cells from the front around the ring gives the list. -/
theorem read (H : Holds cells front l) :
    (List.range l.length).map (fun i => cells[(front + i) % cells.length]?) = l.map some := by
  refine List.ext_getElem (by simp) ?_
  intro i h₁ h₂
  have hi : i < l.length := by simpa using h₁
  rw [List.getElem_map, List.getElem_range, List.getElem_map, H.getElem? hi,
    List.getElem?_eq_getElem hi]

/-- The head of the list is in the front cell. -/
theorem head (H : Holds cells front (x :: l)) (hf : front < cells.length) :
    cells[front]? = some x := by
  have h := H.item 0 x rfl
  rwa [Nat.add_zero, Nat.mod_eq_of_lt hf] at h

/-- The last item of the list is in the cell one before the first free one. -/
theorem last (H : Holds cells front (l ++ [x])) :
    cells[(front + l.length) % cells.length]? = some x := H.item l.length x (by simp)

/-- Moving the front one cell on removes the head. -/
theorem dequeue (H : Holds cells front (x :: l)) :
    Holds cells ((front + 1) % cells.length) l := by
  constructor
  · have := H.fits
    rw [List.length_cons] at this
    omega
  · intro i y hi
    have h := H.item (i + 1) y (by simpa using hi)
    rwa [show front + (i + 1) = front + 1 + i by omega, ← Nat.mod_add_mod] at h

/-- Overwriting the first cell past the list appends to it, if there is one. -/
theorem enqueue (H : Holds cells front l) (hl : l.length < cells.length) (x : α) :
    Holds (cells.set ((front + l.length) % cells.length) x) front (l ++ [x]) := by
  have hpos : 0 < cells.length := by omega
  refine ⟨by simp; omega, ?_⟩
  intro i y hi
  rw [List.length_set]
  rcases Nat.lt_or_ge i l.length with hlt | hge
  · rw [List.getElem?_append_left hlt] at hi
    rw [List.getElem?_set_ne (cell_ne hlt hl).symm]
    exact H.item i y hi
  · have hil : i = l.length := by
      have := (List.getElem?_eq_some_iff.1 hi).1
      simp at this
      omega
    subst hil
    obtain rfl : x = y := by simpa using hi
    exact List.getElem?_set_self (Nat.mod_lt _ hpos)

end Holds

end Ring
