/-
**Overwriting rows under a cursor.**

A loop goes through a sequence of items and keeps a cursor into an array of rows.  An item that is
newer than the row at the cursor is written over it, and the cursor moves on; an item that is not
newer is passed over, and the cursor stays.  No row is looked at again once it was overwritten, so
what the loop does is decided by the rows as they were: it takes over some of the items, in order,
and writes them one after the other from the first row on.

Main definitions:

* `RowCursor.compareRow`, `RowCursor.pass` — one comparison, and the loop;
* `RowCursor.taken` — the items that are taken over, as a function of the rows before the loop;
* `RowCursor.LinesUp` — the items that stand against the rows, when items and rows are lined up;
* `RowCursor.overlay` — rows with a list written over them.

Main results:

* `RowCursor.pass_eq` — **the loop writes the items taken over from the first row on**;
* `RowCursor.LinesUp.eq_taken`, `RowCursor.linesUp_taken` — the items taken over are those that
  line up with the rows;
* `RowCursor.linesUp_nil_iff`, `RowCursor.linesUp_cons_iff` — lining up, by where the items stand
  that are taken over;
* `RowCursor.pass_eq_self_iff` — the loop changes nothing exactly if no item is newer than the
  first row;
* `RowCursor.le_key_pass` — the loop makes no row older;
* `RowCursor.lt_length_taken_replicate` — how often one item is taken over that is compared again
  and again.
-/

import Mathlib.Data.List.TakeDrop
import Mathlib.Data.Nat.Basic
import Mathlib.Logic.Function.Basic
import Mathlib.Order.Lattice

set_option relaxedAutoImplicit false
set_option autoImplicit false

namespace RowCursor

variable {α κ : Type*} [LinearOrder κ] (key : α → κ)

/-! ### The loop -/

/-- One comparison: the rows, and how many have been overwritten from `base` on. -/
def compareRow (base : ℕ) (s : (ℕ → α) × ℕ) (x : α) : (ℕ → α) × ℕ :=
  if key (s.1 (base + s.2)) < key x then (Function.update s.1 (base + s.2) x, s.2 + 1) else s

/-- The loop over the items `xs`, with the cursor at the row `base`. -/
def pass (base : ℕ) (xs : List α) (rows : ℕ → α) : ℕ → α :=
  (xs.foldl (compareRow key base) (rows, 0)).1

/-- The items that are taken over, when the row `k` is the next one to be compared. -/
def taken (rows : ℕ → α) : ℕ → List α → List α
  | _, [] => []
  | k, x :: xs =>
      if key (rows k) < key x then x :: taken rows (k + 1) xs else taken rows k xs

/-- The rows with `ys` written over them from `base` on. -/
def overlay (rows : ℕ → α) (base : ℕ) (ys : List α) : ℕ → α :=
  fun i => if base ≤ i then (ys[i - base]?).getD (rows i) else rows i

/-! ### Rows that were written over -/

section Overlay

variable {rows : ℕ → α} {base i : ℕ} {ys : List α}

@[simp] theorem overlay_nil (rows : ℕ → α) (base : ℕ) : overlay rows base [] = rows := by
  funext i
  simp [overlay]

theorem overlay_of_lt (h : i < base) : overlay rows base ys i = rows i := by
  rw [overlay, if_neg (by omega)]

theorem overlay_of_ge (h : base + ys.length ≤ i) : overlay rows base ys i = rows i := by
  rw [overlay]
  split
  · rw [List.getElem?_eq_none (by omega), Option.getD_none]
  · rfl

theorem overlay_add {y : α} (h : ys[i]? = some y) : overlay rows base ys (base + i) = y := by
  rw [overlay, if_pos (Nat.le_add_right _ _), Nat.add_sub_cancel_left, h, Option.getD_some]

/-- Writing over the next row. -/
theorem update_overlay (rows : ℕ → α) (base : ℕ) (ys : List α) (x : α) :
    Function.update (overlay rows base ys) (base + ys.length) x =
      overlay rows base (ys ++ [x]) := by
  funext i
  rcases lt_trichotomy i (base + ys.length) with hi | rfl | hi
  · rw [Function.update_of_ne (Nat.ne_of_lt hi)]
    simp only [overlay]
    split
    · rw [List.getElem?_append_left (by omega)]
    · rfl
  · rw [Function.update_self, overlay_add (y := x) (by simp)]
  · rw [Function.update_of_ne (Nat.ne_of_gt hi), overlay_of_ge (by omega),
      overlay_of_ge (by simp; omega)]

end Overlay

/-! ### What the loop does -/

theorem length_taken_le (rows : ℕ → α) (k : ℕ) (xs : List α) :
    (taken key rows k xs).length ≤ xs.length := by
  induction xs generalizing k with
  | nil => exact le_rfl
  | cons x xs ih =>
      rw [taken]
      split
      · simpa using ih (k + 1)
      · exact (ih k).trans (Nat.le_succ _)

/-- The loop from a state in which `ys` was taken over. -/
theorem foldl_compareRow (rows : ℕ → α) (base : ℕ) (ys xs : List α) :
    (xs.foldl (compareRow key base) (overlay rows base ys, ys.length)).1 =
      overlay rows base (ys ++ taken key rows (base + ys.length) xs) := by
  induction xs generalizing ys with
  | nil => simp [taken]
  | cons x xs ih =>
      -- the row at the cursor is what it was before the loop
      have hrow : overlay rows base ys (base + ys.length) = rows (base + ys.length) :=
        overlay_of_ge le_rfl
      simp only [List.foldl_cons, compareRow, hrow, taken]
      split
      · have hnext := ih (ys ++ [x])
        rw [List.length_append, List.length_singleton, ← Nat.add_assoc, List.append_assoc,
          List.singleton_append] at hnext
        rw [update_overlay]
        exact hnext
      · exact ih ys

/-- **The loop writes the items taken over from the first row on.** -/
theorem pass_eq (base : ℕ) (xs : List α) (rows : ℕ → α) :
    pass key base xs rows = overlay rows base (taken key rows base xs) := by
  have h := foldl_compareRow key rows base [] xs
  rwa [overlay_nil, List.length_nil, Nat.add_zero, List.nil_append] at h

theorem pass_of_lt {base i : ℕ} (xs : List α) (rows : ℕ → α) (h : i < base) :
    pass key base xs rows i = rows i := by
  rw [pass_eq, overlay_of_lt h]

theorem pass_of_ge {base i : ℕ} {xs : List α} (rows : ℕ → α) (h : base + xs.length ≤ i) :
    pass key base xs rows i = rows i := by
  have hlen := length_taken_le key rows base xs
  rw [pass_eq, overlay_of_ge (by omega)]

/-- One comparison makes no row older. -/
theorem le_key_compareRow (base : ℕ) (s : (ℕ → α) × ℕ) (x : α) (i : ℕ) :
    key (s.1 i) ≤ key ((compareRow key base s x).1 i) := by
  rw [compareRow]
  split
  · rename_i h
    change key (s.1 i) ≤ key (Function.update s.1 (base + s.2) x i)
    by_cases hi : i = base + s.2
    · rw [hi, Function.update_self]
      exact le_of_lt h
    · rw [Function.update_of_ne hi]
  · exact le_rfl

/-- **The loop makes no row older.** -/
theorem le_key_pass (base : ℕ) (xs : List α) (rows : ℕ → α) (i : ℕ) :
    key (rows i) ≤ key (pass key base xs rows i) := by
  have hfold : ∀ s : (ℕ → α) × ℕ,
      key (s.1 i) ≤ key ((xs.foldl (compareRow key base) s).1 i) := by
    induction xs with
    | nil => exact fun s => le_rfl
    | cons x xs ih => exact fun s => (le_key_compareRow key base s x i).trans (ih _)
  exact hfold (rows, 0)

/-- An item that is compared again and again is taken over as long as the rows are older. -/
theorem lt_length_taken_replicate {rows : ℕ → α} {k n j : ℕ} {x : α} :
    j < (taken key rows k (List.replicate n x)).length ↔
      j < n ∧ ∀ i ≤ j, key (rows (k + i)) < key x := by
  induction n generalizing k j with
  | zero => simp [taken]
  | succ n ih =>
      rw [List.replicate_succ, taken]
      split
      · rename_i hk
        rw [List.length_cons]
        cases j with
        | zero => simpa using hk
        | succ j =>
            rw [Nat.add_lt_add_iff_right, ih, Nat.add_lt_add_iff_right]
            refine and_congr_right ?_
            intro _
            constructor
            · intro h i hi
              cases i with
              | zero => exact hk
              | succ i =>
                  have := h i (by omega)
                  rwa [Nat.add_assoc, Nat.add_comm 1] at this
            · intro h i hi
              have := h (i + 1) (by omega)
              rwa [Nat.add_comm i, ← Nat.add_assoc] at this
      · rename_i hk
        -- the cursor is stuck at a row that is not older
        rw [ih]
        constructor
        · rintro ⟨-, h⟩
          exact absurd (h 0 (Nat.zero_le _)) hk
        · rintro ⟨-, h⟩
          exact absurd (h 0 (Nat.zero_le _)) hk

theorem mem_taken {rows : ℕ → α} {k : ℕ} {xs : List α} {x : α} (h : x ∈ taken key rows k xs) :
    x ∈ xs := by
  induction xs generalizing k with
  | nil => exact h
  | cons y ys ih =>
      rw [taken] at h
      split at h
      · rcases List.mem_cons.1 h with rfl | h
        · exact List.mem_cons_self ..
        · exact List.mem_cons_of_mem _ (ih h)
      · exact List.mem_cons_of_mem _ (ih h)

/-- One item compared again and again: the rows it is written over, and the others. -/
theorem pass_replicate (base n : ℕ) (x : α) (rows : ℕ → α) (j : ℕ) :
    pass key base (List.replicate n x) rows (base + j) =
      if j < n ∧ ∀ i ≤ j, key (rows (base + i)) < key x then x else rows (base + j) := by
  rw [pass_eq]
  split
  · rename_i h
    have hlt := (lt_length_taken_replicate key).2 h
    have hx := List.eq_of_mem_replicate (mem_taken key (List.getElem_mem hlt))
    exact overlay_add (by rw [List.getElem?_eq_getElem hlt, hx])
  · rename_i h
    have hge := not_lt.1 (mt (lt_length_taken_replicate key).1 h)
    exact overlay_of_ge (by omega)

/-- With nothing taken over, no item is newer than the row at the cursor. -/
theorem taken_eq_nil_iff {rows : ℕ → α} {k : ℕ} {xs : List α} :
    taken key rows k xs = [] ↔ ∀ x ∈ xs, key x ≤ key (rows k) := by
  induction xs with
  | nil => simp [taken]
  | cons x xs ih =>
      rw [taken, List.forall_mem_cons]
      split
      · rename_i h
        refine iff_of_false (by simp) ?_
        intro h'
        exact absurd h (not_lt.2 h'.1)
      · rename_i h
        rw [ih]
        exact ⟨fun h' => ⟨not_lt.1 h, h'⟩, And.right⟩

/-- The first item taken over is newer than the first row. -/
theorem lt_of_taken_cons {rows : ℕ → α} {k : ℕ} {xs ys : List α} {y : α}
    (h : taken key rows k xs = y :: ys) : key (rows k) < key y := by
  induction xs with
  | nil => simp [taken] at h
  | cons x xs ih =>
      rw [taken] at h
      split at h
      · rename_i hx
        obtain ⟨rfl, -⟩ := List.cons.inj h
        exact hx
      · exact ih h

/-- **The loop changes nothing exactly if no item is newer than the first row.** -/
theorem pass_eq_self_iff (base : ℕ) (xs : List α) (rows : ℕ → α) :
    pass key base xs rows = rows ↔ ∀ x ∈ xs, key x ≤ key (rows base) := by
  rw [pass_eq, ← taken_eq_nil_iff key]
  constructor
  · intro h
    cases htaken : taken key rows base xs with
    | nil => rfl
    | cons y ys =>
        have hy : overlay rows base (y :: ys) (base + 0) = y := overlay_add rfl
        rw [← htaken, h] at hy
        exact absurd (lt_of_taken_cons key htaken) (by rw [← hy]; exact lt_irrefl _)
  · intro h
    rw [h, overlay_nil]

/-- After an item was compared, the first row is not older than it. -/
theorem key_le_pass_replicate {base n : ℕ} (hn : 0 < n) (x : α) (rows : ℕ → α) :
    key x ≤ key (pass key base (List.replicate n x) rows base) := by
  have hrow := pass_replicate key base n x rows 0
  rw [Nat.add_zero] at hrow
  rw [hrow]
  split
  · exact le_rfl
  · rename_i h
    refine not_lt.1 fun hlt => h ⟨hn, ?_⟩
    intro i hi
    rwa [Nat.le_zero.1 hi]

/-! ### Items and rows lined up -/

/-- The items are lined up with the rows, in order: an item that is newer than the next row stands
against it, and one that is not is passed over.  The last list holds the items that stand against
rows. -/
inductive LinesUp : List α → List α → List α → Prop
  | nil (rs : List α) : LinesUp rs [] []
  | against {r x : α} {rs xs ys : List α} (h : key r < key x) (hrest : LinesUp rs xs ys) :
      LinesUp (r :: rs) (x :: xs) (x :: ys)
  | passedOver {r x : α} {rs xs ys : List α} (h : key x ≤ key r)
      (hrest : LinesUp (r :: rs) xs ys) : LinesUp (r :: rs) (x :: xs) ys

variable {key}

/-- What stands against the rows is taken over. -/
theorem LinesUp.eq_taken {rows : ℕ → α} {k : ℕ} {rs xs ys : List α} (h : LinesUp key rs xs ys)
    (hrs : ∀ j r, rs[j]? = some r → rows (k + j) = r) : ys = taken key rows k xs := by
  induction h generalizing k with
  | nil rs => rfl
  | @against r x rs xs ys h hrest ih =>
      have hr : rows k = r := hrs 0 r rfl
      rw [taken, hr, if_pos h, ← ih]
      intro j r' hj
      rw [Nat.add_assoc, Nat.add_comm 1]
      exact hrs (j + 1) r' hj
  | @passedOver r x rs xs ys h hrest ih =>
      have hr : rows k = r := hrs 0 r rfl
      rw [taken, hr, if_neg (not_lt.2 h)]
      exact ih hrs

/-- What is taken over stands against the rows, if there are as many rows as items. -/
theorem linesUp_taken {rows : ℕ → α} {k : ℕ} {rs xs : List α} (hlen : xs.length ≤ rs.length)
    (hrs : ∀ j r, rs[j]? = some r → rows (k + j) = r) :
    LinesUp key rs xs (taken key rows k xs) := by
  induction xs generalizing rs k with
  | nil => exact .nil rs
  | cons x xs ih =>
      obtain _ | ⟨r, rs⟩ := rs
      · exact absurd hlen (by simp)
      have hr : rows k = r := hrs 0 r rfl
      have hlen : xs.length ≤ rs.length := by simpa using hlen
      rw [taken, hr]
      split
      · rename_i h
        refine .against h (ih hlen ?_)
        intro j r' hj
        rw [Nat.add_assoc, Nat.add_comm 1]
        exact hrs (j + 1) r' hj
      · rename_i h
        exact .passedOver (not_lt.1 h) (ih (by simpa using Nat.le_succ_of_le hlen) hrs)

/-- Without rows there is nothing to line up. -/
theorem linesUp_nil_left_iff {xs ys : List α} : LinesUp key [] xs ys ↔ xs = [] ∧ ys = [] := by
  constructor
  · intro h
    cases h
    exact ⟨rfl, rfl⟩
  · rintro ⟨rfl, rfl⟩
    exact .nil []

/-- None of the items stands against a row: they are all passed over at the first one. -/
theorem linesUp_nil_iff {r : α} {rs xs : List α} :
    LinesUp key (r :: rs) xs [] ↔ ∀ x ∈ xs, key x ≤ key r := by
  constructor
  · intro h
    induction xs with
    | nil => exact fun x hx => absurd hx (List.not_mem_nil)
    | cons x xs ih =>
        cases h with
        | passedOver hx hrest => exact List.forall_mem_cons.2 ⟨hx, ih hrest⟩
  · intro h
    induction xs with
    | nil => exact .nil _
    | cons x xs ih =>
        obtain ⟨hx, hxs⟩ := List.forall_mem_cons.1 h
        exact .passedOver hx (ih hxs)

/-- The first item that stands against a row: those before it are passed over at the first row, and
those after it are lined up with the other rows. -/
theorem linesUp_cons_iff {r y : α} {rs xs ys : List α} :
    LinesUp key (r :: rs) xs (y :: ys) ↔ ∃ before after, xs = before ++ y :: after ∧
      (∀ x ∈ before, key x ≤ key r) ∧ key r < key y ∧ LinesUp key rs after ys := by
  constructor
  · intro h
    induction xs with
    | nil => cases h
    | cons x xs ih =>
        cases h with
        | against hy hrest => exact ⟨[], xs, rfl, by simp, hy, hrest⟩
        | passedOver hx hrest =>
            obtain ⟨before, after, rfl, hbefore, hy, hafter⟩ := ih hrest
            exact ⟨x :: before, after, rfl, List.forall_mem_cons.2 ⟨hx, hbefore⟩, hy, hafter⟩
  · rintro ⟨before, after, rfl, hbefore, hy, hafter⟩
    induction before with
    | nil => exact .against hy hafter
    | cons x before ih =>
        obtain ⟨hx, hbefore⟩ := List.forall_mem_cons.1 hbefore
        exact .passedOver hx (ih hbefore)

end RowCursor
