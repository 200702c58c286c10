/-
**A clock that wraps, and a timer on it.**

A clock of `w` bits shows the time modulo `2 ^ w`.  The difference of two of its readings is the
time that has passed, also across a wrap, as long as less than `2 ^ w` has passed; if more has
passed, the difference is too small, never too large.  A timer stores a reading of the clock when
it fires, and fires again at the first poll at which the difference has grown to its period.  It
never fires early, and if it is polled often enough it never misses: between two polls the time
that has passed must not run from below the period past the wrap.

Main definitions:

* `WrappingClock.shown` — what the clock shows;
* `WrappingClock.Due` — the test a timer makes when it is polled;
* `WrappingClock.Armed` — what a timer that is polled often enough knows.

Main results:

* `WrappingClock.Due.elapsed` — **a timer is never early**;
* `WrappingClock.due_iff` — within one round of the clock the test is exact;
* `WrappingClock.Armed.due_iff` — **a timer that is polled often enough never misses**.
-/

import Mathlib.Algebra.Group.Nat.Defs
import Mathlib.Data.Nat.Basic

set_option relaxedAutoImplicit false
set_option autoImplicit false

namespace WrappingClock

variable {w : ℕ}

/-- What a clock of `w` bits shows at the time `t`. -/
def shown (w t : ℕ) : BitVec w := BitVec.ofNat w t

/-- The test of a timer at the time `now`: the difference to the reading it has stored is at least
its period. -/
def Due (period stored : BitVec w) (now : ℕ) : Prop := period ≤ shown w now - stored

instance (period stored : BitVec w) (now : ℕ) : Decidable (Due period stored now) :=
  inferInstanceAs (Decidable (period ≤ shown w now - stored))

/-- The difference of two readings is the time between them, modulo the range of the clock. -/
theorem toNat_shown_sub {s t : ℕ} (h : s ≤ t) :
    (shown w t - shown w s).toNat = (t - s) % 2 ^ w := by
  obtain ⟨d, rfl⟩ := Nat.exists_eq_add_of_le h
  rw [shown, shown, Nat.add_comm s d, BitVec.ofNat_add, BitVec.add_sub_cancel, BitVec.toNat_ofNat,
    Nat.add_sub_cancel]

/-- **A timer is never early.** -/
theorem Due.elapsed {period : BitVec w} {s t : ℕ} (h : Due period (shown w s) t) (hst : s ≤ t) :
    s + period.toNat ≤ t := by
  have hle : period.toNat ≤ (shown w t - shown w s).toNat := h
  rw [toNat_shown_sub hst] at hle
  have := Nat.mod_le (t - s) (2 ^ w)
  omega

/-- Within one round of the clock the test is exact. -/
theorem due_iff {period : BitVec w} {s t : ℕ} (hst : s ≤ t) (hlt : t < s + 2 ^ w) :
    Due period (shown w s) t ↔ s + period.toNat ≤ t := by
  refine ⟨fun h => h.elapsed hst, ?_⟩
  intro h
  change period.toNat ≤ (shown w t - shown w s).toNat
  rw [toNat_shown_sub hst, Nat.mod_eq_of_lt (by omega)]
  omega

/-- A timer that has fired last at the time `last`, and was polled last at the time `polled`, when
its period had not yet passed. -/
structure Armed (period stored : BitVec w) (last polled : ℕ) : Prop where
  stored : stored = shown w last
  polled : polled < last + period.toNat

namespace Armed

variable {period stored : BitVec w} {last polled now : ℕ}

/-- **A timer that is polled often enough fires exactly if its period has passed.** -/
theorem due_iff (A : Armed period stored last polled) (hnow : last ≤ now)
    (hsoon : now < polled + (2 ^ w - period.toNat)) :
    Due period stored now ↔ last + period.toNat ≤ now := by
  have := A.polled
  rw [A.stored]
  exact WrappingClock.due_iff hnow (by omega)

/-- The timer has fired, and stores what the clock shows a moment later. -/
theorem fired (hperiod : 0 < period.toNat) {stamp : ℕ} (h : now ≤ stamp) :
    Armed period (shown w stamp) stamp now :=
  ⟨rfl, by omega⟩

/-- The timer was polled and has not fired. -/
theorem not_fired (A : Armed period stored last polled) (h : ¬ last + period.toNat ≤ now) :
    Armed period stored last now :=
  ⟨A.stored, not_le.1 h⟩

end Armed

end WrappingClock
