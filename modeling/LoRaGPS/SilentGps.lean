/-
**A GPS that sends nothing.**

If no character ever arrives, `NMEAdiagnostic.ino` gives up each rate at the third call of `loop`
that comes more than a second after the port was opened, and halts with eleven errors after the last
rate.  How long that takes depends on how often `loop` is called.

Main definitions:

* `LoRaGPS.Diagnostic.Silence` — the times of calls of `loop` in which nothing arrives;
* `LoRaGPS.Diagnostic.silentLog` — what is printed for the first rates.

Main results:

* `LoRaGPS.Diagnostic.Waiting.step` — what one call of `loop` does in silence;
* `LoRaGPS.Diagnostic.silent_device` — **when the sketch halts**, and what it has printed.
-/

import LoRaGPS.Diagnostic
import LoRaGPS.WrappingClock

set_option relaxedAutoImplicit false
set_option autoImplicit false

namespace LoRaGPS.Diagnostic

open Program WrappingClock

/-! ### Silence -/

/-- A call of `loop` in which nothing arrives: the time at which it tests for how long, and the time
at which it opens the port, if it does, in milliseconds since boot. -/
structure Silence where
  tested : ℕ
  opened : ℕ
  now : BitVec 32

def Silence.pass (x : Silence) : Pass := ⟨[], x.now, shown 32 x.tested, shown 32 x.opened⟩

/-- Calls that follow each other, from the time `T` on, each ending within `g` milliseconds of the
end of the one before. -/
def Timely (g : ℕ) : ℕ → List Silence → Prop
  | _, [] => True
  | T, x :: xs =>
      T ≤ x.tested ∧ x.tested ≤ x.opened ∧ x.opened ≤ T + g ∧ Timely g x.opened xs

/-- The end of the last call. -/
def endOf : ℕ → List Silence → ℕ
  | T, [] => T
  | _, x :: xs => endOf x.opened xs

/-! ### One call -/

/-- The state of the sketch while nothing arrives: the rate at the place `k` was opened at the time
`T₀`, and the silence was noticed `j` times since. -/
structure Waiting (w : BitVec 8) (k j T₀ : ℕ) (d : State) : Prop where
  index : order[k]? = some d.baud_index
  start : d.baudStartTime = shown 32 T₀
  rx : d.last_rx = 0
  silent : d.valid_sentence_received = 0
  empty : d.someCharsIndex = 0
  tries : d.tries.toNat = j + 1
  warnings : d.warnings = w
  errors : d.errors.toNat = k

variable {w : BitVec 8} {k j T₀ : ℕ} {d : State} {x : Silence}

theorem GPSloop_silence (hnone : d.valid_sentence_received = 0) :
    GPSloop x.pass d = listenForSomething (shown 32 x.tested) (shown 32 x.opened) d := by
  have hchars : forEach readChar x.pass.chars = pure () := rfl
  rw [GPSloop, hchars, pure_bind_apply, get_bind_apply, if_pos (Or.inl hnone)]
  rfl

/-- The test of `listenForSomething` is whether a second has passed since the port was opened. -/
theorem Waiting.due_iff (W : Waiting w k j T₀ d) {t : ℕ} (hle : T₀ ≤ t) (hlt : t < 2 ^ 32) :
    shown 32 t - d.last_rx > 5 ∧ shown 32 t - d.baudStartTime > 1000 ↔ T₀ + 1000 < t := by
  have hrx : (shown 32 t - d.last_rx).toNat = t := by
    rw [W.rx]
    simpa [shown] using hlt
  have hstart : (shown 32 t - d.baudStartTime).toNat = t - T₀ := by
    rw [W.start, toNat_shown_sub hle, Nat.mod_eq_of_lt (by omega)]
  rw [gt_iff_lt, gt_iff_lt, BitVec.lt_def, BitVec.lt_def, hrx, hstart]
  change 5 < t ∧ 1000 < t - T₀ ↔ _
  omega

/-- Before a second has passed nothing happens. -/
theorem Waiting.early (W : Waiting w k j T₀ d) (hle : T₀ ≤ x.tested) (hlt : x.tested < 2 ^ 32)
    (hearly : x.tested ≤ T₀ + 1000) : GPSloop x.pass d = some ([], some ((), d)) := by
  have hdue := mt (W.due_iff hle hlt).1 (Nat.not_lt.2 hearly)
  rw [GPSloop_silence W.silent, listenForSomething, get_bind_apply, if_neg hdue]
  rfl

/-- The first two calls after a second are counted. -/
theorem Waiting.counted (W : Waiting w k j T₀ d) (hle : T₀ ≤ x.tested) (hlt : x.tested < 2 ^ 32)
    (hdue : T₀ + 1000 < x.tested) (hj : j < 2) :
    ∃ d', GPSloop x.pass d = some ([], some ((), d')) ∧ Waiting w k (j + 1) T₀ d' := by
  have htries : ¬ d.tries ≥ 3 := by
    rw [ge_iff_le, BitVec.le_def, W.tries]
    simp
    omega
  refine ⟨{ d with tries := d.tries + 1 }, ?_, ?_⟩
  · rw [GPSloop_silence W.silent, listenForSomething, get_bind_apply,
      if_pos ((W.due_iff hle hlt).2 hdue), if_pos W.empty, modify_bind_apply, if_neg htries]
    rfl
  · refine ⟨W.index, W.start, W.rx, W.silent, W.empty, ?_, W.warnings, W.errors⟩
    rw [BitVec.toNat_add, W.tries]
    simp
    omega

/-- The third call gives the rate up. -/
theorem Waiting.third (W : Waiting w k 2 T₀ d) (hle : T₀ ≤ x.tested) (hlt : x.tested < 2 ^ 32)
    (hdue : T₀ + 1000 < x.tested) : GPSloop x.pass d =
      (tryNext (shown 32 x.opened) { d with tries := d.tries + 1, errors := d.errors + 1 }).map
        fun out => (.noDataReceived :: out.1, out.2) := by
  have htries : d.tries ≥ 3 := by
    rw [ge_iff_le, BitVec.le_def, W.tries]
    simp
  rw [GPSloop_silence W.silent, listenForSomething, get_bind_apply,
    if_pos ((W.due_iff hle hlt).2 hdue), if_pos W.empty, modify_bind_apply, if_pos htries,
    modify_bind_apply, emit_bind_apply]

theorem tryBaud_apply {baud : ℕ} {begun : BitVec 32} (h : baud_table[d.baud_index]? = some baud) :
    tryBaud begun d = some ([.checking baud], some ((), { d with baudStartTime := begun })) := by
  rw [tryBaud, get_bind_apply, h, access_bind_apply, emit_bind_apply]
  rfl

/-- The port is opened at the next rate, if there is one. -/
theorem Waiting.next (W : Waiting w k 2 T₀ d) (hle : T₀ ≤ x.tested) (hlt : x.tested < 2 ^ 32)
    (hdue : T₀ + 1000 < x.tested) (hk : k < 10) :
    ∃ d' baud, rates[k + 1]? = some baud ∧
      GPSloop x.pass d = some ([.noDataReceived, .checking baud], some ((), d')) ∧
      Waiting w (k + 1) 0 x.opened d' := by
  obtain ⟨hindex, hlt'⟩ : order[k + 1]? = some (nextBaudIndex d.baud_index) ∧
      nextBaudIndex d.baud_index < num_bauds := by
    rcases nextBaudIndex_spec W.index with h | ⟨rfl, -⟩
    · exact h
    · omega
  obtain ⟨baud, hbaud⟩ : ∃ baud, baud_table[nextBaudIndex d.baud_index]? = some baud :=
    ⟨_, List.getElem?_eq_getElem hlt'⟩
  have hrate := baud_order (k + 1) (by omega)
  rw [hindex, Option.bind_some, hbaud] at hrate
  have hanother : tryAnotherBaudRate (shown 32 x.opened)
      { d with tries := 1, errors := d.errors + 1 } =
        some ([.checking baud], some ((), { d with
          baudStartTime := shown 32 x.opened
          errors := d.errors + 1
          baud_index := nextBaudIndex d.baud_index
          tries := 1 })) := by
    rw [tryAnotherBaudRate, get_bind_apply, if_neg (Nat.not_le.2 hlt'), modify_bind_apply,
      tryBaud_apply hbaud]
  refine ⟨{ d with
    valid_sentence_received := 0
    baudStartTime := shown 32 x.opened
    errors := d.errors + 1
    baud_index := nextBaudIndex d.baud_index
    tries := 1 }, baud, hrate.symm, ?_, ?_⟩
  · rw [W.third hle hlt hdue, tryNext, modify_bind_apply, bind_of_return hanother]
    rfl
  · refine ⟨hindex, rfl, W.rx, rfl, W.empty, rfl, W.warnings, ?_⟩
    have herrors : (d.errors + 1).toNat = k + 1 := by
      rw [BitVec.toNat_add, W.errors]
      simp
      omega
    exact herrors

/-- After the last rate the sketch halts. -/
theorem Waiting.last (W : Waiting w 10 2 T₀ d) (hle : T₀ ≤ x.tested) (hlt : x.tested < 2 ^ 32)
    (hdue : T₀ + 1000 < x.tested) : GPSloop x.pass d =
      some ([.noDataReceived, .allBaudRatesTried, .completed w 11], none) := by
  have hge : num_bauds ≤ nextBaudIndex d.baud_index := by
    rcases nextBaudIndex_spec W.index with ⟨h, -⟩ | ⟨-, h⟩
    · simp [order] at h
    · exact h
  have hhalt : tryAnotherBaudRate (shown 32 x.opened)
      { d with tries := 1, errors := d.errors + 1 } =
        some ([.allBaudRatesTried, .completed w 11], none) := by
    have herrors : d.errors + 1 = 11 := by
      apply BitVec.eq_of_toNat_eq
      rw [BitVec.toNat_add, W.errors]
      rfl
    rw [← W.warnings, ← herrors, tryAnotherBaudRate, get_bind_apply, if_pos hge,
      modify_bind_apply, emit_bind_apply, hang,
      get_bind_apply, emit_bind_apply]
    rfl
  rw [W.third hle hlt hdue, tryNext, modify_bind_apply, bind_of_halt hhalt]
  rfl

/-! ### Every run in silence -/

/-- What is printed from when the rate at the place `k` is given up until the sketch halts. -/
def restLog (w : BitVec 8) (k : ℕ) : List Event :=
  .noDataReceived :: (rates.drop (k + 1)).flatMap (fun baud => [.checking baud, .noDataReceived]) ++
    [.allBaudRatesTried, .completed w 11]

theorem restLog_succ {w : BitVec 8} {baud : ℕ} (h : rates[k + 1]? = some baud) :
    restLog w k = [.noDataReceived, .checking baud] ++ restLog w (k + 1) := by
  obtain ⟨hlt, rfl⟩ := List.getElem?_eq_some_iff.1 h
  rw [restLog, List.drop_eq_getElem_cons hlt, List.flatMap_cons]
  rfl

/-- How long a rate is kept at most, if the calls are `g` milliseconds apart at most. -/
def patience (g : ℕ) : ℕ := 1000 + 4 * g

/-- The sketch in silence, `g` milliseconds at most between the calls: the port was opened at the
time `S` first, `k` rates have been given up since, the last one at the time `T₀`, and the last call
has ended at the time `T`. -/
structure Lasting (g S : ℕ) (w : BitVec 8) (k j T₀ T : ℕ) (d : State) : Prop
    extends Waiting w k j T₀ d where
  counted : j < 3
  slow : S + 1001 * k ≤ T₀
  soon : T₀ ≤ S + k * patience g
  later : T₀ ≤ T
  polled : T ≤ T₀ + 1000 + (j + 1) * g

variable {g S T : ℕ} {xs : List Silence}

/-- What one call does in silence. -/
theorem Lasting.step (L : Lasting g S w k j T₀ T d) (hS : S + 11 * patience g < 2 ^ 32)
    (htested : T ≤ x.tested) (hopened : x.tested ≤ x.opened) (hended : x.opened ≤ T + g) :
    (∃ j' d', GPSloop x.pass d = some ([], some ((), d')) ∧ Lasting g S w k j' T₀ x.opened d') ∨
      (∃ baud d', rates[k + 1]? = some baud ∧
        GPSloop x.pass d = some ([.noDataReceived, .checking baud], some ((), d')) ∧
          Lasting g S w (k + 1) 0 x.opened x.opened d') ∨
      (k = 10 ∧ S + 1001 * 11 ≤ x.opened ∧ GPSloop x.pass d =
        some ([.noDataReceived, .allBaudRatesTried, .completed w 11], none)) := by
  obtain ⟨W, hj, hslow, hsoon, hlater, hpolled⟩ := L
  have hk := lt_of_order W.index
  have hpatience : patience g = 1000 + 4 * g := rfl
  have hkg' : (k + 1) * patience g = k * patience g + patience g := Nat.succ_mul _ _
  have hkg : (k + 1) * patience g ≤ 11 * patience g := Nat.mul_le_mul_right _ hk
  have hjg : (j + 1) * g ≤ 3 * g := Nat.mul_le_mul_right _ hj
  have hjg' : (j + 1 + 1) * g = (j + 1) * g + g := Nat.succ_mul _ _
  have hle : T₀ ≤ x.tested := by omega
  have hlt : x.tested < 2 ^ 32 := by omega
  rcases Nat.lt_or_ge (T₀ + 1000) x.tested with hdue | hearly
  · rcases Nat.lt_or_ge j 2 with hj2 | hj2
    · obtain ⟨d', hrun, W'⟩ := W.counted hle hlt hdue hj2
      exact Or.inl ⟨j + 1, d', hrun, W', by omega, hslow, hsoon, by omega, by omega⟩
    · obtain rfl : j = 2 := by omega
      rcases Nat.lt_or_ge k 10 with hk10 | hk10
      · obtain ⟨d', baud, hbaud, hrun, W'⟩ := W.next hle hlt hdue hk10
        have hslow' : S + 1001 * (k + 1) ≤ x.opened := by omega
        have hsoon' : x.opened ≤ S + (k + 1) * patience g := by omega
        have hpolled' : x.opened ≤ x.opened + 1000 + (0 + 1) * g := by omega
        exact Or.inr (Or.inl ⟨baud, d', hbaud, hrun, W', by omega, hslow', hsoon', le_rfl,
          hpolled'⟩)
      · obtain rfl : k = 10 := by omega
        exact Or.inr (Or.inr ⟨rfl, by omega, W.last hle hlt hdue⟩)
  · refine Or.inl ⟨j, d, W.early hle hlt hearly, W, hj, hslow, hsoon, by omega, ?_⟩
    have hg : g ≤ (j + 1) * g := Nat.le_mul_of_pos_left g (Nat.succ_pos j)
    omega

theorem Lasting.end_le (L : Lasting g S w k j T₀ T d) : T ≤ S + 11 * patience g := by
  have hk := lt_of_order L.index
  have hpatience : patience g = 1000 + 4 * g := rfl
  have hkg' : (k + 1) * patience g = k * patience g + patience g := Nat.succ_mul _ _
  have hkg : (k + 1) * patience g ≤ 11 * patience g := Nat.mul_le_mul_right _ hk
  have hjg : (j + 1) * g ≤ 3 * g := Nat.mul_le_mul_right _ L.counted
  have hsoon := L.soon
  have hpolled := L.polled
  omega

theorem le_endOf {g : ℕ} (hxs : Timely g T xs) : T ≤ endOf T xs := by
  induction xs generalizing T with
  | nil => exact le_rfl
  | cons x xs ih =>
      obtain ⟨htested, hopened, -, hrest⟩ := hxs
      exact (htested.trans hopened).trans (ih hrest)

/-- **Any number of calls in silence**: the sketch goes on with what it prints, or it has printed all
of it and halted. -/
theorem Lasting.run (L : Lasting g S w k j T₀ T d) (hS : S + 11 * patience g < 2 ^ 32)
    (hxs : Timely g T xs) :
    ∃ l r, forEach GPSloop (xs.map Silence.pass) d = some (l, r) ∧
      (r ≠ none → l <+: restLog w k ∧ endOf T xs ≤ S + 11 * patience g) ∧
      (r = none → l = restLog w k ∧ S + 1001 * 11 ≤ endOf T xs) := by
  induction xs generalizing k j T₀ T d with
  | nil =>
      refine ⟨[], some ((), d), rfl, fun _ => ⟨List.nil_prefix, L.end_le⟩, ?_⟩
      intro hr
      cases hr
  | cons x xs ih =>
      obtain ⟨htested, hopened, hended, hrest⟩ := hxs
      rcases L.step hS htested hopened hended with ⟨j', d', hrun, L'⟩ | ⟨baud, d', hbaud, hrun, L'⟩ |
        ⟨rfl, hend, hrun⟩
      · obtain ⟨l, r, hloop, hgoes, hhalts⟩ := ih L' hrest
        refine ⟨l, r, ?_, hgoes, hhalts⟩
        rw [List.map_cons, forEach, bind_of_return hrun, hloop]
        rfl
      · obtain ⟨l, r, hloop, hgoes, hhalts⟩ := ih L' hrest
        refine ⟨[.noDataReceived, .checking baud] ++ l, r, ?_, ?_, ?_⟩
        · rw [List.map_cons, forEach, bind_of_return hrun, hloop]
          rfl
        · intro hr
          rw [restLog_succ hbaud]
          exact ⟨(List.prefix_append_right_inj _).2 (hgoes hr).1, (hgoes hr).2⟩
        · intro hr
          rw [restLog_succ hbaud, (hhalts hr).1]
          exact ⟨rfl, (hhalts hr).2⟩
      · refine ⟨restLog w 10, none, ?_, fun hr => absurd rfl hr, fun _ => ⟨rfl, ?_⟩⟩
        · rw [List.map_cons, forEach, bind_of_halt hrun]
          rfl
        · exact hend.trans (le_endOf hrest)

/-- What `setup` warns of. -/
def warned (noFields noMessages : Bool) : List Event :=
  (if noFields then [.noFieldsEnabled] else []) ++ if noMessages then [.noMessagesEnabled] else []

/-- All that is printed if nothing ever arrives. -/
def silentLog (noFields noMessages : Bool) : List Event :=
  warned noFields noMessages ++ rates.flatMap (fun baud => [.checking baud, .noDataReceived]) ++
    [.allBaudRatesTried, .completed (BitVec.ofNat 8 (warned noFields noMessages).length) 11]

/-- The port is opened at the first rate at the time `S`. -/
theorem setup_boot_apply (noFields noMessages : Bool) (g S : ℕ) :
    ∃ d, setup noFields noMessages (shown 32 S) State.boot =
        some (warned noFields noMessages ++ [.checking 9600], some ((), d)) ∧
      Lasting g S (BitVec.ofNat 8 (warned noFields noMessages).length) 0 0 S S d := by
  have hd : ∃ d, setup noFields noMessages (shown 32 S) State.boot =
        some (warned noFields noMessages ++ [.checking 9600], some ((), d)) ∧
      Waiting (BitVec.ofNat 8 (warned noFields noMessages).length) 0 0 S d := by
    cases noFields <;> cases noMessages <;>
      exact ⟨_, rfl, ⟨rfl, rfl, rfl, rfl, rfl, rfl, rfl, rfl⟩⟩
  obtain ⟨d, hsetup, W⟩ := hd
  exact ⟨d, hsetup, W, by omega, by omega, by omega, le_rfl, by omega⟩

/-- **A GPS that sends nothing**: at most `11 * patience g` milliseconds after the port was opened
first the sketch has reported that all rates were tried, with one error for each, and has halted, and
not before eleven times a second; until then it has printed a part of that. -/
theorem silent_device (noFields noMessages : Bool) (g S : ℕ) (xs : List Silence)
    (hS : S + 11 * patience g < 2 ^ 32) (hxs : Timely g S xs) :
    ∃ h r, run noFields noMessages (shown 32 S) (xs.map Silence.pass) State.boot = some (h, r) ∧
      (r ≠ none → h <+: silentLog noFields noMessages ∧ endOf S xs ≤ S + 11 * patience g) ∧
      (r = none → h = silentLog noFields noMessages ∧ S + 1001 * 11 ≤ endOf S xs) := by
  obtain ⟨d, hsetup, L⟩ := setup_boot_apply noFields noMessages g S
  obtain ⟨l, r, hrun, hgoes, hhalts⟩ := L.run hS hxs
  have hlog : silentLog noFields noMessages = warned noFields noMessages ++ [.checking 9600] ++
      restLog (BitVec.ofNat 8 (warned noFields noMessages).length) 0 := by
    simp [silentLog, restLog, rates]
  refine ⟨warned noFields noMessages ++ [.checking 9600] ++ l, r, ?_, ?_, ?_⟩
  · rw [Diagnostic.run, bind_of_return hsetup, hrun]
    rfl
  · intro hr
    rw [hlog]
    exact ⟨(List.prefix_append_right_inj _).2 (hgoes hr).1, (hgoes hr).2⟩
  · intro hr
    rw [hlog, (hhalts hr).1]
    exact ⟨rfl, (hhalts hr).2⟩

/-- Calls every `g` milliseconds. -/
def every (g : ℕ) : ℕ → ℕ → List Silence
  | 0, _ => []
  | n + 1, T => ⟨T + g, T + g, 0⟩ :: every g n (T + g)

theorem timely_every (g n T : ℕ) : Timely g T (every g n T) ∧ endOf T (every g n T) = T + n * g := by
  induction n generalizing T with
  | zero => exact ⟨trivial, by rw [Nat.zero_mul]; rfl⟩
  | succ n ih =>
      obtain ⟨htimely, hend⟩ := ih (T + g)
      refine ⟨⟨Nat.le_add_right T g, le_rfl, le_rfl, htimely⟩, hend.trans ?_⟩
      rw [Nat.succ_mul]
      omega

/-- Calls every ten milliseconds: the sketch has halted after twelve seconds. -/
theorem silent_device_polled : ∃ h,
    run false false (shown 32 100) ((every 10 1200 100).map Silence.pass) State.boot =
      some (h, none) ∧ h = silentLog false false := by
  obtain ⟨htimely, hend⟩ := timely_every 10 1200 100
  obtain ⟨h, r, hrun, hgoes, hhalts⟩ :=
    silent_device false false 10 100 (every 10 1200 100) (by decide) htimely
  have hr : r = none := by
    by_contra hne
    have hle := (hgoes hne).2
    rw [hend] at hle
    exact absurd hle (by decide)
  exact ⟨h, hr ▸ hrun, (hhalts hr).1⟩

end LoRaGPS.Diagnostic
