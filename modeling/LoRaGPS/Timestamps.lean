/-
**The timestamps of the records.**

`convertToUnixTimestamp` counts the seconds from 1970 to the date and the time of the GPS.  The
closed formula for the days is a numbering of the days of the months: every month begins where the
one before it ends.  So for two readings of the GPS the timestamps are ordered, as unsigned
numbers, in the way the dates and times are, and no two readings share a timestamp.  (The field of
a record is an `int`, and negative from the year 2038 on.)  A record that is sent without a reading
of the date has a timestamp that is smaller than all of these.

Main definitions:

* `LoRaGPS.months` — the months, numbered from the year `0`, with their days;
* `LoRaGPS.Gps.date` — the date and the time as a list;
* `LoRaGPS.Gps.InCalendar` — a reading that names a second of this century;
* `LoRaGPS.firstGpsStamp` — the first of January 2000.

Main results:

* `LoRaGPS.daysFromEpoch_succ` — a month begins where the one before it ends;
* `LoRaGPS.timestamps_ordered` — **timestamps are ordered as the dates are**;
* `LoRaGPS.LoRaNode.broadcast_timestamp` — the timestamps of what a node broadcasts.
-/

import LoRaGPS.Blocks
import LoRaGPS.LoRaNode
import Mathlib.Tactic.IntervalCases

set_option relaxedAutoImplicit false
set_option autoImplicit false

namespace LoRaGPS

/-! ### The days of the calendar -/

/-- The days of a month of the Gregorian calendar, with the months counted from `0`. -/
def monthDays (year mon : ℤ) : ℤ :=
  if mon = 1 then if year % 4 = 0 ∧ (year % 100 ≠ 0 ∨ year % 400 = 0) then 29 else 28
  else if mon = 3 ∨ mon = 5 ∨ mon = 8 ∨ mon = 10 then 30
  else 31

theorem monthDays_pos (year mon : ℤ) : 0 < monthDays year mon := by
  rw [monthDays]
  split_ifs <;> simp

/-- The days from 1970 to the first of March. -/
def march (year : ℤ) : ℤ := 365 * year + year / 4 - year / 100 + year / 400 - 719468

/-- From one March to the next it is the length of February that varies. -/
theorem march_eq (year : ℤ) : march year = march (year - 1) + 337 + monthDays year 1 := by
  simp only [march, monthDays, if_true]
  split_ifs <;> omega

/-- The days from the first of March to the first of a month. -/
def fromMarch (mon : ℤ) : ℤ := (153 * ((mon + 10) % 12) + 2) / 5

/-- The first of the month `mon` of `year`; `n` counts the months. -/
theorem daysFromEpoch_eq (year mon : ℤ) {n : ℤ} (hn : n = 12 * year + mon)
    (hmon : 0 ≤ mon ∧ mon < 12) :
    daysFromEpoch 0 n 1 = march (if mon < 2 then year - 1 else year) + fromMarch mon := by
  have hyear : n / 12 = year := by omega
  have hmod : n % 12 = mon := by omega
  have hshift : (n + 10) % 12 = (mon + 10) % 12 := by omega
  simp only [daysFromEpoch, march, fromMarch, hyear, hmod, hshift]
  split_ifs <;> simp <;> ring

/-- **A month begins where the one before it ends.** -/
theorem daysFromEpoch_succ (n : ℤ) :
    daysFromEpoch 0 (n + 1) 1 = daysFromEpoch 0 n 1 + monthDays (n / 12) (n % 12) := by
  have hmon : 0 ≤ n % 12 ∧ n % 12 < 12 := by omega
  have hn : n = 12 * (n / 12) + n % 12 := by omega
  generalize n / 12 = year at hn ⊢
  generalize n % 12 = mon at hn hmon ⊢
  rw [daysFromEpoch_eq year mon hn hmon]
  obtain rfl | rfl | rfl | h : mon = 0 ∨ mon = 1 ∨ mon = 11 ∨ 2 ≤ mon ∧ mon < 11 := by omega
  · rw [daysFromEpoch_eq year 1 (by omega) (by omega)]
    simp [fromMarch, monthDays]
    ring
  · -- the year of the formula changes after February
    have hmarch := march_eq year
    rw [daysFromEpoch_eq year 2 (by omega) (by omega)]
    simp [fromMarch]
    omega
  · -- the year of the calendar changes after December
    rw [daysFromEpoch_eq (year + 1) 0 (by omega) (by omega)]
    simp [fromMarch, monthDays]
    ring
  · rw [daysFromEpoch_eq year (mon + 1) (by omega) (by omega),
      if_neg (by omega), if_neg (by omega), add_assoc]
    congr 1
    obtain ⟨h₂, h₁₁⟩ := h
    interval_cases mon <;> rfl

/-- The months, numbered from the year `0`, with the days of each. -/
def months : Blocks where
  start n := daysFromEpoch 0 n 1
  length n := monthDays (n / 12) (n % 12)
  length_pos _ := monthDays_pos _ _
  start_succ := daysFromEpoch_succ

theorem daysFromEpoch_number (year mon mday : ℤ) :
    daysFromEpoch year mon mday = months.number (12 * year + mon) (mday - 1) := by
  have hyear : (12 * year + mon) / 12 = year + mon / 12 := by omega
  have hmod : (12 * year + mon) % 12 = mon % 12 := by omega
  have hshift : (12 * year + mon + 10) % 12 = (mon + 10) % 12 := by omega
  simp only [months, Blocks.number, daysFromEpoch, hyear, hmod, hshift, zero_add]
  ring

/-! ### The dates of the GPS -/

/-- The date and the time that the GPS shows. -/
def Gps.date (gps : Gps) : List ℕ :=
  [gps.year, gps.month, gps.day, gps.hour, gps.minute, gps.second]

/-- The GPS shows a second of this century: `TinyGPSDate::year` adds 2000 to two digits. -/
structure Gps.InCalendar (gps : Gps) : Prop where
  dateValid : gps.dateValid = true
  timeValid : gps.timeValid = true
  year : 2000 ≤ gps.year ∧ gps.year ≤ 2099
  month : 1 ≤ gps.month ∧ gps.month ≤ 12
  day : 1 ≤ gps.day ∧ (gps.day : ℤ) ≤ monthDays gps.year (gps.month - 1)
  hour : gps.hour < 24
  minute : gps.minute < 60
  second : gps.second < 60

/-- The first of January 2000, as a timestamp. -/
def firstGpsStamp : BitVec 32 := 946684800

/-- Years, months, days, hours, minutes and seconds. -/
def scales : List Blocks :=
  [.uniform 12 (by simp), months, .uniform 24 (by simp), .uniform 60 (by simp),
    .uniform 60 (by simp)]

/-- The offsets of the date and the time in their scales. -/
def Gps.offsets (gps : Gps) : List ℤ :=
  [gps.month - 1, gps.day - 1, gps.hour, gps.minute, gps.second]

/-- The seconds that the date and the time stand for. -/
def Gps.seconds (gps : Gps) : ℤ := Blocks.nest scales gps.year gps.offsets

theorem mktime_nest (t : Tm) : mktime t =
    Blocks.nest scales (t.year + 1900) [t.mon, t.mday - 1, t.hour, t.min, t.sec] := by
  simp only [mktime, scales, Blocks.nest, Blocks.number_uniform, daysFromEpoch_number]
  ring

namespace Gps.InCalendar

variable {gps gps' : Gps}

theorem fits (h : gps.InCalendar) : Blocks.Fits scales gps.year gps.offsets := by
  have hyear := h.year
  have hmonth := h.month
  have hday := h.day
  have hhour := h.hour
  have hminute := h.minute
  have hsecond := h.second
  refine .cons ⟨by omega, by rw [Blocks.length_uniform]; omega⟩ (.cons ⟨by omega, ?_⟩ (.cons ?_
    (.cons ?_ (.cons ?_ .nil))))
  · have hy : (12 * (gps.year : ℤ) + (gps.month - 1)) / 12 = gps.year := by omega
    have hm : (12 * (gps.year : ℤ) + (gps.month - 1)) % 12 = gps.month - 1 := by omega
    simp only [months, Blocks.number_uniform, hy, hm]
    omega
  all_goals
    rw [Blocks.length_uniform]
    omega

/-- The days lie between the first of January 2000 and the end of 2099. -/
theorem days (h : gps.InCalendar) :
    10957 ≤ months.number (12 * gps.year + (gps.month - 1)) (gps.day - 1) ∧
      months.number (12 * gps.year + (gps.month - 1)) (gps.day - 1) < 47482 := by
  have hyear := h.year
  have hmonth := h.month
  have hday := h.day
  obtain ⟨n, hn⟩ : ∃ n : ℤ, 12 * (gps.year : ℤ) + (gps.month - 1) = n := ⟨_, rfl⟩
  have hlength : months.length n = monthDays gps.year (gps.month - 1) := by
    have hy : n / 12 = gps.year := by omega
    have hm : n % 12 = gps.month - 1 := by omega
    simp only [months, hy, hm]
  have hfirst : months.start 24000 ≤ months.start n :=
    months.start_le (by omega)
  have hlast : months.start n + months.length n ≤ months.start 25200 :=
    months.start_add_length_le (by omega)
  have h₀ : months.start 24000 = 10957 := by decide
  have h₁ : months.start 25200 = 47482 := by decide
  rw [hn, Blocks.number]
  omega

theorem seconds_bounds (h : gps.InCalendar) :
    946684800 ≤ gps.seconds ∧ gps.seconds < 2 ^ 32 := by
  have hhour := h.hour
  have hminute := h.minute
  have hsecond := h.second
  have hdays := h.days
  simp only [Gps.seconds, Gps.offsets, scales, Blocks.nest, Blocks.number_uniform]
  omega

theorem toNat_timestamp (h : gps.InCalendar) :
    ((convertToUnixTimestamp gps).toNat : ℤ) = gps.seconds := by
  have hbounds := h.seconds_bounds
  have hmktime : mktime ⟨gps.year - 1900, gps.month - 1, gps.day, gps.hour, gps.minute,
      gps.second⟩ = gps.seconds := by
    rw [mktime_nest, Gps.seconds, Gps.offsets]
    simp
  rw [convertToUnixTimestamp, if_pos ⟨h.dateValid, h.timeValid⟩, hmktime, BitVec.toNat_ofInt,
    Int.emod_eq_of_lt (by omega) (by simpa using hbounds.2), Int.toNat_of_nonneg (by omega)]

/-- A timestamp of the GPS is later than 1999. -/
theorem firstGpsStamp_le (h : gps.InCalendar) : firstGpsStamp ≤ convertToUnixTimestamp gps := by
  have hbounds := h.seconds_bounds
  rw [← h.toNat_timestamp] at hbounds
  have hfirst : firstGpsStamp.toNat = 946684800 := rfl
  rw [BitVec.le_def]
  omega

end Gps.InCalendar

theorem stamp_lt_iff {gps gps' : Gps} (h : gps.InCalendar) (h' : gps'.InCalendar) :
    convertToUnixTimestamp gps < convertToUnixTimestamp gps' ↔ gps.date < gps'.date := by
  rw [BitVec.lt_def, ← Int.ofNat_lt, h.toNat_timestamp, h'.toNat_timestamp, Gps.seconds,
    Gps.seconds, Blocks.nest_lt_iff h.fits h'.fits]
  simp [Gps.offsets, Gps.date, List.cons_lt_cons_iff]

/-- A date that is not later has a timestamp that is not later. -/
theorem stamp_le_iff {gps gps' : Gps} (h : gps.InCalendar) (h' : gps'.InCalendar) :
    convertToUnixTimestamp gps ≤ convertToUnixTimestamp gps' ↔ gps.date ≤ gps'.date := by
  rw [← BitVec.not_lt, stamp_lt_iff h' h, not_lt]

/-- **Timestamps are ordered as the dates are**, and two dates never share one. -/
theorem timestamps_ordered {gps gps' : Gps} (h : gps.InCalendar) (h' : gps'.InCalendar) :
    (convertToUnixTimestamp gps < convertToUnixTimestamp gps' ↔ gps.date < gps'.date) ∧
      (convertToUnixTimestamp gps = convertToUnixTimestamp gps' ↔ gps.date = gps'.date) := by
  refine ⟨stamp_lt_iff h h', ?_⟩
  constructor
  · intro e
    exact le_antisymm ((stamp_le_iff h h').1 (e ▸ BitVec.le_refl _))
      ((stamp_le_iff h' h).1 (e ▸ BitVec.le_refl _))
  · intro e
    exact BitVec.le_antisymm ((stamp_le_iff h h').2 e.le) ((stamp_le_iff h' h).2 e.ge)

/-- The last second of a February with 29 days, and the first one of March. -/
theorem timestamps_ordered_leap :
    convertToUnixTimestamp ⟨true, true, 0, 0, 0, true, true, 2024, 2, 29, 23, 59, 59⟩ <
      convertToUnixTimestamp ⟨true, true, 0, 0, 0, true, true, 2024, 3, 1, 0, 0, 0⟩ :=
  (timestamps_ordered (by constructor <;> decide) (by constructor <;> decide)).1.2 (by decide)

/-! ### The timestamps of the broadcasts -/

/-- A record that is broadcast with the timestamp of a GPS without a date, or with the time since
the board was switched on, has an earlier timestamp than any date of the GPS. -/
theorem LoRaNode.broadcast_timestamp {curr_ID : BitVec 16} {node : LoRaNode} {inp : LoopInput}
    {g : GPSData} (h : (broadcast curr_ID node inp).2 = .sent g) :
    g.timestamp < firstGpsStamp ∨
      (inp.gps.dateValid ∧ inp.gps.timeValid) ∧ g.timestamp = convertToUnixTimestamp inp.gps := by
  have hfirst : firstGpsStamp.toNat = 946684800 := rfl
  simp only [broadcast] at h
  split_ifs at h <;> cases h
  · by_cases hvalid : inp.gps.dateValid ∧ inp.gps.timeValid
    · exact Or.inr ⟨hvalid, rfl⟩
    · left
      simp only [convertToUnixTimestamp, if_neg hvalid]
      decide
  · left
    have hthousand : (1000 : BitVec 32).toNat = 1000 := rfl
    have hlt := inp.millisStamp.isLt
    simp only [BitVec.lt_def, BitVec.toNat_udiv, hfirst, hthousand]
    omega

end LoRaGPS
