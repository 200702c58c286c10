/-
**The loop of a mesh node.**

One iteration of `loop()` of `1LoRaNode.ino`: the node broadcasts its own position every five
seconds, and then listens: a record of another node is stored, and sent on with the node's own ID
as `senderID`.  An iteration reads the clock up to six times, and every reading is an input of its
own.  The debug timer and what the sketch prints are left out, and so is the LED.

Main definitions:

* `LoRaGPS.LoRaNode`, `LoRaGPS.LoRaNode.boot` — the state of a node;
* `LoRaGPS.LoRaNode.broadcast`, `LoRaGPS.LoRaNode.receive`, `LoRaGPS.LoRaNode.loop` — the code.

Main results:

* `LoRaGPS.LoRaNode.broadcast_sent` — what is broadcast carries the node's ID twice;
* `LoRaGPS.LoRaNode.loop_spec` — **what an iteration does** to the history and to the radio;
* `LoRaGPS.LoRaNode.loop_total` — an iteration stays inside the arrays.
-/

import LoRaGPS.NodeHistory

set_option relaxedAutoImplicit false
set_option autoImplicit false

namespace LoRaGPS

/-! ### What an iteration reads -/

/-- What the sketch reads from `TinyGPSPlus`.  The coordinates are the bit patterns of the
`double`s converted to `float`. -/
structure Gps where
  locationValid : Bool
  altitudeValid : Bool
  lat : BitVec 32
  lng : BitVec 32
  meters : BitVec 32
  dateValid : Bool
  timeValid : Bool
  year : ℕ
  month : ℕ
  day : ℕ
  hour : ℕ
  minute : ℕ
  second : ℕ
deriving DecidableEq, Repr

/-- The fields of `struct tm` that the sketch sets. -/
structure Tm where
  year : ℤ
  mon : ℤ
  mday : ℤ
  hour : ℤ
  min : ℤ
  sec : ℤ

/-- The days from the first of January 1970 to a day of the Gregorian calendar.  The year is taken
to begin with March. -/
def daysFromEpoch (year mon mday : ℤ) : ℤ :=
  let y := year + mon / 12 - if mon % 12 < 2 then 1 else 0
  365 * y + y / 4 - y / 100 + y / 400 + (153 * ((mon + 10) % 12) + 2) / 5 + mday - 1 - 719468

/-- `mktime` in UTC, which is what the boards have; the fields need not be in range. -/
def mktime (t : Tm) : ℤ :=
  daysFromEpoch (t.year + 1900) t.mon t.mday * 86400 + t.hour * 3600 + t.min * 60 + t.sec

/-- `convertToUnixTimestamp`. -/
def convertToUnixTimestamp (gps : Gps) : BitVec 32 :=
  if gps.dateValid ∧ gps.timeValid then
    BitVec.ofInt 32 (mktime
      { year := gps.year - 1900
        mon := gps.month - 1
        mday := gps.day
        hour := gps.hour
        min := gps.minute
        sec := gps.second })
  else 0

example : mktime ⟨100, 1, 29, 12, 30, 1⟩ = 951827401 := by decide

/-- What an iteration of `loop()` reads apart from the radio: the clock wherever the code calls
`millis()`, in the order of the code, the GPS and the battery. -/
structure LoopInput where
  millisFirst : BitVec 32
  millisValid : BitVec 32
  millisCheck : BitVec 32
  millisSend : BitVec 32
  millisGrace : BitVec 32
  millisStamp : BitVec 32
  gps : Gps
  batteryLevel : BitVec 32
deriving DecidableEq, Repr

/-- An iteration that takes less than a millisecond, with the GPS showing a position or nothing. -/
def LoopInput.at (millis : BitVec 32) (gpsValid : Bool) : LoopInput where
  millisFirst := millis
  millisValid := millis
  millisCheck := millis
  millisSend := millis
  millisGrace := millis
  millisStamp := millis
  gps := ⟨gpsValid, gpsValid, 0, 0, 0, false, false, 0, 0, 0, 0, 0, 0⟩
  batteryLevel := 0

/-! ### The code -/

/-- The globals and the statics of the sketch; `gpsLastValidTime` is initialised by the first call
of `loop()`. -/
structure LoRaNode where
  nodeHistories : List NodeHistory
  lastBroadcast : BitVec 32
  gpsLastValidTime : Option (BitVec 32)
deriving DecidableEq, Repr

/-- An `uint16_t` ID, as an `int`. -/
def intID (curr_ID : BitVec 16) : BitVec 32 := curr_ID.setWidth 32

theorem intID_inj {a b : BitVec 16} (h : intID a = intID b) : a = b := by
  have hval := congrArg BitVec.toNat h
  simp only [intID, BitVec.toNat_setWidth] at hval
  apply BitVec.eq_of_toNat_eq
  omega

namespace LoRaNode

/-- A node that has just been switched on. -/
def boot : LoRaNode := ⟨LoRaGPS.nodeHistories, 0, none⟩

/-- How the sending half of an iteration ends: it was not yet time, a record was sent, or the
iteration returned because the GPS was lost only a moment ago. -/
inductive Sending
  | notDue
  | sent (gpsData : GPSData)
  | skipped
deriving DecidableEq, Repr

/-- The sending half of `loop()`. -/
def broadcast (curr_ID : BitVec 16) (node : LoRaNode) (inp : LoopInput) : LoRaNode × Sending :=
  let gpsValid := inp.gps.locationValid && inp.gps.altitudeValid
  let gpsLastValidTime :=
    if gpsValid then inp.millisValid else node.gpsLastValidTime.getD inp.millisFirst
  let node := { node with gpsLastValidTime := some gpsLastValidTime }
  if inp.millisCheck - node.lastBroadcast ≥ 5000 then
    let node := { node with lastBroadcast := inp.millisSend }
    if gpsValid then
      (node, .sent
        { senderID := intID curr_ID
          nodeID := intID curr_ID
          batteryLevel := inp.batteryLevel
          latitude := inp.gps.lat
          longitude := inp.gps.lng
          altitude := inp.gps.meters
          timestamp := convertToUnixTimestamp inp.gps })
    else if inp.millisGrace - gpsLastValidTime ≥ 10000 then
      -- the fake location: `0xC1200000` is the `float` `-10.0`
      (node, .sent
        { senderID := intID curr_ID
          nodeID := intID curr_ID
          batteryLevel := inp.batteryLevel
          latitude := 0xC1200000
          longitude := 0xC1200000
          altitude := 0
          timestamp := inp.millisStamp / 1000 })
    else (node, .skipped)
  else (node, .notDue)

/-- The listening half of `loop()`: the node and what it sends on. -/
def receive (curr_ID : BitVec 16) (node : LoRaNode) :
    Option GPSData → Option (LoRaNode × Option GPSData)
  | none => some (node, none)
  | some incoming =>
      if incoming.nodeID ≠ intID curr_ID then
        (storePosition node.nodeHistories incoming).map fun hs =>
          ({ node with nodeHistories := hs },
            if incoming.senderID ≠ intID curr_ID then
              some { incoming with senderID := intID curr_ID }
            else none)
      else some (node, none)

/-- What an iteration leaves behind: the node, the records it sent, and whether it got as far as
to listen. -/
structure LoopOut where
  node : LoRaNode
  own : Option GPSData
  relayed : Option GPSData
  listened : Bool
deriving DecidableEq, Repr

/-- One iteration of `loop()`; `received` is the record that `rf95.recv` would deliver. -/
def loop (curr_ID : BitVec 16) (node : LoRaNode) (inp : LoopInput) (received : Option GPSData) :
    Option LoopOut :=
  match broadcast curr_ID node inp with
  | (node, .skipped) => some ⟨node, none, none, false⟩
  | (node, .notDue) =>
      (receive curr_ID node received).map fun r => ⟨r.1, none, r.2, true⟩
  | (node, .sent gpsData) =>
      (receive curr_ID node received).map fun r => ⟨r.1, some gpsData, r.2, true⟩

/-- How the sending half has ended, by what was sent and whether the iteration got to listen. -/
def LoopOut.sending (out : LoopOut) : Sending :=
  match out.own with
  | some gpsData => .sent gpsData
  | none => if out.listened then .notDue else .skipped

/-! ### What an iteration does -/

theorem broadcast_nodeHistories (curr_ID : BitVec 16) (node : LoRaNode) (inp : LoopInput) :
    (broadcast curr_ID node inp).1.nodeHistories = node.nodeHistories := by
  simp only [broadcast]
  split_ifs <;> rfl

/-- What is broadcast carries the node's ID as its origin and as its last hop. -/
theorem broadcast_sent {curr_ID : BitVec 16} {node : LoRaNode} {inp : LoopInput} {g : GPSData}
    (h : (broadcast curr_ID node inp).2 = .sent g) :
    g.nodeID = intID curr_ID ∧ g.senderID = intID curr_ID := by
  simp only [broadcast] at h
  split_ifs at h <;> cases h <;> exact ⟨rfl, rfl⟩

/-- What the listening half does with what it received. -/
inductive Heard (curr_ID : BitVec 16) (hs : List NodeHistory) :
    Option GPSData → List NodeHistory → Option GPSData → Prop
  | nothing : Heard curr_ID hs none hs none
  | own {g : GPSData} (hg : g.nodeID = intID curr_ID) : Heard curr_ID hs (some g) hs none
  | stored {g : GPSData} {hs' : List NodeHistory} (hg : g.nodeID ≠ intID curr_ID)
      (hstore : storePosition hs g = some hs') (hsender : g.senderID = intID curr_ID) :
      Heard curr_ID hs (some g) hs' none
  | relayed {g : GPSData} {hs' : List NodeHistory} (hg : g.nodeID ≠ intID curr_ID)
      (hstore : storePosition hs g = some hs') (hsender : g.senderID ≠ intID curr_ID) :
      Heard curr_ID hs (some g) hs' (some { g with senderID := intID curr_ID })

theorem Heard.eq_of_none {curr_ID : BitVec 16} {hs hs' : List NodeHistory}
    {relayed : Option GPSData} (h : Heard curr_ID hs none hs' relayed) : hs' = hs := by
  cases h
  rfl

/-- What is handled, less the records of the node itself, is stored. -/
theorem Heard.storeAll {curr_ID : BitVec 16} {hs hs' : List NodeHistory}
    {received relayed : Option GPSData} (h : Heard curr_ID hs received hs' relayed) :
    LoRaGPS.storeAll hs (received.toList.filter fun g => g.nodeID ≠ intID curr_ID) = some hs' := by
  have hone : ∀ {g : GPSData}, g.nodeID ≠ intID curr_ID → storePosition hs g = some hs' →
      LoRaGPS.storeAll hs ([g].filter fun g => g.nodeID ≠ intID curr_ID) = some hs' := by
    intro g hg hstore
    simp [LoRaGPS.storeAll, hg, hstore]
  cases h with
  | nothing => rfl
  | own hg => simp [LoRaGPS.storeAll, hg]
  | stored hg hstore hsender => exact hone hg hstore
  | relayed hg hstore hsender => exact hone hg hstore

theorem receive_heard {curr_ID : BitVec 16} {node : LoRaNode} {received : Option GPSData}
    {r : LoRaNode × Option GPSData} (h : receive curr_ID node received = some r) :
    Heard curr_ID node.nodeHistories received r.1.nodeHistories r.2 := by
  cases received with
  | none =>
      obtain rfl := Option.some_inj.1 h
      exact .nothing
  | some g =>
      rw [receive] at h
      by_cases hg : g.nodeID = intID curr_ID
      · rw [if_neg (not_not_intro hg)] at h
        obtain rfl := Option.some_inj.1 h
        exact .own hg
      · rw [if_pos hg] at h
        obtain ⟨hs', hstore, rfl⟩ := Option.map_eq_some_iff.1 h
        by_cases hsender : g.senderID = intID curr_ID
        · rw [if_neg (not_not_intro hsender)]
          exact .stored hg hstore hsender
        · rw [if_pos hsender]
          exact .relayed hg hstore hsender

/-- **What an iteration does**: it may broadcast a record with the node's ID, and if it listens it
handles what it received. -/
theorem loop_spec {curr_ID : BitVec 16} {node : LoRaNode} {inp : LoopInput}
    {received : Option GPSData} {out : LoopOut}
    (h : loop curr_ID node inp received = some out) :
    (∀ g, out.own = some g → g.nodeID = intID curr_ID ∧ g.senderID = intID curr_ID) ∧
      Heard curr_ID node.nodeHistories (if out.listened then received else none)
        out.node.nodeHistories out.relayed := by
  have hhist := broadcast_nodeHistories curr_ID node inp
  have hsent := fun g => @broadcast_sent curr_ID node inp g
  rw [loop] at h
  generalize broadcast curr_ID node inp = b at h hhist hsent
  obtain ⟨node', sending⟩ := b
  simp only at hhist hsent
  rw [← hhist]
  cases sending with
  | skipped =>
      obtain rfl := Option.some_inj.1 h
      exact ⟨fun g hg => by simp at hg, .nothing⟩
  | notDue =>
      obtain ⟨r, hr, rfl⟩ := Option.map_eq_some_iff.1 h
      exact ⟨fun g hg => by simp at hg, receive_heard hr⟩
  | sent gpsData =>
      obtain ⟨r, hr, rfl⟩ := Option.map_eq_some_iff.1 h
      refine ⟨?_, receive_heard hr⟩
      intro g hg
      obtain rfl := Option.some_inj.1 hg
      exact hsent _ rfl

/-- The sending half ends as `broadcast` says. -/
theorem loop_sending {curr_ID : BitVec 16} {node : LoRaNode} {inp : LoopInput}
    {received : Option GPSData} {out : LoopOut}
    (h : loop curr_ID node inp received = some out) :
    out.sending = (broadcast curr_ID node inp).2 := by
  rw [loop] at h
  generalize broadcast curr_ID node inp = b at h ⊢
  obtain ⟨node', sending⟩ := b
  cases sending with
  | skipped =>
      obtain rfl := Option.some_inj.1 h
      rfl
  | notDue =>
      obtain ⟨r, -, rfl⟩ := Option.map_eq_some_iff.1 h
      rfl
  | sent gpsData =>
      obtain ⟨r, -, rfl⟩ := Option.map_eq_some_iff.1 h
      rfl

theorem LoopOut.sending_eq_sent_iff {out : LoopOut} {g : GPSData} :
    out.sending = .sent g ↔ out.own = some g := by
  obtain ⟨node, own, relayed, listened⟩ := out
  cases own with
  | none => cases listened <;> simp [LoopOut.sending]
  | some gpsData => simp [LoopOut.sending]

theorem loop_own {curr_ID : BitVec 16} {node : LoRaNode} {inp : LoopInput}
    {received : Option GPSData} {out : LoopOut}
    (h : loop curr_ID node inp received = some out) (g : GPSData) :
    out.own = some g ↔ (broadcast curr_ID node inp).2 = .sent g := by
  rw [← LoopOut.sending_eq_sent_iff, loop_sending h]

/-- **An iteration stays inside the arrays**, whatever it reads and receives, while the slots
represent a table of logs. -/
theorem loop_total {node : LoRaNode} {t : List (BitVec 32 × List GPSData)}
    (H : Represents node.nodeHistories t) (curr_ID : BitVec 16) (inp : LoopInput)
    (received : Option GPSData) : ∃ out, loop curr_ID node inp received = some out := by
  have hreceive : ∀ node' : LoRaNode, node'.nodeHistories = node.nodeHistories →
      ∃ r, receive curr_ID node' received = some r := by
    intro node' hnode
    cases received with
    | none => exact ⟨_, rfl⟩
    | some g =>
        obtain ⟨hs', hstore, -⟩ := storePosition_represents H g
        rw [receive, hnode, hstore]
        split_ifs <;> exact ⟨_, rfl⟩
  have hhist := broadcast_nodeHistories curr_ID node inp
  rw [loop]
  generalize broadcast curr_ID node inp = b at hhist
  obtain ⟨node', sending⟩ := b
  obtain ⟨r, hr⟩ := hreceive node' hhist
  cases sending with
  | skipped => exact ⟨_, rfl⟩
  | notDue => exact ⟨_, by simp only [hr]; rfl⟩
  | sent gpsData => exact ⟨_, by simp only [hr]; rfl⟩

/-! ### Iterations that do one thing only -/

/-- An iteration for which it is not yet time to broadcast. -/
def quiet (node : LoRaNode) : LoopInput := .at node.lastBroadcast false

/-- An iteration for which it is time to broadcast, with the GPS valid. -/
def due (node : LoRaNode) : LoopInput := .at (node.lastBroadcast + 5000) true

theorem loop_quiet {curr_ID : BitVec 16} {node : LoRaNode} {received : Option GPSData}
    {out : LoopOut} (h : loop curr_ID node (quiet node) received = some out) :
    out.own = none ∧ out.listened = true := by
  have hnotDue : (broadcast curr_ID node (quiet node)).2 = .notDue := by
    simp [broadcast, quiet, LoopInput.at]
  rw [loop] at h
  generalize broadcast curr_ID node (quiet node) = b at h hnotDue
  obtain ⟨node', sending⟩ := b
  obtain rfl : sending = .notDue := hnotDue
  obtain ⟨r, -, rfl⟩ := Option.map_eq_some_iff.1 h
  exact ⟨rfl, rfl⟩

theorem loop_due {curr_ID : BitVec 16} {node : LoRaNode} {received : Option GPSData}
    {out : LoopOut} (h : loop curr_ID node (due node) received = some out) :
    ∃ g, out.own = some g := by
  have hsent : ∃ g, (broadcast curr_ID node (due node)).2 = .sent g := by
    have helapsed : node.lastBroadcast + 5000 - node.lastBroadcast = 5000 := by bv_omega
    simp only [broadcast, due, LoopInput.at, helapsed]
    exact ⟨_, rfl⟩
  obtain ⟨g, hg⟩ := hsent
  exact ⟨g, (loop_own h g).2 hg⟩

end LoRaNode

end LoRaGPS
