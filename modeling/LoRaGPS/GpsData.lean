/-
**The position record the mesh nodes exchange.**

All sketches of the mesh declare the same `struct GPSData` of seven four-byte fields.  The `float`
fields are kept as their bit patterns: the nodes copy them and never compute with them once they
are in a record.  The `int` fields are 32-bit words.

Main definitions:

* `LoRaGPS.GPSData` — the record;
* `LoRaGPS.GPSData.reading` — the record less the field that names the last hop;
* `LoRaGPS.GPSData.bytes`, `LoRaGPS.GPSData.load` — the layout of the record in memory.
-/

import LoRaGPS.Bytes

set_option relaxedAutoImplicit false
set_option autoImplicit false

namespace LoRaGPS

/-- `struct GPSData`. -/
structure GPSData where
  batteryLevel : BitVec 32
  senderID : BitVec 32
  nodeID : BitVec 32
  latitude : BitVec 32
  longitude : BitVec 32
  altitude : BitVec 32
  timestamp : BitVec 32
deriving DecidableEq, Repr

namespace GPSData

/-- The zero-initialised record. -/
def zero : GPSData := ⟨0, 0, 0, 0, 0, 0, 0⟩

/-- The record with the last hop forgotten: what the origin measured. -/
def reading (g : GPSData) : GPSData := { g with senderID := 0 }

@[simp] theorem reading_nodeID (g : GPSData) : g.reading.nodeID = g.nodeID := rfl

theorem nodeID_eq_of_reading {g g' : GPSData} (h : g.reading = g'.reading) :
    g.nodeID = g'.nodeID := by
  rw [← reading_nodeID g, h, reading_nodeID]

/-! ### Layout -/

/-- The words of the record, in the order of its fields. -/
def words (g : GPSData) : List (BitVec 32) :=
  [g.batteryLevel, g.senderID, g.nodeID, g.latitude, g.longitude, g.altitude, g.timestamp]

/-- The record in memory: seven words with no padding between them. -/
def bytes (g : GPSData) : List (BitVec 8) := Bytes.encode g.words

/-- `sizeof(GPSData)`. -/
def size : ℕ := 28

theorem length_bytes (g : GPSData) : g.bytes.length = size := Bytes.length_encode _

/-- The record that is found at the address `a`. -/
def load (m : Bytes.Memory) (a : ℕ) : GPSData :=
  { batteryLevel := m.word a
    senderID := m.word (a + 4)
    nodeID := m.word (a + 8)
    latitude := m.word (a + 12)
    longitude := m.word (a + 16)
    altitude := m.word (a + 20)
    timestamp := m.word (a + 24) }

theorem words_load (m : Bytes.Memory) (a : ℕ) : (load m a).words = m.words a 7 := rfl

theorem words_inj {g g' : GPSData} (h : g.words = g'.words) : g = g' := by
  cases g
  cases g'
  simpa [words] using h

/-- The record is made of the bytes from the address on. -/
theorem bytes_load (m : Bytes.Memory) (a : ℕ) :
    (load m a).bytes = (List.range' a size).map m := by
  rw [bytes, words_load, Bytes.encode_words]
  rfl

/-- A record is found where its bytes were written. -/
theorem load_write_bytes (m : Bytes.Memory) (a : ℕ) (g : GPSData) :
    load (m.write a g.bytes) a = g :=
  words_inj (Bytes.words_write m a [] g.words)

theorem bytes_inj {g g' : GPSData} (h : g.bytes = g'.bytes) : g = g' := by
  rw [← load_write_bytes (fun _ => 0) 0 g, h, load_write_bytes]

end GPSData

end LoRaGPS
