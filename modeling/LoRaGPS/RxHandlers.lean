/-
**The receive handlers and the buffer they copy a packet to.**

Three sketches are called back by the radio with the bytes of a packet: the two gateways
`3gateway_HeltecESP32.ino` and `3gateway_Wifi_Webserver_HeltecESP32.ino`, and the node
`1LoRaNode_heltecESP32.ino`.  All three copy the packet to the array `rxpacket` and put a zero
byte behind it; the gateways then take the record from the fifth byte on.  None of them looks at
the size of the packet first.  The buffer records at which indices it is accessed; what the
sketches print of it is left out.

Main definitions:

* `LoRaGPS.Receiver` — the globals of the handlers;
* `LoRaGPS.RxSketch.OnRxDone` — the three handlers;
* `LoRaGPS.InBounds` — the accesses to a buffer lie inside the array.

Main results:

* `LoRaGPS.written_OnRxDone`, `LoRaGPS.read_OnRxDone` — the indices a handler writes and reads;
* `LoRaGPS.rx_in_bounds_iff` — **a handler stays inside the array only in the node, and only for
  packets shorter than the array**.
-/

import LoRaGPS.GpsData

set_option relaxedAutoImplicit false
set_option autoImplicit false

namespace LoRaGPS

open Bytes

/-! ### The code -/

/-- The globals that the handlers change.  `rxpacket` is the array with the memory behind it, which
is taken to hold nothing else. -/
structure Receiver where
  rxpacket : Buffer
  rssi : BitVec 16
  rxSize : BitVec 16
  lora_idle : Bool

/-- What the handlers have in common: they copy the packet, and end it with a zero byte. -/
def Receiver.accept (s : Receiver) (payload : List (BitVec 8)) : Receiver :=
  { s with
    rxSize := BitVec.ofNat 16 payload.length
    rxpacket := (s.rxpacket.store 0 payload).store payload.length [0]
    lora_idle := true }

/-- The sketches that have a handler `OnRxDone`. -/
inductive RxSketch
  | gateway
  | gatewayWifi
  | loRaNodeHeltec
deriving DecidableEq, Repr

namespace Gateway

/-- `BUFFER_SIZE`. -/
def BUFFER_SIZE : ℕ := 28

/-- `OnRxDone` of a gateway, with the record that it decodes. -/
def OnRxDone (s : Receiver) (payload : List (BitVec 8)) (rssi : BitVec 16) : Receiver × GPSData :=
  let s := { s.accept payload with rssi := rssi }
  ({ s with rxpacket := s.rxpacket.load 4 GPSData.size }, GPSData.load s.rxpacket.mem 4)

end Gateway

namespace GatewayWifi

/-- `BUFFER_SIZE`. -/
def BUFFER_SIZE : ℕ := 28

/-- `OnRxDone` of the gateway with the web server, up to the pages it publishes. -/
def OnRxDone (s : Receiver) (payload : List (BitVec 8)) (rssi : BitVec 16) : Receiver × GPSData :=
  Gateway.OnRxDone s payload rssi

end GatewayWifi

namespace LoRaNodeHeltec

/-- `OnRxDone` of the node.  Its `rssi=rssi` assigns the argument to itself. -/
def OnRxDone (s : Receiver) (payload : List (BitVec 8)) (_rssi : BitVec 16) : Receiver :=
  s.accept payload

end LoRaNodeHeltec

/-- The declared length of `rxpacket`. -/
def RxSketch.rxLength : RxSketch → ℕ
  | gateway => Gateway.BUFFER_SIZE
  | gatewayWifi => GatewayWifi.BUFFER_SIZE
  | loRaNodeHeltec => GPSData.size

/-- The handler of a sketch. -/
def RxSketch.OnRxDone : RxSketch → Receiver → List (BitVec 8) → BitVec 16 → Receiver
  | gateway, s, payload, rssi => (Gateway.OnRxDone s payload rssi).1
  | gatewayWifi, s, payload, rssi => (GatewayWifi.OnRxDone s payload rssi).1
  | loRaNodeHeltec, s, payload, rssi => LoRaNodeHeltec.OnRxDone s payload rssi

/-! ### The accesses of a handler -/

/-- The accesses to a buffer lie inside an array of the given length. -/
structure InBounds (length : ℕ) (b : Buffer) : Prop where
  written : ∀ i ∈ b.written, i < length
  read : ∀ i ∈ b.read, i < length

/-- The globals when a handler is called, with no access made yet. -/
def Receiver.called (s : Receiver) (m : Memory) : Receiver := { s with rxpacket := Buffer.start m }

section Accesses

variable (sketch : RxSketch) (s : Receiver) (m : Memory) (payload : List (BitVec 8))
  (rssi : BitVec 16)

/-- A handler writes the bytes of the packet and one more. -/
theorem written_OnRxDone : (sketch.OnRxDone (s.called m) payload rssi).rxpacket.written =
    List.range' 0 (payload.length + 1) := by
  have hrange : List.range' 0 payload.length ++ List.range' payload.length 1 =
      List.range' 0 (payload.length + 1) := by
    simpa using List.range'_append_1 (s := 0) (m := payload.length) (n := 1)
  cases sketch <;> exact hrange

/-- The gateways read the record from the fifth byte on. -/
theorem read_OnRxDone : (sketch.OnRxDone (s.called m) payload rssi).rxpacket.read =
    if sketch = .loRaNodeHeltec then [] else List.range' 4 GPSData.size := by
  cases sketch <;> rfl

/-- **A handler stays inside the array exactly if it is the one of the node and the packet is
shorter than the array**; the gateways read past the end of theirs whatever they receive. -/
theorem rx_in_bounds_iff :
    InBounds sketch.rxLength (sketch.OnRxDone (s.called m) payload rssi).rxpacket ↔
      sketch = .loRaNodeHeltec ∧ payload.length < GPSData.size := by
  constructor
  · intro H
    have hnode : sketch = .loRaNodeHeltec := by
      by_contra hne
      have hlast := H.read 31 (by rw [read_OnRxDone, if_neg hne]; decide)
      cases sketch with
      | gateway => exact absurd hlast (by decide)
      | gatewayWifi => exact absurd hlast (by decide)
      | loRaNodeHeltec => exact hne rfl
    refine ⟨hnode, ?_⟩
    have hend := H.written payload.length (by rw [written_OnRxDone]; simp)
    rwa [hnode] at hend
  · rintro ⟨rfl, hlen⟩
    constructor
    · intro i hi
      rw [written_OnRxDone] at hi
      simp only [List.mem_range', RxSketch.rxLength] at hi ⊢
      omega
    · intro i hi
      rw [read_OnRxDone, if_pos rfl] at hi
      cases hi

end Accesses

/-- What the nodes send is too long: a bare record fills the array of the node, which leaves no
room for the zero byte, and a record behind the header of `RH_RF95` is longer than the array of a
gateway. -/
theorem node_packets_leave_rxpacket :
    ¬ InBounds RxSketch.loRaNodeHeltec.rxLength
        (RxSketch.loRaNodeHeltec.OnRxDone ⟨Buffer.start fun _ => 0, 0, 0, true⟩
          (GPSData.bytes ⟨1, 2, 3, 4, 5, 6, 7⟩) 0).rxpacket ∧
      ¬ InBounds RxSketch.gateway.rxLength
        (RxSketch.gateway.OnRxDone ⟨Buffer.start fun _ => 0, 0, 0, true⟩
          ([255, 255, 0, 0] ++ GPSData.bytes ⟨1, 2, 3, 4, 5, 6, 7⟩) 0).rxpacket := by
  constructor
  · intro H
    exact absurd (H.written 28 (by decide)) (by decide)
  · intro H
    exact absurd (H.written 31 (by decide)) (by decide)

end LoRaGPS
