/-
**From the packet of a node to the record a gateway decodes.**

The nodes send the bytes of a record.  `RH_RF95`, which `1LoRaNode.ino` and `2gateway.ino` use,
puts four bytes of its own in front of every packet it sends and takes four off every packet it
receives; the radio of the Heltec boards does neither, and their gateways skip four bytes
themselves.  A record that is sent with a header arrives at every gateway.  A record that
`1LoRaNode_heltecESP32.ino` sends without one loses its first field to the gateway, which finds
every other field one place too early and takes the last one from what its buffer held before.

Main definitions:

* `LoRaGPS.Radios` — what the sketches rely on of the two radio libraries;
* `LoRaGPS.NodeSketch.frame`, `LoRaGPS.GatewaySketch.decode` — the bytes on the air, and the
  record a gateway decodes from them;
* `LoRaGPS.GPSData.shifted` — the record, one field early.

Main results:

* `LoRaGPS.decode_loRaNode`, `LoRaGPS.decode_heltec` — what the gateways decode of the packets of
  either node;
* `LoRaGPS.decodes_iff` — **a record is decoded as it was sent exactly if it is sent with a header,
  or all its words are the one that the gateway fills in**.
-/

import LoRaGPS.RxHandlers

set_option relaxedAutoImplicit false
set_option autoImplicit false

namespace LoRaGPS

open Bytes

/-! ### The sketches and their radios -/

/-- The radio libraries: `rf95.send` and `rf95.recv` of RadioHead, and `Radio.Send` and the packet
that is handed to `RxDone` of the Heltec API.  `recv` overwrites no more than the received part of
the buffer.  Which packets a radio accepts is left out. -/
structure Radios where
  rf95Send : List (BitVec 8) → List (BitVec 8)
  rf95Recv : Memory → ℕ → List (BitVec 8) → Memory
  radioSend : List (BitVec 8) → List (BitVec 8)
  radioRxDone : List (BitVec 8) → List (BitVec 8)
  rf95Send_header : ∀ data, ∃ header, header.length = 4 ∧ rf95Send data = header ++ data
  rf95Recv_strips : ∀ buf len frame, 4 ≤ frame.length →
    rf95Recv buf len frame = buf.write 0 ((frame.drop 4).take len)
  radioSend_raw : ∀ data, radioSend data = data
  radioRxDone_raw : ∀ frame, radioRxDone frame = frame

/-- The radios with a header of broadcast addresses. -/
def Radios.broadcast : Radios where
  rf95Send data := [255, 255, 0, 0] ++ data
  rf95Recv buf len frame := buf.write 0 ((frame.drop 4).take len)
  radioSend data := data
  radioRxDone frame := frame
  rf95Send_header _ := ⟨[255, 255, 0, 0], rfl, rfl⟩
  rf95Recv_strips _ _ _ _ := rfl
  radioSend_raw _ := rfl
  radioRxDone_raw _ := rfl

/-- The sketches that send records. -/
inductive NodeSketch
  | loRaNode
  | loRaNodeHeltec
deriving DecidableEq, Repr

/-- The sketches that decode records. -/
inductive GatewaySketch
  | gateway2
  | gateway
  | gatewayWifi
deriving DecidableEq, Repr

/-- The bytes that a node puts on the air for a record. -/
def NodeSketch.frame (R : Radios) : NodeSketch → GPSData → List (BitVec 8)
  | loRaNode, gpsData => R.rf95Send gpsData.bytes
  | loRaNodeHeltec, gpsData => R.radioSend gpsData.bytes

/-- The record that a gateway decodes.  `m` is what was in memory before: at the place of the local
variable `incoming` for `2gateway.ino`, from the start of `rxpacket` on for the others. -/
def GatewaySketch.decode (R : Radios) (m : Memory) : GatewaySketch → List (BitVec 8) → GPSData
  | gateway2, frame => GPSData.load (R.rf95Recv m GPSData.size frame) 0
  | gateway, frame =>
      (Gateway.OnRxDone ⟨Buffer.start m, 0, 0, false⟩ (R.radioRxDone frame) 0).2
  | gatewayWifi, frame =>
      (GatewayWifi.OnRxDone ⟨Buffer.start m, 0, 0, false⟩ (R.radioRxDone frame) 0).2

/-! ### What the gateways decode -/

/-- The record one field early, with `last` as its last word. -/
def GPSData.shifted (g : GPSData) (last : BitVec 32) : GPSData :=
  { batteryLevel := g.senderID
    senderID := g.nodeID
    nodeID := g.latitude
    latitude := g.longitude
    longitude := g.altitude
    altitude := g.timestamp
    timestamp := last }

/-- The word that a gateway takes for the last field of a record sent without a header: bytes past
the end of the packet, the first of which the Heltec gateways have set to zero. -/
def GatewaySketch.leftover (m : Memory) : GatewaySketch → BitVec 32
  | gateway2 => m.word 24
  | gateway => toWord 0 (m 29) (m 30) (m 31)
  | gatewayWifi => toWord 0 (m 29) (m 30) (m 31)

section Decoding

variable (R : Radios) (m : Memory) (receiver : GatewaySketch) (r : GPSData)

/-- A Heltec gateway takes the record from the packet and what lies behind it. -/
theorem words_OnRxDone (payload : List (BitVec 8)) :
    (Gateway.OnRxDone ⟨Buffer.start m, 0, 0, false⟩ payload 0).2.words =
      ((m.write 0 payload).write payload.length [0]).words 4 7 := rfl

/-- The zero byte comes after the words of the packet. -/
theorem words_terminated {payload : List (BitVec 8)} {n : ℕ} (h : 4 + 4 * n ≤ payload.length) :
    ((m.write 0 payload).write payload.length [0]).words 4 n = (m.write 0 payload).words 4 n :=
  words_congr fun _ _ hi => write_of_lt _ (by omega)

/-- **A record sent with a header is decoded as it was sent**, by every gateway. -/
theorem decode_loRaNode : receiver.decode R m (NodeSketch.loRaNode.frame R r) = r := by
  obtain ⟨header, hlen, hsend⟩ := R.rf95Send_header r.bytes
  have hbytes : r.bytes.length = 28 := r.length_bytes
  have hframe : (header ++ r.bytes).length = 32 := by rw [List.length_append, hlen, hbytes]
  have hheltec : (Gateway.OnRxDone ⟨Buffer.start m, 0, 0, false⟩
      (R.radioRxDone (header ++ r.bytes)) 0).2.words = r.words := by
    have hread := words_write m 0 header r.words
    rw [hlen] at hread
    rw [R.radioRxDone_raw, words_OnRxDone, words_terminated m (by omega)]
    exact hread
  rw [NodeSketch.frame, hsend]
  apply GPSData.words_inj
  cases receiver with
  | gateway2 =>
      have hpayload : ((header ++ r.bytes).drop 4).take GPSData.size = r.bytes := by
        rw [List.drop_left' hlen]
        exact List.take_of_length_le (Nat.le_of_eq hbytes)
      rw [GatewaySketch.decode, R.rf95Recv_strips _ _ _ (by omega), hpayload, GPSData.words_load]
      exact words_write m 0 [] r.words
  | gateway => exact hheltec
  | gatewayWifi => exact hheltec

/-- **A record sent without a header is decoded one field early**, by every gateway. -/
theorem decode_heltec :
    receiver.decode R m (NodeSketch.loRaNodeHeltec.frame R r) =
      r.shifted (receiver.leftover m) := by
  have hbytes : r.bytes.length = 28 := r.length_bytes
  have hsplit : r.bytes = ofWord r.batteryLevel ++ encode r.words.tail := encode_cons _ _
  have htail : (encode r.words.tail).length = 24 := length_encode _
  have hheltec :
      (Gateway.OnRxDone ⟨Buffer.start m, 0, 0, false⟩ (R.radioRxDone r.bytes) 0).2.words =
        r.words.tail ++ [toWord 0 (m 29) (m 30) (m 31)] := by
    -- six words lie in the packet, the last one begins with the zero byte
    have hsix : ((m.write 0 r.bytes).write r.bytes.length [0]).words 4 6 = r.words.tail := by
      rw [words_terminated m (by omega), hsplit]
      exact words_write m 0 (ofWord r.batteryLevel) r.words.tail
    have hzero : (m.write 0 r.bytes).write r.bytes.length [0] 28 = 0 := by
      rw [hbytes]
      exact write_add (i := 0) rfl
    have hpast : ∀ i, 28 < i → (m.write 0 r.bytes).write r.bytes.length [0] i = m i := by
      intro i hi
      rw [write_of_ge (by rw [hbytes]; exact hi), write_of_ge (by omega)]
    rw [R.radioRxDone_raw, words_OnRxDone, words_append _ 4 6 1, hsix]
    simp only [Memory.words, Memory.word]
    rw [hzero, hpast 29 (by omega), hpast 30 (by omega), hpast 31 (by omega)]
  rw [NodeSketch.frame, R.radioSend_raw]
  apply GPSData.words_inj
  cases receiver with
  | gateway2 =>
      have hpayload : (r.bytes.drop 4).take GPSData.size = encode r.words.tail := by
        have hdrop : r.bytes.drop 4 = encode r.words.tail := by
          rw [hsplit]
          exact List.drop_left' rfl
        rw [hdrop]
        exact List.take_of_length_le (by rw [htail]; decide)
      have hsix : (m.write 0 (encode r.words.tail)).words 0 6 = r.words.tail :=
        words_write m 0 [] r.words.tail
      have hpast : (m.write 0 (encode r.words.tail)).words (0 + 4 * 6) 1 = m.words 24 1 :=
        words_write_past m (by omega)
      rw [GatewaySketch.decode, R.rf95Recv_strips _ _ _ (by omega), hpayload, GPSData.words_load,
        words_append _ 0 6 1, hsix, hpast]
      rfl
  | gateway => exact hheltec
  | gatewayWifi => exact hheltec

/-- A record equals itself one field early only if all its words are the one filled in. -/
theorem GPSData.shifted_eq_iff {g : GPSData} {w : BitVec 32} :
    g.shifted w = g ↔ ∀ x ∈ g.words, x = w := by
  obtain ⟨b, s, n, lat, lon, alt, t⟩ := g
  simp only [GPSData.shifted, GPSData.words, GPSData.mk.injEq, List.forall_mem_cons]
  constructor
  · rintro ⟨rfl, rfl, rfl, rfl, rfl, rfl, rfl⟩
    simp
  · rintro ⟨rfl, rfl, rfl, rfl, rfl, rfl, rfl, -⟩
    simp

/-- **A record is decoded as it was sent exactly if it is sent with a header, or all its words are
the one that the gateway fills in.** -/
theorem decodes_iff (sender : NodeSketch) : receiver.decode R m (sender.frame R r) = r ↔
    sender = .loRaNode ∨ ∀ x ∈ r.words, x = receiver.leftover m := by
  cases sender with
  | loRaNode => exact iff_of_true (decode_loRaNode R m receiver r) (Or.inl rfl)
  | loRaNodeHeltec =>
      rw [decode_heltec, GPSData.shifted_eq_iff]
      exact (or_iff_right (by simp)).symm

end Decoding

/-- The radios with a header of broadcast addresses carry a record from `1LoRaNode.ino` to
`2gateway.ino`. -/
theorem loRaNode_record_decoded :
    GatewaySketch.gateway2.decode Radios.broadcast (fun _ => 0)
        (NodeSketch.loRaNode.frame Radios.broadcast ⟨1, 2, 3, 4, 5, 6, 7⟩) =
      ⟨1, 2, 3, 4, 5, 6, 7⟩ :=
  (decodes_iff Radios.broadcast (fun _ => 0) .gateway2 ⟨1, 2, 3, 4, 5, 6, 7⟩ .loRaNode).2
    (Or.inl rfl)

/-- A record of the node `3`, sent without a header, is decoded by the gateway with the web server
as one of a node `4`, which is its latitude. -/
theorem heltec_record_shifted :
    GatewaySketch.gatewayWifi.decode Radios.broadcast (fun _ => 0)
        (NodeSketch.loRaNodeHeltec.frame Radios.broadcast ⟨1, 2, 3, 4, 5, 6, 7⟩) =
      ⟨2, 3, 4, 5, 6, 7, 0⟩ ∧
    GatewaySketch.gatewayWifi.decode Radios.broadcast (fun _ => 0)
        (NodeSketch.loRaNodeHeltec.frame Radios.broadcast ⟨1, 2, 3, 4, 5, 6, 7⟩) ≠
      ⟨1, 2, 3, 4, 5, 6, 7⟩ := by
  constructor <;> decide +kernel

end LoRaGPS
