/-
**What the gateway with Wi-Fi publishes.**

`3gateway_Wifi_Webserver_HeltecESP32.ino` keeps the last record as a line of text, and serves it at
the address `/`.  At `/w` it is to serve the times of all records; the text of the times grows with
every packet, but the page was put together from it once, before there were any.

The line is made from the record that `OnRxDone` decodes, and `rxpacket` still holds the end of an
earlier packet when a shorter one arrives.  The zero byte that `OnRxDone` puts behind a packet is
the last byte of the record if the packet is one byte short of it; that is the only packet shorter
than the record that is decoded the same way whatever came before it.

Main definitions:

* `LoRaGPS.WebGateway` — the globals of the sketch that the pages are made of;
* `LoRaGPS.arrived`, `LoRaGPS.recordLine` — the bytes that a sequence of packets leaves behind, and
  the fields of a record joined by commas;
* `LoRaGPS.WebGateway.served`, `LoRaGPS.reflected` — the bodies that are served in a run of packets
  and requests, and those that the packets call for.

Main results:

* `LoRaGPS.no_leftovers_iff` — **a packet is decoded and published the same way after any packets
  exactly if it has at least 31 bytes**;
* `LoRaGPS.webPageString_eq`, `LoRaGPS.terminated_arrived` — the code makes the line of a record and
  keeps the bytes of the packets;
* `LoRaGPS.pages_reflect_iff` — **the pages reflect what was received exactly if `/w` is not
  requested after a packet**.
-/

import LoRaGPS.Decimal
import LoRaGPS.RxHandlers

set_option relaxedAutoImplicit false
set_option autoImplicit false

namespace LoRaGPS

open Bytes

/-! ### The code -/

/-- The text `<html>`. -/
def htmlOpen : List Char := ['<', 'h', 't', 'm', 'l', '>']

/-- The text `</html>`. -/
def htmlClose : List Char := ['<', '/', 'h', 't', 'm', 'l', '>']

/-- The page at `/` before the line of the last record. -/
@[irreducible] def htmlS : List Char :=
  "<html>  <script type=\"text/javascript\">    function myrefresh()    \x7b".toList ++
    "      window.location.reload();    \x7dwindow.onload=function()\x7b".toList ++
    "      setTimeout('myrefresh()',10000);      \x7d     </script>  ".toList

/-- The page at `/` after the line of the last record. -/
def htmlF : List Char := htmlClose

/-- The initial value of `htmlW`, from that of `htmlWString`. -/
def initialHtmlW (htmlWString : List Char) : List Char :=
  htmlOpen ++ htmlWString ++ htmlClose

/-- The globals of the sketch that the pages are made of. -/
structure WebGateway where
  receiver : Receiver
  Page_data : List Char
  htmlWString : List Char
  htmlW : List Char

/-- The globals at start-up.  `m` is the memory from `rxpacket` on. -/
def WebGateway.start (m : Memory) : WebGateway where
  receiver := ⟨Buffer.start m, 0, 0, true⟩
  Page_data := []
  htmlWString := []
  htmlW := initialHtmlW []

section Code

-- `String(float, decimals)` of the Arduino core
variable (floatString : BitVec 32 → ℕ → List Char)

/-- `String(int)`. -/
def intString (i : BitVec 32) : List Char := Decimal.ofInt i.toInt

/-- `webPageString`: the fields of the record, with commas between them. -/
def webPageString (incoming : GPSData) : List Char :=
  floatString incoming.batteryLevel 2 ++ [','] ++
    intString incoming.senderID ++ [','] ++
    intString incoming.nodeID ++ [','] ++
    floatString incoming.latitude 8 ++ [','] ++
    floatString incoming.longitude 8 ++ [','] ++
    floatString incoming.altitude 2 ++ [','] ++
    intString incoming.timestamp

namespace WebGateway

/-- `OnRxDone`. -/
def OnRxDone (s : WebGateway) (payload : List (BitVec 8)) (rssi : BitVec 16) : WebGateway :=
  let (receiver, incoming) := GatewayWifi.OnRxDone s.receiver payload rssi
  { s with
    receiver := receiver
    Page_data := webPageString floatString incoming
    htmlWString := s.htmlWString ++ intString incoming.timestamp }

/-- The body that `ROOT_HTML` sends. -/
def ROOT_HTML (s : WebGateway) : List Char := htmlS ++ s.Page_data ++ htmlF

/-- The body that `ROOT_HTMLW` sends; its `html4W` is not used. -/
def ROOT_HTMLW (s : WebGateway) : List Char := s.htmlW

end WebGateway

end Code

/-! ### Leftovers of earlier packets -/

/-- A packet, as the radio hands it over. -/
structure Packet where
  payload : List (BitVec 8)
  rssi : BitVec 16
deriving DecidableEq, Repr

/-- The globals of `3gateway_HeltecESP32.ino` after a sequence of packets. -/
def Gateway.after (m : Memory) (earlier : List Packet) : Receiver :=
  earlier.foldl (fun s p => (Gateway.OnRxDone s p.payload p.rssi).1) ⟨Buffer.start m, 0, 0, true⟩

/-- The globals of the gateway with Wi-Fi after a sequence of packets. -/
def WebGateway.after (floatString : BitVec 32 → ℕ → List Char) (m : Memory)
    (earlier : List Packet) : WebGateway :=
  earlier.foldl (fun s p => s.OnRxDone floatString p.payload p.rssi) (WebGateway.start m)

/-- What the gateways make of a packet does not depend on the packets before it. -/
structure NoLeftovers (floatString : BitVec 32 → ℕ → List Char) (m : Memory)
    (payload : List (BitVec 8)) : Prop where
  gateway : ∀ earlier earlier' rssi rssi',
    (Gateway.OnRxDone (Gateway.after m earlier) payload rssi).2 =
      (Gateway.OnRxDone (Gateway.after m earlier') payload rssi').2
  gatewayWifi : ∀ earlier earlier' rssi rssi',
    (GatewayWifi.OnRxDone (WebGateway.after floatString m earlier).receiver payload rssi).2 =
      (GatewayWifi.OnRxDone (WebGateway.after floatString m earlier').receiver payload rssi').2
  page : ∀ earlier earlier' rssi rssi',
    ((WebGateway.after floatString m earlier).OnRxDone floatString payload rssi).Page_data =
      ((WebGateway.after floatString m earlier').OnRxDone floatString payload rssi').Page_data

/-- `rxpacket` once a packet and the zero byte have been copied to it. -/
def terminated (m : Memory) (payload : List (BitVec 8)) : Memory :=
  (m.write 0 payload).write payload.length [0]

section Leftovers

variable (floatString : BitVec 32 → ℕ → List Char) (m m' : Memory) (payload : List (BitVec 8))

theorem decoded_OnRxDone (s : Receiver) (rssi : BitVec 16) :
    (Gateway.OnRxDone s payload rssi).2 = GPSData.load (terminated s.rxpacket.mem payload) 4 := rfl

/-- The packet and the zero byte hide what was there before. -/
theorem terminated_of_le {i : ℕ} (h : i ≤ payload.length) :
    terminated m payload i = terminated m' payload i := by
  rcases Nat.lt_or_eq_of_le h with hlt | rfl
  · have hbyte (m : Memory) : m.write 0 payload i = payload[i] := by
      simpa using write_add (m := m) (a := 0) (List.getElem?_eq_getElem hlt)
    rw [terminated, terminated, write_of_lt _ hlt, write_of_lt _ hlt, hbyte, hbyte]
  · exact (write_add (i := 0) (b := 0) rfl).trans (write_add (i := 0) (b := 0) rfl).symm

/-- Behind the zero byte is what was there before. -/
theorem terminated_of_gt {i : ℕ} (h : payload.length < i) : terminated m payload i = m i := by
  have hend : payload.length + [(0 : BitVec 8)].length ≤ i := h
  rw [terminated, write_of_ge hend, write_of_ge (by omega)]

/-- **A packet that is no more than the last byte short of a record is decoded the same way**,
whatever `rxpacket` held. -/
theorem decoded_congr (h : 31 ≤ payload.length) :
    GPSData.load (terminated m payload) 4 = GPSData.load (terminated m' payload) 4 := by
  refine GPSData.words_inj ?_
  rw [GPSData.words_load, GPSData.words_load]
  exact words_congr fun i _ hi => terminated_of_le m m' payload (by omega)

/-- The last byte of a record that is decoded from a shorter packet is an old one. -/
theorem decoded_last (h : payload.length < 31) :
    (GPSData.load (terminated m payload) 4).timestamp.extractLsb' 24 8 = m 31 := by
  rw [GPSData.load, word_top]
  exact terminated_of_gt m payload h

/-- A packet of 32 bytes leaves its last byte behind. -/
theorem after_long (b : BitVec 8) :
    (Gateway.after m [⟨List.replicate 32 b, 0⟩]).rxpacket.mem 31 = b := by
  have hmem : (Gateway.after m [⟨List.replicate 32 b, 0⟩]).rxpacket.mem =
      terminated m (List.replicate 32 b) := rfl
  have hbyte : (List.replicate 32 b)[31]? = some b := rfl
  rw [hmem, terminated, write_of_lt _ (by simp)]
  simpa using write_add (m := m) (a := 0) hbyte

/-- **A packet is decoded and published the same way after any packets exactly if it has at least
31 bytes.** -/
theorem no_leftovers_iff : NoLeftovers floatString m payload ↔ 31 ≤ payload.length := by
  constructor
  · intro H
    by_contra hshort
    have hsame := H.gateway [] [⟨List.replicate 32 (m 31 + 1), 0⟩] 0 0
    rw [decoded_OnRxDone, decoded_OnRxDone] at hsame
    have hlast := congrArg (fun g => g.timestamp.extractLsb' 24 8) hsame
    simp only [decoded_last _ payload (Nat.lt_of_not_le hshort), after_long] at hlast
    have hold : m 31 = m 31 + 1 := hlast
    bv_omega
  · intro hlong
    constructor
    · intro earlier earlier' rssi rssi'
      exact decoded_congr _ _ payload hlong
    · intro earlier earlier' rssi rssi'
      exact decoded_congr _ _ payload hlong
    · intro earlier earlier' rssi rssi'
      exact congrArg (webPageString floatString) (decoded_congr _ _ payload hlong)

end Leftovers

/-- A bare record of 28 bytes, as the Heltec node sends it, after one behind a header: the gateway
publishes a time that was sent with the record before. -/
theorem short_packet_leftover :
    (Gateway.OnRxDone (Gateway.after (fun _ => 0) [])
        (GPSData.bytes ⟨1, 2, 3, 4, 5, 6, 7⟩) 0).2 ≠
      (Gateway.OnRxDone (Gateway.after (fun _ => 0)
          [⟨[255, 255, 0, 0] ++ GPSData.bytes ⟨1, 2, 3, 4, 5, 6, 0x6553F100⟩, 0⟩])
        (GPSData.bytes ⟨1, 2, 3, 4, 5, 6, 7⟩) 0).2 := by
  intro hsame
  have htime := congrArg GPSData.timestamp hsame
  revert htime
  decide

/-! ### The pages in a run -/

/-- What happens to the gateway: packets arrive and pages are requested. -/
inductive WebEvent
  | packet (p : Packet)
  | root
  | rootW
deriving DecidableEq, Repr

/-- The event is a packet. -/
def WebEvent.isPacket : WebEvent → Bool
  | packet _ => true
  | root => false
  | rootW => false

section Pages

variable (floatString : BitVec 32 → ℕ → List Char)

/-- The bodies that are served in a run, in the order of the requests. -/
def WebGateway.served : WebGateway → List WebEvent → List (List Char)
  | _, [] => []
  | s, .packet p :: es => (s.OnRxDone floatString p.payload p.rssi).served es
  | s, .root :: es => s.ROOT_HTML :: s.served es
  | s, .rootW :: es => s.ROOT_HTMLW :: s.served es

/-- The fields of a record, as they are to be shown. -/
def fieldTexts (g : GPSData) : List (List Char) :=
  [floatString g.batteryLevel 2, intString g.senderID, intString g.nodeID,
    floatString g.latitude 8, floatString g.longitude 8, floatString g.altitude 2,
    intString g.timestamp]

/-- The line of a record: its fields, joined by commas. -/
def recordLine (g : GPSData) : List Char := [','].intercalate (fieldTexts floatString g)

/-- The code makes the line of the record. -/
theorem webPageString_eq (g : GPSData) :
    webPageString floatString g = recordLine floatString g := by
  simp [webPageString, recordLine, fieldTexts, List.intercalate]

/-- The line of the last of the records, nothing if there is none. -/
def lastLine (records : List GPSData) : List Char :=
  records.getLast?.elim [] (recordLine floatString)

/-- The times of the records, in order. -/
def times (records : List GPSData) : List Char :=
  records.flatMap fun g => intString g.timestamp

/-- The bytes that packets leave behind, one copied over the other: each ends with a zero byte, and
behind it is what was there before.  `m` is what was there before the first. -/
def arrived (m : Memory) (payloads : List (List (BitVec 8))) : Memory := fun i =>
  payloads.foldl (fun b payload => (payload ++ [0])[i]?.getD b) (m i)

/-- The bodies that the packets call for: each request is answered from all the packets before it.
The record of a packet is found behind four bytes in what the packets up to it have left. -/
def reflected (m : Memory) : List (List (BitVec 8)) → List GPSData → List WebEvent →
    List (List Char)
  | _, _, [] => []
  | payloads, records, .packet p :: es =>
      let payloads := payloads ++ [p.payload]
      reflected m payloads (records ++ [GPSData.load (arrived m payloads) 4]) es
  | payloads, records, .root :: es =>
      (htmlS ++ lastLine floatString records ++ htmlF) :: reflected m payloads records es
  | payloads, records, .rootW :: es =>
      (htmlOpen ++ times records ++ htmlClose) :: reflected m payloads records es

/-- Copying one more packet to the buffer. -/
theorem terminated_arrived (m : Memory) (payloads : List (List (BitVec 8)))
    (payload : List (BitVec 8)) :
    terminated (arrived m payloads) payload = arrived m (payloads ++ [payload]) := by
  funext i
  have hlast : arrived m (payloads ++ [payload]) i =
      (payload ++ [0])[i]?.getD (arrived m payloads i) := by
    simp [arrived, List.foldl_append]
  rw [hlast]
  rcases Nat.lt_trichotomy i payload.length with hlt | rfl | hgt
  · have hbyte : payload[i]? = some payload[i] := List.getElem?_eq_getElem hlt
    rw [terminated, write_of_lt _ hlt, List.getElem?_append_left hlt, hbyte, Option.getD_some]
    simpa using write_add (m := arrived m payloads) (a := 0) hbyte
  · rw [List.getElem?_concat_length, Option.getD_some]
    exact write_add (i := 0) (b := 0) rfl
  · rw [terminated_of_gt _ _ hgt, List.getElem?_eq_none (by simp; omega), Option.getD_none]

/-- The globals after the given packets and their records. -/
structure WebGateway.Holds (s : WebGateway) (m : Memory) (payloads : List (List (BitVec 8)))
    (records : List GPSData) : Prop where
  rxpacket : s.receiver.rxpacket.mem = arrived m payloads
  page_data : s.Page_data = lastLine floatString records
  htmlWString : s.htmlWString = times records
  htmlW : s.htmlW = initialHtmlW []

variable {floatString} {s : WebGateway} {m : Memory} {payloads : List (List (BitVec 8))}
  {records : List GPSData}

theorem WebGateway.start_holds (m : Memory) : (WebGateway.start m).Holds floatString m [] [] := by
  constructor <;> rfl

/-- A packet replaces the line and adds its time; `htmlW` stays what it was. -/
theorem WebGateway.Holds.OnRxDone (h : s.Holds floatString m payloads records) (p : Packet) :
    (s.OnRxDone floatString p.payload p.rssi).Holds floatString m (payloads ++ [p.payload])
      (records ++ [GPSData.load (arrived m (payloads ++ [p.payload])) 4]) := by
  have hmem : terminated s.receiver.rxpacket.mem p.payload =
      arrived m (payloads ++ [p.payload]) := by
    rw [h.rxpacket, terminated_arrived]
  have hdecoded : (GatewayWifi.OnRxDone s.receiver p.payload p.rssi).2 =
      GPSData.load (arrived m (payloads ++ [p.payload])) 4 := by
    rw [← hmem]
    rfl
  constructor
  · exact hmem
  · simp [WebGateway.OnRxDone, lastLine, webPageString_eq, hdecoded]
  · simp [WebGateway.OnRxDone, times, h.htmlWString, hdecoded]
  · exact h.htmlW

theorem times_eq_nil : times records = [] ↔ records = [] := by
  cases records with
  | nil => simp [times]
  | cons g records => simp [times, intString, Decimal.ofInt_ne_nil]

/-- `/` always shows the last record. -/
theorem WebGateway.Holds.root (h : s.Holds floatString m payloads records) :
    s.ROOT_HTML = htmlS ++ lastLine floatString records ++ htmlF := by
  rw [WebGateway.ROOT_HTML, h.page_data]

/-- `/w` shows the times exactly as long as there are none. -/
theorem WebGateway.Holds.rootW (h : s.Holds floatString m payloads records) :
    s.ROOT_HTMLW = htmlOpen ++ times records ++ htmlClose ↔ records = [] := by
  rw [WebGateway.ROOT_HTMLW, h.htmlW, initialHtmlW, List.append_cancel_right_eq,
    List.append_cancel_left_eq, eq_comm, times_eq_nil]

/-- From a state with the given records, the pages are right exactly if no request for `/w` comes
after a packet, earlier ones included. -/
theorem WebGateway.Holds.served_eq_iff (h : s.Holds floatString m payloads records)
    (es : List WebEvent) :
    s.served floatString es = reflected floatString m payloads records es ↔
      (records ≠ [] → .rootW ∉ es) ∧
        es.Pairwise fun e e' => ¬ (e.isPacket ∧ e' = .rootW) := by
  induction es generalizing s payloads records with
  | nil => simp [WebGateway.served, reflected]
  | cons e es ih =>
      rw [List.pairwise_cons]
      cases e with
      | packet p =>
          have hlate : (∀ e' ∈ es, ¬ ((WebEvent.packet p).isPacket ∧ e' = .rootW)) ↔
              .rootW ∉ es := by
            simp [WebEvent.isPacket, List.forall_mem_ne']
          rw [WebGateway.served, reflected, hlate]
          refine (ih (h.OnRxDone p)).trans ?_
          have hsome : records ++ [GPSData.load (arrived m (payloads ++ [p.payload])) 4] ≠ [] :=
            List.concat_ne_nil _ _
          simp only [hsome, ne_eq, not_false_eq_true, true_imp_iff, List.mem_cons, reduceCtorEq,
            false_or]
          tauto
      | root =>
          rw [WebGateway.served, reflected, h.root, List.cons_inj_right, ih h]
          simp [WebEvent.isPacket]
      | rootW =>
          rw [WebGateway.served, reflected, List.cons_eq_cons, h.rootW, ih h]
          simp only [WebEvent.isPacket, List.mem_cons, true_or, not_true, imp_false, not_not,
            Bool.false_eq_true, false_and, not_false_eq_true, implies_true, true_and, ne_eq]
          tauto

/-- **The pages reflect what was received exactly if `/w` is not requested after a packet.**  As in
`no_leftovers_iff`, `rxpacket` is taken to be large enough: the memory behind the array belongs to
nothing else. -/
theorem pages_reflect_iff (m : Memory) (es : List WebEvent) :
    (WebGateway.start m).served floatString es = reflected floatString m [] [] es ↔
      es.Pairwise fun e e' => ¬ (e.isPacket ∧ e' = .rootW) := by
  rw [(WebGateway.start_holds m).served_eq_iff]
  simp

end Pages

/-- A packet, and then a request for `/w`: the time of the packet, 7, is not on the page.  The
coordinates of the record are zero, and `floatString` prints zero as the Arduino core does. -/
theorem time_missing_from_w :
    (WebGateway.start fun _ => 0).served
        (fun _ decimals => "0.".toList ++ List.replicate decimals '0')
        [.packet ⟨[255, 255, 0, 0] ++ GPSData.bytes ⟨0, 2, 3, 0, 0, 0, 7⟩, 0⟩, .rootW] ≠
      reflected (fun _ decimals => "0.".toList ++ List.replicate decimals '0') (fun _ => 0) [] []
        [.packet ⟨[255, 255, 0, 0] ++ GPSData.bytes ⟨0, 2, 3, 0, 0, 0, 7⟩, 0⟩, .rootW] := by
  rw [Ne, (WebGateway.start_holds _).served_eq_iff]
  decide

end LoRaGPS
