/-
**Packets shorter than a record.**

`1LoRaNode.ino` and `Node1_rcvrTry2.5.ino` receive into a local variable that is not initialised,
and take the record from it whatever the length of the packet was.  Of a short packet the end of the
record is what the memory happened to hold.  The last byte belongs to a field that is stored and
sent on but decides nothing, so that what becomes of the packet depends on the memory as soon as the
record is stored or sent on at all.

Main definitions:

* `LoRaGPS.LoRaNode.receivePacket`, `LoRaGPS.Node1.receivePacket` — what the receive steps store and
  send on for the bytes of a packet;
* `LoRaGPS.LoRaNode.Ignores` — the records that leave no trace in a node.

Main results:

* `LoRaGPS.storePosition_inj` — a stored record can be told from what was stored;
* `LoRaGPS.LoRaNode.packet_only_iff`, `LoRaGPS.Node1.packet_only_iff` — **when the outcome depends
  on the packet only**, for each sketch;
* `LoRaGPS.short_packets_iff` — both, for the packets of the radio.
-/

import LoRaGPS.LoRaNode
import LoRaGPS.ManifestLoop
import LoRaGPS.PacketFormat

set_option relaxedAutoImplicit false
set_option autoImplicit false

namespace LoRaGPS

open Bytes KeyedLog

/-! ### The code -/

/-- The 16-bit word at the address `a`. -/
def half (m : Memory) (a : ℕ) : BitVec 16 := m (a + 1) ++ m a

/-- The 64-bit word at the address `a`. -/
def double (m : Memory) (a : ℕ) : BitVec 64 := m.word (a + 4) ++ m.word a

/-- The `struct information` that is found at the address `a`: four bytes of padding come before
the doubles. -/
def Information.load (m : Memory) (a : ℕ) : Information :=
  { readingID := half m a
    nodeID := half m (a + 2)
    currLat := double m (a + 8)
    currLon := double m (a + 16)
    currAlt := double m (a + 24) }

/-- What a node keeps and sends on of a record: the history table, and the bytes. -/
def LoRaNode.outcome (curr_ID : BitVec 16) (node : LoRaNode) (incoming : GPSData) :
    Option (List NodeHistory × Option (List (BitVec 8))) :=
  (LoRaNode.receive curr_ID node (some incoming)).map fun r =>
    (r.1.nodeHistories, r.2.map GPSData.bytes)

/-- What the receive step of `1LoRaNode.ino` makes of a packet.  `buf` is what `incoming` holds
before. -/
def LoRaNode.receivePacket (R : Radios) (curr_ID : BitVec 16) (node : LoRaNode) (buf : Memory)
    (frame : List (BitVec 8)) : Option (List NodeHistory × Option (List (BitVec 8))) :=
  node.outcome curr_ID (GPSData.load (R.rf95Recv buf GPSData.size frame) 0)

/-- What step 3 of `Node1_rcvrTry2.5.ino` makes of a packet: the book and the count of the nodes
discovered.  `buf` is what the buffer holds before; it is copied whole to `incoming_curr_info`. -/
def Node1.receivePacket (R : Radios) (blankarray : Information) (node : Node1) (buf : Memory)
    (frame : List (BitVec 8)) : Option Book :=
  let incomingCurrInfo := Information.load (R.rf95Recv buf sizeofInformation frame) 0
  (step3 blankarray node (some incomingCurrInfo)).map Node1.book

/-! ### Records that differ in their last byte -/

theorem word_update {m : Memory} {a i : ℕ} (b : BitVec 8) (h : a + 3 < i) :
    Memory.word (Function.update m i b) a = m.word a := by
  simp only [Memory.word]
  rw [Function.update_of_ne (by omega), Function.update_of_ne (by omega),
    Function.update_of_ne (by omega), Function.update_of_ne (by omega)]

theorem double_top (m : Memory) (a : ℕ) : (double m a).extractLsb' 56 8 = m (a + 7) := by
  rw [double, BitVec.extractLsb'_append_eq_of_le (by omega)]
  exact word_top m (a + 4)

/-- The last byte of a `GPSData` is the top of the timestamp. -/
theorem GPSData.load_update (m : Memory) (b : BitVec 8) :
    ∃ t, t.extractLsb' 24 8 = b ∧
      GPSData.load (Function.update m 27 b) 0 = { GPSData.load m 0 with timestamp := t } := by
  refine ⟨Memory.word (Function.update m 27 b) 24, ?_, ?_⟩
  · rw [word_top]
    exact Function.update_self ..
  · simp [GPSData.load, word_update]

/-- The last byte of an `information` is the top of the altitude. -/
theorem Information.load_update (m : Memory) (b : BitVec 8) :
    ∃ alt, alt.extractLsb' 56 8 = b ∧
      Information.load (Function.update m 31 b) 0 =
        { Information.load m 0 with currAlt := alt } := by
  refine ⟨double (Function.update m 31 b) 24, ?_, ?_⟩
  · rw [double_top]
    exact Function.update_self ..
  · simp [Information.load, half, double, word_update]

theorem Information.load_congr {m m' : Memory} (h : ∀ i, i < sizeofInformation → m i = m' i) :
    Information.load m 0 = Information.load m' 0 := by
  unfold sizeofInformation at h
  simp (disch := omega) only [Information.load, half, double, Memory.word, h]

/-! ### What is stored tells the record -/

/-- The test by which `storePosition` chooses a slot for a record of the node `d`. -/
def NodeHistory.Takes (h : NodeHistory) (d : BitVec 32) : Prop :=
  h.count = 0 ∨ ∃ first, h.positions[0]? = some first ∧ first.nodeID = d

/-- The arrays of the slots have their length. -/
def Cells (hs : List NodeHistory) : Prop := ∀ h ∈ hs, h.positions.length = 50

theorem NodeHistory.append_spec {h : NodeHistory} (hcells : h.positions.length = 50)
    (r : GPSData) : ∃ h', h.append r = some h' ∧ h'.positions[min h.count 49]? = some r := by
  by_cases hroom : h.count < 50
  · refine ⟨_, append_of_lt hcells hroom r, ?_⟩
    rw [Nat.min_eq_left (by omega)]
    exact List.getElem?_set_self (by omega)
  · refine ⟨_, append_of_full hcells (Nat.le_of_not_lt hroom) r, ?_⟩
    have hlast : min h.count 49 = h.positions.tail.length := by
      rw [List.length_tail]
      omega
    rw [hlast]
    exact List.getElem?_concat_length ..

variable {slot : NodeHistory} {hs : List NodeHistory} {g g' : GPSData}

theorem NodeHistory.takes_iff {d : BitVec 32} {first : GPSData}
    (hfirst : slot.positions[0]? = some first) :
    slot.Takes d ↔ first.nodeID = d ∨ slot.count = 0 := by
  simp [Takes, hfirst, or_comm]

/-- The search ends at a slot that takes the record. -/
theorem storePosition_of_takes (hslot : slot.positions.length = 50)
    (htakes : slot.Takes g.nodeID) :
    storePosition (slot :: hs) g = (slot.append g).map (· :: hs) := by
  have hfirst : slot.positions[0]? = some slot.positions[0] :=
    List.getElem?_eq_getElem (by omega)
  rw [storePosition, hfirst, Option.bind_eq_bind, Option.bind_some,
    if_pos ((NodeHistory.takes_iff hfirst).1 htakes)]
  cases slot.append g <;> rfl

/-- The search goes on behind a slot that does not take the record. -/
theorem storePosition_of_passes (hslot : slot.positions.length = 50)
    (hnot : ¬ slot.Takes g.nodeID) :
    storePosition (slot :: hs) g = (storePosition hs g).map (slot :: ·) := by
  have hfirst : slot.positions[0]? = some slot.positions[0] :=
    List.getElem?_eq_getElem (by omega)
  rw [storePosition, hfirst, Option.bind_eq_bind, Option.bind_some,
    if_neg (mt (NodeHistory.takes_iff hfirst).2 hnot)]
  cases storePosition hs g <;> rfl

/-- The arrays are never left. -/
theorem storePosition_total (hcells : Cells hs) (g : GPSData) :
    ∃ hs', storePosition hs g = some hs' := by
  induction hs with
  | nil => exact ⟨[], rfl⟩
  | cons slot hs ih =>
      obtain ⟨hslot, hrest⟩ := List.forall_mem_cons.1 hcells
      by_cases htakes : slot.Takes g.nodeID
      · obtain ⟨slot', happ, -⟩ := NodeHistory.append_spec hslot g
        exact ⟨slot' :: hs, by rw [storePosition_of_takes hslot htakes, happ, Option.map_some]⟩
      · obtain ⟨hs', hs'eq⟩ := ih hrest
        exact ⟨slot :: hs', by rw [storePosition_of_passes hslot htakes, hs'eq, Option.map_some]⟩

/-- A record that no slot takes is not stored. -/
theorem storePosition_of_not_takes (hcells : Cells hs) (h : ∀ h ∈ hs, ¬ h.Takes g.nodeID) :
    storePosition hs g = some hs := by
  induction hs with
  | nil => rfl
  | cons slot hs ih =>
      obtain ⟨hslot, hrest⟩ := List.forall_mem_cons.1 hcells
      obtain ⟨hnot, hnots⟩ := List.forall_mem_cons.1 h
      rw [storePosition_of_passes hslot hnot, ih hrest hnots, Option.map_some]

/-- **A stored record can be told from what was stored**, for records of the same node. -/
theorem storePosition_inj (hcells : Cells hs) (hid : g.nodeID = g'.nodeID)
    (htakes : ∃ h ∈ hs, h.Takes g.nodeID) (h : storePosition hs g = storePosition hs g') :
    g = g' := by
  induction hs with
  | nil => obtain ⟨_, hmem, -⟩ := htakes; cases hmem
  | cons slot hs ih =>
      obtain ⟨hslot, hrest⟩ := List.forall_mem_cons.1 hcells
      by_cases hhere : slot.Takes g.nodeID
      · -- both records go to this slot, to the same cell
        obtain ⟨a, ha, hcell⟩ := NodeHistory.append_spec hslot g
        obtain ⟨a', ha', hcell'⟩ := NodeHistory.append_spec hslot g'
        rw [storePosition_of_takes hslot hhere, storePosition_of_takes hslot (hid ▸ hhere), ha,
          ha'] at h
        simp only [Option.map_some, Option.some.injEq, List.cons.injEq, and_true] at h
        rw [h, hcell'] at hcell
        exact (Option.some_inj.1 hcell).symm
      · -- both go on to the slots behind it
        rw [storePosition_of_passes hslot hhere, storePosition_of_passes hslot (hid ▸ hhere)] at h
        have htail := Option.map_injective (List.cons_injective (a := slot)) h
        obtain ⟨x, hx, hxt⟩ := htakes
        rcases List.mem_cons.1 hx with rfl | hx
        · exact absurd hxt hhere
        · exact ih hrest ⟨x, hx, hxt⟩ htail

/-! ### The mesh node -/

namespace LoRaNode

variable {curr_ID : BitVec 16} {node : LoRaNode}

/-- The record leaves no trace in the node: it is one of its own, or one that it sent on itself and
has no slot for. -/
def Ignores (curr_ID : BitVec 16) (node : LoRaNode) (g : GPSData) : Prop :=
  g.nodeID = intID curr_ID ∨
    g.senderID = intID curr_ID ∧ ∀ h ∈ node.nodeHistories, ¬ h.Takes g.nodeID

theorem outcome_of_ignores (hcells : Cells node.nodeHistories) (h : node.Ignores curr_ID g) :
    node.outcome curr_ID g = some (node.nodeHistories, none) := by
  by_cases hown : g.nodeID = intID curr_ID
  · rw [outcome, receive, if_neg (not_not_intro hown)]
    rfl
  · obtain ⟨hsender, hslots⟩ := h.resolve_left hown
    rw [outcome, receive, if_pos hown, storePosition_of_not_takes hcells hslots,
      if_neg (not_not_intro hsender)]
    rfl

/-- A record that leaves a trace can be told from it, among those with the same IDs. -/
theorem outcome_inj (hcells : Cells node.nodeHistories) (hid : g.nodeID = g'.nodeID)
    (hsender : g.senderID = g'.senderID) (hnot : ¬ node.Ignores curr_ID g)
    (h : node.outcome curr_ID g = node.outcome curr_ID g') : g = g' := by
  have hown : g.nodeID ≠ intID curr_ID := fun e => hnot (Or.inl e)
  obtain ⟨hs₁, h₁⟩ := storePosition_total hcells g
  obtain ⟨hs₂, h₂⟩ := storePosition_total hcells g'
  rw [outcome, outcome, receive, receive, if_pos hown,
    if_pos (hid.symm.trans_ne hown), h₁, h₂, ← hsender] at h
  simp only [Option.map_some, Option.some.injEq, Prod.mk.injEq] at h
  obtain ⟨hstored, hrelayed⟩ := h
  by_cases hs : g.senderID = intID curr_ID
  · have htakes : ∃ h ∈ node.nodeHistories, h.Takes g.nodeID := by
      by_contra hnone
      exact hnot (Or.inr ⟨hs, fun h hh ht => hnone ⟨h, hh, ht⟩⟩)
    exact storePosition_inj hcells hid htakes (by rw [h₁, h₂, hstored])
  · rw [if_pos hs, if_pos hs] at hrelayed
    have hbytes := GPSData.bytes_inj (Option.some_inj.1 hrelayed)
    cases g
    cases g'
    simp_all

/-- **The outcome depends on the packet only** exactly if the packet is as long as a record, or
every record that it begins is ignored. -/
theorem packet_only_iff (R : Radios) (hcells : Cells node.nodeHistories)
    {frame : List (BitVec 8)} (hframe : 4 ≤ frame.length) :
    (∀ buf buf', node.receivePacket R curr_ID buf frame = node.receivePacket R curr_ID buf' frame) ↔
      GPSData.size ≤ (frame.drop 4).length ∨
        ∀ g : GPSData, frame.drop 4 <+: g.bytes → node.Ignores curr_ID g := by
  simp only [receivePacket, R.rf95Recv_strips _ _ _ hframe]
  generalize frame.drop 4 = packet
  constructor
  · intro H
    by_contra hno
    obtain ⟨hshort, g, hprefix, hnot⟩ : packet.length < GPSData.size ∧
        ∃ g : GPSData, packet <+: g.bytes ∧ ¬ node.Ignores curr_ID g := by
      simpa using hno
    rw [List.take_of_length_le hshort.le] at H
    -- the memory holds the record, or the record with another last byte
    have hsame := H (Memory.write (fun _ => 0) 0 g.bytes)
      (Function.update (Memory.write (fun _ => 0) 0 g.bytes) 27
        (Memory.write (fun _ => 0) 0 g.bytes 27 + 1))
    have hend : 0 + packet.length ≤ 27 := by unfold GPSData.size at hshort; omega
    rw [write_update hend, write_prefix hprefix] at hsame
    generalize hm : Memory.write (fun _ => 0) 0 g.bytes = m at hsame
    obtain rfl : GPSData.load m 0 = g := by rw [← hm]; exact GPSData.load_write_bytes _ 0 g
    obtain ⟨t, ht, hload⟩ := GPSData.load_update m (m 27 + 1)
    rw [hload] at hsame
    have heq : GPSData.load m 0 = { GPSData.load m 0 with timestamp := t } :=
      outcome_inj hcells rfl rfl hnot hsame
    have htime : m.word 24 = t := congrArg GPSData.timestamp heq
    have htop : m 27 = m 27 + 1 := by rw [← ht, ← htime, word_top]
    bv_omega
  · intro h buf buf'
    by_cases hlong : GPSData.size ≤ packet.length
    · have hfull : (packet.take GPSData.size).length = 28 := by
        rw [List.length_take, Nat.min_eq_left hlong, GPSData.size]
      have hload : GPSData.load (buf.write 0 (packet.take GPSData.size)) 0 =
          GPSData.load (buf'.write 0 (packet.take GPSData.size)) 0 := by
        refine GPSData.words_inj ?_
        rw [GPSData.words_load, GPSData.words_load]
        exact words_congr fun i _ hi => write_congr (Nat.zero_le i) (by omega)
      rw [hload]
    · have hle : packet.length ≤ GPSData.size := Nat.le_of_not_le hlong
      have hstays : ∀ m : Memory, node.outcome curr_ID (GPSData.load (m.write 0 packet) 0) =
          some (node.nodeHistories, none) := by
        intro m
        refine outcome_of_ignores hcells (h.resolve_left hlong _ ?_)
        rw [GPSData.bytes_load]
        exact prefix_write m 0 hle
      rw [List.take_of_length_le hle, hstays, hstays]

end LoRaNode

/-! ### The node with the book -/

theorem push_inj {α : Type*} {D : ℕ} (hD : 0 < D) {l : List α} {x y : α}
    (h : push D l x = push D l y) : x = y := by
  obtain ⟨E, rfl⟩ : ∃ E, D = E + 1 := ⟨D - 1, by omega⟩
  rw [push, push, List.rtake_concat_succ, List.rtake_concat_succ] at h
  simpa using h

/-- The contents of a page are determined by the book. -/
theorem Book.Holds.page_eq {book : Book} {P P' : ℕ → List Information} (H : book.Holds P)
    (H' : book.Holds P') {page : ℕ} (hpage : page < maxNumNodes) : P page = P' page := by
  obtain ⟨queue, f, hqueue, V⟩ := H.page page hpage
  obtain ⟨queue', f', hqueue', V'⟩ := H'.page page hpage
  obtain rfl := Option.some_inj.1 (hqueue.symm.trans hqueue')
  have hitems := V.items.symm.trans V'.items
  exact (List.map_injective_iff.2 (Option.some_injective _)) hitems

namespace Node1

variable {node : Node1} {P : ℕ → List Information}

theorem receivePacket_eq (R : Radios) (blankarray : Information) {frame : List (BitVec 8)}
    (hframe : 4 ≤ frame.length) (buf : Memory) :
    node.receivePacket R blankarray buf frame =
      addIncomingCurrInfoToMyBookCalledManifest blankarray node.book
        (Information.load (buf.write 0 ((frame.drop 4).take sizeofInformation)) 0) := by
  rw [receivePacket, R.rf95Recv_strips _ _ _ hframe, step3]
  cases addIncomingCurrInfoToMyBookCalledManifest blankarray node.book
    (Information.load (buf.write 0 ((frame.drop 4).take sizeofInformation)) 0) <;> rfl

/-- A record can be told from the book it was added to, among those with the same ID. -/
theorem add_inj (H : node.book.Holds P) (blankarray : Information) {r r' : Information}
    (hid : r.nodeID = r'.nodeID)
    (h : addIncomingCurrInfoToMyBookCalledManifest blankarray node.book r =
      addIncomingCurrInfoToMyBookCalledManifest blankarray node.book r') : r = r' := by
  obtain ⟨book₁, h₁, H₁, -⟩ := H.add blankarray r
  obtain ⟨book₂, h₂, H₂, -⟩ := H.add blankarray r'
  obtain rfl := Option.some_inj.1 ((h₁.symm.trans h).trans h₂)
  have hpage : pageOf (searched P r.nodeID) < maxNumNodes :=
    Nat.lt_trans (pageOf_target_lt P r.nodeID numofReadings 0 1 (numofReadings + 0) (by omega)
      (by unfold numofReadings; omega)) numofReadings_lt
  have hsame := H₁.page_eq H₂ hpage
  rw [← hid, Function.update_self, Function.update_self] at hsame
  exact push_inj numofReadings_pos hsame

/-- **The outcome depends on the packet only** exactly if the packet is as long as a record. -/
theorem packet_only_iff (R : Radios) (blankarray : Information) (H : node.book.Holds P)
    {frame : List (BitVec 8)} (hframe : 4 ≤ frame.length) :
    (∀ buf buf', node.receivePacket R blankarray buf frame =
        node.receivePacket R blankarray buf' frame) ↔
      sizeofInformation ≤ (frame.drop 4).length := by
  simp only [receivePacket_eq R blankarray hframe]
  generalize frame.drop 4 = packet
  constructor
  · intro hall
    by_contra hno
    have hshort : packet.length < sizeofInformation := Nat.lt_of_not_le hno
    have hend : 0 + packet.length ≤ 31 := by unfold sizeofInformation at hshort; omega
    have hsame := hall (fun _ => 0) (Function.update (fun _ => 0) 31 1)
    rw [List.take_of_length_le hshort.le, write_update hend] at hsame
    generalize hm : Memory.write (fun _ => 0) 0 packet = m at hsame
    have hzero : m 31 = 0 := by rw [← hm]; exact write_of_ge hend
    obtain ⟨alt, halt, hload⟩ := Information.load_update m 1
    rw [hload] at hsame
    have heq : Information.load m 0 = { Information.load m 0 with currAlt := alt } :=
      add_inj H blankarray rfl hsame
    have hcurrAlt : double m 24 = alt := congrArg Information.currAlt heq
    have htop : (0 : BitVec 8) = 1 := by rw [← halt, ← hcurrAlt, double_top, hzero]
    exact absurd htop (by decide)
  · intro hlong buf buf'
    have hfull : (packet.take sizeofInformation).length = 32 := by
      rw [List.length_take, Nat.min_eq_left hlong, sizeofInformation]
    have hload : Information.load (buf.write 0 (packet.take sizeofInformation)) 0 =
        Information.load (buf'.write 0 (packet.take sizeofInformation)) 0 := by
      refine Information.load_congr fun i hi => write_congr (Nat.zero_le i) ?_
      rw [hfull, Nat.zero_add]
      exact hi
    rw [hload]

end Node1

/-! ### Both sketches -/

/-- **What is stored and sent on depends on the packet only**: in `1LoRaNode.ino` exactly if the
packet is as long as a record or begins only records that the node ignores, in
`Node1_rcvrTry2.5.ino` exactly if it is as long as a record. -/
theorem short_packets_iff (R : Radios) (frame : List (BitVec 8)) (hframe : 4 ≤ frame.length) :
    (∀ (curr_ID : BitVec 16) (node : LoRaNode), Cells node.nodeHistories →
      ((∀ buf buf', node.receivePacket R curr_ID buf frame =
          node.receivePacket R curr_ID buf' frame) ↔
        GPSData.size ≤ (frame.drop 4).length ∨
          ∀ g : GPSData, frame.drop 4 <+: g.bytes → node.Ignores curr_ID g)) ∧
    ∀ (blankarray : Information) (node : Node1) (P : ℕ → List Information), node.book.Holds P →
      ((∀ buf buf', node.receivePacket R blankarray buf frame =
          node.receivePacket R blankarray buf' frame) ↔
        sizeofInformation ≤ (frame.drop 4).length) := by
  constructor
  · intro curr_ID node hcells
    exact LoRaNode.packet_only_iff R hcells hframe
  · intro blankarray node P H
    exact Node1.packet_only_iff R blankarray H hframe

/-- A packet of one byte, received by a node at start-up. -/
theorem short_packets_iff_byte :
    ((∀ buf buf', LoRaNode.boot.receivePacket Radios.broadcast 1 buf [255, 255, 0, 0, 7] =
        LoRaNode.boot.receivePacket Radios.broadcast 1 buf' [255, 255, 0, 0, 7]) ↔
      GPSData.size ≤ 1 ∨ ∀ g : GPSData, [7] <+: g.bytes → LoRaNode.boot.Ignores 1 g) ∧
    ∃ node, setup (fun _ _ => Information.zero) ⟨0, 0⟩ = some node ∧
      ((∀ buf buf', node.receivePacket Radios.broadcast Information.zero buf [255, 255, 0, 0, 7] =
          node.receivePacket Radios.broadcast Information.zero buf' [255, 255, 0, 0, 7]) ↔
        sizeofInformation ≤ 1) := by
  have hboth := short_packets_iff Radios.broadcast [255, 255, 0, 0, 7] (by decide)
  obtain ⟨node, P, hsetup, I⟩ :=
    setup_inv (fun _ _ => Information.zero) Information.zero 1 ⟨0, 0⟩
  constructor
  · refine hboth.1 1 LoRaNode.boot ?_
    intro h hh
    rw [List.eq_of_mem_replicate hh]
    exact NodeHistory.free_zero.cells
  · exact ⟨node, hsetup, hboth.2 Information.zero node P I.holds⟩

/-- A packet of twelve bytes, with the IDs of another node: the coordinates and the time that are
stored and sent on are those of the memory. -/
theorem short_packet_relays_memory :
    LoRaNode.boot.receivePacket Radios.broadcast 1 (fun _ => 0)
        ([255, 255, 0, 0] ++ Bytes.encode [0x40800000, 2, 2]) ≠
      LoRaNode.boot.receivePacket Radios.broadcast 1 (fun _ => 255)
        ([255, 255, 0, 0] ++ Bytes.encode [0x40800000, 2, 2]) := by
  intro hsame
  have hrelayed := congrArg (Option.map Prod.snd) hsame
  revert hrelayed
  decide

end LoRaGPS
