/-
**Packets of the Heltec node in the histories of the mesh.**

`RH_RF95` takes four bytes off every packet that it accepts, whoever has sent it.  A packet of the
Heltec node, which has no header, is one field short then: what a node of the mesh takes for the ID
is the latitude, and the last field is whatever was in memory.  Since the ID decides on the slot, a
Heltec node that moves takes one slot after the other.  The first ten IDs keep their slots, so that
ten latitudes shut out every node of the mesh, but for one whose ID is the bit pattern of such a
latitude.

Main definitions:

* `LoRaGPS.Reception`, `LoRaGPS.Reception.incoming` — a packet, and the record it is taken for;
* `LoRaGPS.LoRaNode.hearAll` — the iterations of a run, with the records that were stored in it;
* `LoRaGPS.TakenBy` — slots that are all taken, and by whom.

Main results:

* `LoRaGPS.LoRaNode.hearAll_files` — a run stores what it receives;
* `LoRaGPS.slotIDs_of_full` — the IDs of ten slots never change again;
* `LoRaGPS.heltec_fills_table` — **ten latitudes of a Heltec node take all the slots for good**.
-/

import LoRaGPS.LoRaNode
import LoRaGPS.PacketFormat

set_option relaxedAutoImplicit false
set_option autoImplicit false

namespace LoRaGPS

open Bytes KeyedLog

/-! ### What a node of the mesh receives -/

/-- A record that one of the sketches has sent and the radio accepts, and the memory at the place of
the local variable `incoming` of the node that receives it.  `RH_RF95` takes the first byte of a
packet for its destination and drops the packet unless that is the broadcast address `0xFF` or its
own, so that of a Heltec node it accepts those with such a byte in the battery level. -/
structure Reception where
  sender : NodeSketch
  gpsData : GPSData
  stack : Memory

/-- The record that `rf95.recv` leaves in `incoming`. -/
def Reception.incoming (R : Radios) (p : Reception) : GPSData :=
  GPSData.load (R.rf95Recv p.stack GPSData.size (p.sender.frame R p.gpsData)) 0

/-- A node, and the records it has stored, in order. -/
structure Filing where
  node : LoRaNode
  filed : List GPSData

namespace LoRaNode

variable (curr_ID : BitVec 16) (R : Radios)

/-- One iteration, which may receive a packet. -/
def hear (s : Filing) (e : LoopInput × Option Reception) : Option Filing :=
  let received := e.2.map (Reception.incoming R)
  (loop curr_ID s.node e.1 received).map fun out =>
    { node := out.node
      filed := s.filed ++
        if out.listened then received.toList.filter fun g => g.nodeID ≠ intID curr_ID else [] }

/-- The iterations of a run, from when the node is switched on. -/
def hearAll (es : List (LoopInput × Option Reception)) : Option Filing :=
  es.foldlM (hear curr_ID R) ⟨boot, []⟩

theorem hearAll_append (es : List (LoopInput × Option Reception))
    (e : LoopInput × Option Reception) :
    hearAll curr_ID R (es ++ [e]) = (hearAll curr_ID R es).bind fun s => hear curr_ID R s e := by
  rw [hearAll, List.foldlM_append]
  cases h : hearAll curr_ID R es with
  | none =>
      rw [hearAll] at h
      simp [h]
  | some s =>
      rw [hearAll] at h
      simp [h]

end LoRaNode

/-- **A packet of the Heltec node is filed under its latitude.** -/
theorem Reception.incoming_heltec (R : Radios) {p : Reception} (hp : p.sender = .loRaNodeHeltec) :
    (p.incoming R).nodeID = p.gpsData.latitude := by
  have hdecode := decode_heltec R p.stack .gateway2 p.gpsData
  have hid := congrArg GPSData.nodeID hdecode
  rw [Reception.incoming, hp]
  exact hid

/-! ### What a run stores -/

/-- The slots hold the records `s.filed`, all of which have been received in the run `es`. -/
structure Files (R : Radios) (es : List (LoopInput × Option Reception)) (s : Filing) : Prop where
  history : storeAll nodeHistories s.filed = some s.node.nodeHistories
  received : ∀ g ∈ s.filed, ∃ e ∈ es, ∃ p ∈ e.2, g = p.incoming R

section Runs

variable {curr_ID : BitVec 16} {R : Radios} {es : List (LoopInput × Option Reception)}
  {s : Filing}

/-- **One more iteration stores what it receives.** -/
theorem Files.hear (F : Files R es s) (curr_ID : BitVec 16) (e : LoopInput × Option Reception) :
    ∃ s', LoRaNode.hear curr_ID R s e = some s' ∧ Files R (es ++ [e]) s' ∧
      s.filed <+: s'.filed := by
  obtain ⟨hs, hrs, -, H⟩ := storeAll_represents s.filed
  obtain rfl := Option.some_inj.1 (F.history.symm.trans hrs)
  obtain ⟨out, hout⟩ := LoRaNode.loop_total H curr_ID e.1 (e.2.map (Reception.incoming R))
  have hheard := (LoRaNode.loop_spec hout).2.storeAll
  refine ⟨_, by rw [LoRaNode.hear, hout]; rfl, ⟨?_, ?_⟩, List.prefix_append _ _⟩
  · rw [storeAll_append_all, F.history, Option.bind_some, ← hheard]
    split <;> rfl
  · intro g hg
    rcases List.mem_append.1 hg with hold | hnew
    · obtain ⟨e', he', p, hp, rfl⟩ := F.received g hold
      exact ⟨e', List.mem_append_left _ he', p, hp, rfl⟩
    · split at hnew
      · have hmem := Option.mem_toList.1 (List.mem_of_mem_filter hnew)
        obtain ⟨p, hp, rfl⟩ := Option.map_eq_some_iff.1 hmem
        exact ⟨e, by simp, p, hp, rfl⟩
      · cases hnew

/-- **A run stores what it receives**, and never fails. -/
theorem LoRaNode.hearAll_files (curr_ID : BitVec 16) (R : Radios)
    (es : List (LoopInput × Option Reception)) :
    ∃ s, LoRaNode.hearAll curr_ID R es = some s ∧ Files R es s := by
  induction es using List.reverseRecOn with
  | nil => exact ⟨_, rfl, rfl, by simp⟩
  | append_singleton es e ih =>
      obtain ⟨s, hs, F⟩ := ih
      obtain ⟨s', hs', F', -⟩ := F.hear curr_ID e
      exact ⟨s', by rw [LoRaNode.hearAll_append, hs, Option.bind_some, hs'], F'⟩

/-- What was stored stays stored, or was pushed out of its slot. -/
theorem LoRaNode.hearAll_mono (es' : List (LoopInput × Option Reception)) {s' : Filing}
    (h : LoRaNode.hearAll curr_ID R es = some s)
    (h' : LoRaNode.hearAll curr_ID R (es ++ es') = some s') : s.filed <+: s'.filed := by
  induction es' using List.reverseRecOn generalizing s' with
  | nil =>
      rw [List.append_nil] at h'
      obtain rfl := Option.some_inj.1 (h.symm.trans h')
      exact List.prefix_rfl
  | append_singleton es' e ih =>
      rw [← List.append_assoc, LoRaNode.hearAll_append] at h'
      obtain ⟨s₁, h₁, hstep⟩ := Option.bind_eq_some_iff.1 h'
      obtain ⟨s₂, hs₂, F⟩ := LoRaNode.hearAll_files curr_ID R (es ++ es')
      obtain rfl := Option.some_inj.1 (h₁.symm.trans hs₂)
      obtain ⟨s₃, hs₃, -, hpre⟩ := F.hear curr_ID e
      obtain rfl := Option.some_inj.1 (hstep.symm.trans hs₃)
      exact (ih h₁).trans hpre

end Runs

/-! ### The slots run out -/

/-- Once there are ten, the IDs that have a slot never change. -/
theorem slotIDs_of_full {rs rs' : List GPSData} (h : rs <+: rs')
    (hfull : 10 ≤ (firstKeys GPSData.nodeID rs).length) : slotIDs rs' = slotIDs rs := by
  have hpre : slotIDs rs <+: slotIDs rs' := (firstKeys_mono h).take 10
  refine (hpre.eq_of_length_le ?_).symm
  rw [slotIDs, slotIDs, List.length_take, List.length_take]
  omega

/-- The slots `hs` are all taken, by the nodes `ids` in order, and no other node gets one. -/
structure TakenBy (ids : List (BitVec 32)) (hs : List NodeHistory) : Prop where
  slots : hs.length = ids.length
  taken : ∀ (i : ℕ) (d : BitVec 32), ids[i]? = some d →
    ∃ h : NodeHistory, hs[i]? = some h ∧ h.entries ≠ [] ∧ ∀ g ∈ h.entries, g.nodeID = d
  closed : ∀ g : GPSData, g.nodeID ∉ ids → storePosition hs g = some hs

/-- A node that has a slot has stored something in it. -/
theorem rtake_withKey_ne_nil {rs : List GPSData} {d : BitVec 32} (hd : d ∈ slotIDs rs) :
    (withKey GPSData.nodeID d rs).rtake 50 ≠ [] := by
  obtain ⟨r, hr, hrd⟩ := mem_firstKeys.1 (List.mem_of_mem_take hd)
  have hpos : 0 < (withKey GPSData.nodeID d rs).length :=
    List.length_pos_of_mem (mem_withKey.2 ⟨hr, hrd⟩)
  rw [← List.length_pos_iff, length_rtake]
  omega

/-- Once there are ten IDs, the slots are taken by the first ten. -/
theorem ExactTable.takenBy {rs : List GPSData} {hs : List NodeHistory} (E : ExactTable rs hs)
    (hfull : (slotIDs rs).length = 10) : TakenBy (slotIDs rs) hs where
  slots := E.slots.trans hfull.symm
  taken i d hd := by
    obtain ⟨h, hi, -, hentries⟩ := E.used i d hd
    refine ⟨h, hi, ?_, ?_⟩
    · rw [hentries]
      exact rtake_withKey_ne_nil (List.mem_of_getElem? hd)
    · intro g hg
      rw [hentries] at hg
      exact (mem_withKey.1 (mem_of_mem_rtake hg)).2
  closed g := E.further g hfull

/-- **Ten latitudes of a Heltec node take all the slots for good.**  Once a node of the mesh has
stored its packets under ten different IDs, there are ten of its latitudes which take the ten slots,
whatever the node receives afterwards, and no record with another ID is stored any more. -/
theorem heltec_fills_table (curr_ID : BitVec 16) (R : Radios)
    (es : List (LoopInput × Option Reception))
    (hes : ∀ e ∈ es, ∀ p ∈ e.2, p.sender = .loRaNodeHeltec) :
    ∃ s, LoRaNode.hearAll curr_ID R es = some s ∧
      (10 ≤ (firstKeys GPSData.nodeID s.filed).length →
        ∃ latitudes : List (BitVec 32), latitudes.length = 10 ∧ latitudes.Nodup ∧
          (∀ d ∈ latitudes, ∃ e ∈ es, ∃ p ∈ e.2, d = p.gpsData.latitude) ∧
          ∀ es', ∃ s', LoRaNode.hearAll curr_ID R (es ++ es') = some s' ∧
            TakenBy latitudes s'.node.nodeHistories) := by
  obtain ⟨s, hs, F⟩ := LoRaNode.hearAll_files curr_ID R es
  refine ⟨s, hs, ?_⟩
  intro hfull
  have hten : (slotIDs s.filed).length = 10 := by
    rw [slotIDs, List.length_take]
    omega
  refine ⟨slotIDs s.filed, hten, (nodup_firstKeys s.filed).sublist (List.take_sublist _ _), ?_, ?_⟩
  · intro d hd
    obtain ⟨r, hr, rfl⟩ := mem_firstKeys.1 (List.mem_of_mem_take hd)
    obtain ⟨e, he, p, hp, rfl⟩ := F.received r hr
    exact ⟨e, he, p, hp, Reception.incoming_heltec R (hes e he p hp)⟩
  · intro es'
    obtain ⟨s', hs', F'⟩ := LoRaNode.hearAll_files curr_ID R (es ++ es')
    have hids := slotIDs_of_full (LoRaNode.hearAll_mono es' hs hs') hfull
    refine ⟨s', hs', ?_⟩
    rw [← hids] at hten ⊢
    exact (storeAll_exact F'.history).takenBy hten

/-- A Heltec node that is heard at ten latitudes.  The lowest byte of its battery level is the
broadcast address. -/
def tenLatitudes : List (LoopInput × Option Reception) :=
  (List.range 10).map fun k => (LoRaNode.quiet LoRaNode.boot,
    some ⟨.loRaNodeHeltec, ⟨0x42C7FFFF, 21, 21, BitVec.ofNat 32 (0x42279998 + k), 0, 0, 0⟩,
      fun _ => 0⟩)

/-- The node `99` of the mesh is heard too late. -/
theorem heltec_fills_table_ten : ∃ latitudes : List (BitVec 32), latitudes.length = 10 ∧
    (∀ d ∈ latitudes, ∃ e ∈ tenLatitudes, ∃ p ∈ e.2, d = p.gpsData.latitude) ∧
    ∃ s', LoRaNode.hearAll 50 Radios.broadcast (tenLatitudes ++
        [(LoRaNode.quiet LoRaNode.boot, some ⟨.loRaNode, ⟨0, 99, 99, 5, 5, 5, 5⟩, fun _ => 0⟩)]) =
          some s' ∧
      TakenBy latitudes s'.node.nodeHistories := by
  have hten : ((LoRaNode.hearAll 50 Radios.broadcast tenLatitudes).map
      fun s => (firstKeys GPSData.nodeID s.filed).length) = some 10 := by decide +kernel
  have hheltec : ∀ e ∈ tenLatitudes, ∀ p ∈ e.2, p.sender = .loRaNodeHeltec := by
    intro e he p hp
    obtain ⟨k, -, rfl⟩ := List.mem_map.1 he
    obtain rfl := Option.mem_some_iff.1 hp
    rfl
  obtain ⟨s, hs, hfills⟩ := heltec_fills_table 50 Radios.broadcast tenLatitudes hheltec
  rw [hs, Option.map_some] at hten
  obtain ⟨latitudes, hlen, -, hlatitudes, hcontinued⟩ := hfills (Option.some_inj.1 hten).ge
  exact ⟨latitudes, hlen, hlatitudes, hcontinued _⟩

end LoRaGPS
