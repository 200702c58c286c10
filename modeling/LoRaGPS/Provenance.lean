/-
**Where the records of a mesh come from.**

Whatever the channel does to the packets, short of handing a node what it sent itself, every
record that is in flight or stored was broadcast by the node whose ID it carries, no matter how
many nodes have relayed it since.  The last hop of a packet is the node that sent it, so the test
of `senderID` in the code never fails.

Main definitions:

* `LoRaGPS.Provenance` — what this means for a state of the mesh.

Main results:

* `LoRaGPS.Consistent.stored` — a history entry goes back to a packet that was sent on;
* `LoRaGPS.Provenance.of_consistent` — consistency and the walks of the copies are all it takes;
* `LoRaGPS.provenance` — **provenance holds in every reachable state**.
-/

import LoRaGPS.Mesh

set_option relaxedAutoImplicit false
set_option autoImplicit false

namespace LoRaGPS

open KeyedLog

variable {ι : Type}

/-- The record `g` carries the ID of some node and a reading that this node has broadcast. -/
def Genuine (M : Mesh ι) (t : ι → Station ι) (g : GPSData) : Prop :=
  ∃ y, g.nodeID = M.nodeID y ∧ ∃ r ∈ (t y).readings, g.reading = r.reading

/-- Where the records in a state of the mesh come from.  `lastHop` and `guard` are about the test
of `senderID` in `loop`, the other fields about the records themselves. -/
structure Provenance (M : Mesh ι) (t : ι → Station ι) : Prop where
  inFlight : ∀ i, ∀ x ∈ (t i).sent, Genuine M t x.packet
  stored : ∀ i, ∀ h ∈ (t i).node.nodeHistories, ∀ g ∈ h.entries, Genuine M t g
  lastHop : ∀ i, ∀ x ∈ (t i).sent, x.packet.senderID = M.nodeID i
  guard : ∀ i j, M.hears i j → ∀ x ∈ (t j).sent, x.packet.senderID ≠ M.nodeID i
  notStored : ∀ i, ∀ h ∈ (t i).node.nodeHistories, ∀ g ∈ h.entries, g.nodeID ≠ M.nodeID i
  notRelayed : ∀ i, ∀ x ∈ (t i).relays, x.packet.nodeID ≠ M.nodeID i

variable {M : Mesh ι} {channel : List ℕ → ℕ → Prop} {t : ι → Station ι}

theorem Consistent.genuine (C : Consistent M t) {i : ι} {x : Transmission ι}
    (hx : x ∈ (t i).sent) : Genuine M t x.packet := by
  obtain ⟨r, hr, e⟩ := ((C i).packet x hx).2
  exact ⟨x.copy.origin, C.nodeID hx, r, List.mem_of_getElem? hr, e⟩

/-- What a table holds of the records it was made from, but for the last hop. -/
theorem exists_relay_of_entry {rs : List GPSData} {xs : List (Transmission ι)}
    {hs : List NodeHistory} (hrs : storeAll nodeHistories rs = some hs)
    (hreadings : rs.map GPSData.reading = xs.map fun x => x.packet.reading) {h : NodeHistory}
    {g : GPSData} (hh : h ∈ hs) (hg : g ∈ h.entries) :
    ∃ x ∈ xs, g.reading = x.packet.reading := by
  have hgrs : g ∈ rs := by
    rcases (storeAll_exact hrs).entries hh with hnil | ⟨d, -, hentries⟩
    · rw [hnil] at hg
      cases hg
    · rw [hentries] at hg
      exact (mem_withKey.1 (mem_of_mem_rtake hg)).1
  exact exists_relay hreadings hgrs

/-- A history entry is what some packet was before the node sent it on. -/
theorem Consistent.stored (C : Consistent M t) {i : ι} {h : NodeHistory} {g : GPSData}
    (hh : h ∈ (t i).node.nodeHistories) (hg : g ∈ h.entries) :
    ∃ x ∈ (t i).relays, g.reading = x.packet.reading := by
  obtain ⟨rs, hrs, hreadings⟩ := (C i).history
  exact exists_relay_of_entry hrs hreadings hh hg

theorem Genuine.congr {g g' : GPSData} (h : g.reading = g'.reading) (H : Genuine M t g') :
    Genuine M t g := by
  obtain ⟨y, hy, r, hr, e⟩ := H
  exact ⟨y, (GPSData.nodeID_eq_of_reading h).trans hy, r, hr, h.trans e⟩

/-- What a node sends on has another origin: the copy has come over a walk that never returns. -/
theorem origin_ne_of_inv (I : Flood.Inv M.hears (parties t)) {i : ι} {x : Transmission ι}
    (hx : x ∈ (t i).relays) : x.copy.origin ≠ i := by
  obtain ⟨hmem, hhops⟩ := List.mem_filter.1 hx
  have hw := I.walk i x.copy (List.mem_map_of_mem hmem)
  rintro rfl
  exact absurd hw.eq_nil (of_decide_eq_true hhops)

theorem Consistent.nodeID_ne (C : Consistent M t) (I : Flood.Inv M.hears (parties t)) {i : ι}
    {x : Transmission ι} (hx : x ∈ (t i).relays) : x.packet.nodeID ≠ M.nodeID i := by
  rw [C.nodeID (List.mem_of_mem_filter hx)]
  intro e
  exact origin_ne_of_inv I hx (M.nodeID_inj.1 e)

/-- Provenance holds where packets and histories go back to what was broadcast, and every copy has
taken a walk. -/
theorem Provenance.of_consistent (C : Consistent M t) (I : Flood.Inv M.hears (parties t)) :
    Provenance M t := by
  constructor
  · intro i x hx
    exact C.genuine hx
  · intro i h hh g hg
    obtain ⟨x, hx, e⟩ := C.stored hh hg
    exact (C.genuine (List.mem_of_mem_filter hx)).congr e
  · intro i x hx
    exact ((C i).packet x hx).1
  · intro i j hij x hx
    exact C.senderID_ne hij hx
  · intro i h hh g hg
    obtain ⟨x, hx, e⟩ := C.stored hh hg
    rw [GPSData.nodeID_eq_of_reading e]
    exact C.nodeID_ne I hx
  · intro i x hx
    exact C.nodeID_ne I hx

section Reachable

variable [DecidableEq ι]

theorem Mesh.Reachable.origin_ne (ht : M.Reachable channel t) {i : ι} {x : Transmission ι}
    (hx : x ∈ (t i).relays) : x.copy.origin ≠ i :=
  origin_ne_of_inv (Flood.reachable_inv ht.flood) hx

/-- **Provenance holds in every reachable state**, whatever the channel does. -/
theorem provenance (M : Mesh ι) (channel : List ℕ → ℕ → Prop) (t : ι → Station ι)
    (ht : M.Reachable channel t) : Provenance M t :=
  .of_consistent (Mesh.reachable_consistent ht) (Flood.reachable_inv ht.flood)

end Reachable

/-- A record that has been relayed twice, by two nodes that hear each other, and delivered to the
second one twice. -/
theorem provenance_triangle : ∃ t, Mesh.triangle.play Flood.AnyOrder
      [⟨0, exampleInput true, none⟩, ⟨1, exampleInput false, some (0, 0)⟩,
        ⟨2, exampleInput false, some (1, 0)⟩, ⟨2, exampleInput false, some (1, 0)⟩] = some t ∧
    (t 2).sent.length = 2 ∧ Provenance Mesh.triangle t := by
  have hplay : ((Mesh.triangle.play Flood.AnyOrder
      [⟨0, exampleInput true, none⟩, ⟨1, exampleInput false, some (0, 0)⟩,
        ⟨2, exampleInput false, some (1, 0)⟩, ⟨2, exampleInput false, some (1, 0)⟩]).map
      fun t => (t 2).sent.length) = some 2 := by decide +kernel
  obtain ⟨t, ht, hlen⟩ := Option.map_eq_some_iff.1 hplay
  exact ⟨t, ht, hlen, provenance _ Flood.AnyOrder t (Mesh.reachable_of_play ht)⟩

end LoRaGPS
