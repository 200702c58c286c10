/-
**The histories of a mesh, and the order of the broadcasts they hold.**

`storePosition` appends whatever arrives, with no look at what the slot already holds.  If every
node is heard in order and no two walks of the topology meet, a record can arrive only once and
only after the earlier ones of its origin, so every slot holds a subsequence of what its node has
broadcast.  As soon as two walks meet, a record can arrive over both and is stored twice.

Main definitions:

* `LoRaGPS.OrderedHistories` — every slot holds a subsequence of the broadcasts of its node.

Main results:

* `LoRaGPS.Consistent.withKey_map` — the records stored for a node are the relays of its
  broadcasts;
* `LoRaGPS.Consistent.ordered_slot` — where no two walks meet, no table is out of order that holds
  some of what was sent on;
* `LoRaGPS.ordered_histories_iff` — **the histories are ordered in every reachable state exactly
  when no two walks meet** in the topology.
-/

import LoRaGPS.RelayOnce

set_option relaxedAutoImplicit false
set_option autoImplicit false

namespace LoRaGPS

open KeyedLog

variable {ι : Type}

/-- The entries of every slot belong to one node and are, but for the last hop, a subsequence of
what this node has broadcast, in the order in which it did. -/
def OrderedHistories (M : Mesh ι) (t : ι → Station ι) : Prop :=
  ∀ i, ∀ h ∈ (t i).node.nodeHistories, ∃ y, (∀ g ∈ h.entries, g.nodeID = M.nodeID y) ∧
    (h.entries.map GPSData.reading).Sublist ((t y).readings.map GPSData.reading)

/-- A slot that holds more entries than its node has broadcast is not ordered. -/
theorem not_orderedHistories {M : Mesh ι} {t : ι → Station ι} {i o : ι} {h : NodeHistory}
    (hh : h ∈ (t i).node.nodeHistories) (hids : ∀ g ∈ h.entries, g.nodeID = M.nodeID o)
    (hlen : (t o).readings.length < h.entries.length) : ¬ OrderedHistories M t := by
  intro H
  obtain ⟨y, hy, hsub⟩ := H i h hh
  have hpos : 0 < h.entries.length := by omega
  have hg := List.getElem_mem hpos
  obtain rfl : o = y := M.nodeID_inj.1 ((hids _ hg).symm.trans (hy _ hg))
  have hle := hsub.length_le
  rw [List.length_map, List.length_map] at hle
  omega

variable [DecidableEq ι]

/-- The records that a node has stored for `y` are what it has sent on for `y`. -/
theorem Consistent.withKey_map {M : Mesh ι} {t : ι → Station ι} (C : Consistent M t) {i : ι}
    {rs : List GPSData}
    (hrs : rs.map GPSData.reading = (t i).relays.map fun x => x.packet.reading) (y : ι) :
    (withKey GPSData.nodeID (M.nodeID y) rs).map GPSData.reading =
      ((t i).relays.filter fun x => x.copy.origin = y).map fun x => x.packet.reading := by
  rw [map_withKey GPSData.reading_nodeID, hrs, withKey, List.filter_map]
  congr 1
  refine List.filter_congr ?_
  intro x hx
  have hid := C.nodeID (List.mem_of_mem_filter hx)
  simp only [Function.comp_apply, GPSData.reading_nodeID, hid, M.nodeID_inj]

section Ordered

variable {M : Mesh ι} {t : ι → Station ι}

/-- Where no two walks meet, what a node sends on for `y` is in the order of the broadcasts. -/
theorem Consistent.relays_sublist (C : Consistent M t) (hu : Flood.UniqueWalks M.hears)
    (F : Flood.Reachable M.hears Flood.InOrder (parties t)) (i y : ι) :
    (((t i).relays.filter fun x => x.copy.origin = y).map fun x => x.packet.reading).Sublist
      ((t y).readings.map GPSData.reading) := by
  have hsub : ((t i).relays.filter fun x => x.copy.origin = y).Sublist (t i).sent :=
    List.filter_sublist.trans List.filter_sublist
  have horigin : ∀ x ∈ (t i).relays.filter fun x => decide (x.copy.origin = y), x.copy.origin = y :=
    fun x hx => of_decide_eq_true (List.mem_filter.1 hx).2
  have hpair : (t i).sent.Pairwise fun x x' =>
      x.copy.origin = x'.copy.origin → x.copy.seq < x'.copy.seq :=
    List.pairwise_map.1 (Flood.pairwise_sent hu (fun _ _ h => h) F i)
  refine map_sublist_of_getElem? (p := fun x => x.copy.seq) ?_ ?_
  · refine (hpair.sublist hsub).imp_of_mem fun {x x'} hx hx' h => h ?_
    rw [horigin x hx, horigin x' hx']
  · intro x hx
    obtain ⟨r, hr, e⟩ := ((C i).packet x (hsub.subset hx)).2
    rw [horigin x hx] at hr
    rw [List.getElem?_map, hr, Option.map_some, e]

/-- Where no two walks meet, a table is ordered that holds no more than what the node has sent
on. -/
theorem Consistent.ordered_slot (C : Consistent M t) (hu : Flood.UniqueWalks M.hears)
    (F : Flood.Reachable M.hears Flood.InOrder (parties t)) {i : ι} {rs kept : List GPSData}
    (hreadings : rs.map GPSData.reading = (t i).relays.map fun x => x.packet.reading)
    (hkept : kept.Sublist rs) {hs : List NodeHistory}
    (hhs : storeAll nodeHistories kept = some hs) {h : NodeHistory} (hh : h ∈ hs) :
    ∃ y, (∀ g ∈ h.entries, g.nodeID = M.nodeID y) ∧
      (h.entries.map GPSData.reading).Sublist ((t y).readings.map GPSData.reading) := by
  rcases (storeAll_exact hhs).entries hh with hnil | ⟨d, hd, hentries⟩
  · exact ⟨i, by simp [hnil], by simp [hnil]⟩
  · -- the node of the slot is the origin of what was sent on
    obtain ⟨r, hr, rfl⟩ := mem_firstKeys.1 (List.mem_of_mem_take hd)
    obtain ⟨x, hx, e⟩ := exists_relay hreadings (hkept.subset hr)
    have hid : r.nodeID = M.nodeID x.copy.origin :=
      (GPSData.nodeID_eq_of_reading e).trans (C.nodeID (List.mem_of_mem_filter hx))
    rw [hid] at hentries
    refine ⟨x.copy.origin, ?_, ?_⟩
    · intro g hg
      rw [hentries] at hg
      exact (mem_withKey.1 (mem_of_mem_rtake hg)).2
    · rw [hentries]
      refine ((rtake_sublist _ 50).map _).trans ?_
      refine ((hkept.filter _).map _).trans ?_
      have horder := C.relays_sublist hu F i x.copy.origin
      rwa [← C.withKey_map hreadings] at horder

end Ordered

/-- Where no two walks meet, the histories are ordered in every reachable state. -/
theorem orderedHistories_of_uniqueWalks {M : Mesh ι} (hu : Flood.UniqueWalks M.hears)
    {t : ι → Station ι} (ht : M.Reachable Flood.InOrder t) : OrderedHistories M t := by
  intro i h hh
  have C := Mesh.reachable_consistent ht
  obtain ⟨rs, hrs, hreadings⟩ := (C i).history
  exact C.ordered_slot hu ht.flood hreadings (.refl rs) hrs hh

/-- Where two walks meet, some node can be made to store a record twice. -/
theorem exists_repeated_entry [Fintype ι] {M : Mesh ι} (hu : ¬ Flood.UniqueWalks M.hears) :
    ∃ t, M.Reachable Flood.InOrder t ∧ ¬ OrderedHistories M t := by
  have hopen : ∀ k, Flood.InOrder [] k := fun _ _ h => absurd h List.not_mem_nil
  obtain ⟨o, y, s, hs, S, hy, hlen⟩ := Flood.exists_second_copy hopen hu
  obtain ⟨t, ht, rfl⟩ := Mesh.reachable_iff.1 hs
  have C := Mesh.reachable_consistent ht
  obtain ⟨rs, hrs, hreadings⟩ := (C y).history
  have hrelays := relays_of_spread (Flood.reachable_inv hs) S hy
  have hcount : rs.length = (t y).sent.length := by
    simpa [hrelays] using congrArg List.length hreadings
  have htwo : 2 ≤ (t y).sent.length := by simpa [parties, Station.party] using hlen
  -- all that the node has stored is the one reading of `o`
  have hids : ∀ r ∈ rs, r.nodeID = M.nodeID o := by
    intro r hr
    obtain ⟨x, hx, e⟩ := exists_relay hreadings hr
    have hsent := List.mem_of_mem_filter hx
    have hxo := (S.single y x.copy (List.mem_map_of_mem hsent)).1
    rw [GPSData.nodeID_eq_of_reading e, C.nodeID hsent, hxo]
  have hall : withKey GPSData.nodeID (M.nodeID o) rs = rs :=
    List.filter_eq_self.2 fun r hr => decide_eq_true (hids r hr)
  obtain ⟨d, hd⟩ : ∃ d, d ∈ slotIDs rs := by
    obtain ⟨r, hr⟩ := List.exists_mem_of_length_pos (show 0 < rs.length by omega)
    have hkey : r.nodeID ∈ firstKeys GPSData.nodeID rs := mem_firstKeys.2 ⟨r, hr, rfl⟩
    refine List.exists_mem_of_length_pos ?_
    have hpos := List.length_pos_of_mem hkey
    rw [slotIDs, List.length_take]
    omega
  obtain ⟨r, hr, hrd⟩ := mem_firstKeys.1 (List.mem_of_mem_take hd)
  obtain ⟨h, hh, hentries⟩ := (storeAll_exact hrs).slot hd
  rw [← hrd, hids r hr, hall] at hentries
  refine ⟨t, ht, not_orderedHistories hh (o := o) ?_ ?_⟩
  · intro g hg
    rw [hentries] at hg
    exact hids g (mem_of_mem_rtake hg)
  · have hone : (t o).readings.length = 1 := S.started.2
    rw [hentries, length_rtake]
    omega

/-- **The histories of a mesh are ordered and free of repeats, in every reachable state, exactly
when no two walks meet in its topology.** -/
theorem ordered_histories_iff [Fintype ι] (M : Mesh ι) :
    (∀ t, M.Reachable Flood.InOrder t → OrderedHistories M t) ↔ Flood.UniqueWalks M.hears := by
  constructor
  · intro h
    by_contra hu
    obtain ⟨t, ht, hnot⟩ := exists_repeated_entry hu
    exact hnot (h t ht)
  · intro hu t ht
    exact orderedHistories_of_uniqueWalks hu ht

/-- The histories of three nodes in a row are ordered. -/
theorem ordered_histories_chain :
    ∀ t, Mesh.chain.Reachable Flood.InOrder t → OrderedHistories Mesh.chain t :=
  (ordered_histories_iff Mesh.chain).2 Mesh.chain_uniqueWalks

/-- Three nodes that hear each other: what the third one hears from the first, and then from the
second, it stores twice. -/
theorem triangle_stores_twice : ∃ t, Mesh.triangle.Reachable Flood.InOrder t ∧
    ¬ OrderedHistories Mesh.triangle t := by
  have hplay : ((Mesh.triangle.play Flood.InOrder
      [⟨0, exampleInput true, none⟩, ⟨1, exampleInput false, some (0, 0)⟩,
        ⟨2, exampleInput false, some (0, 0)⟩, ⟨2, exampleInput false, some (1, 0)⟩]).map
      fun t => ((t 2).node.nodeHistories.head?.map fun h => h.entries.map GPSData.nodeID,
        (t 0).readings.length)) = some (some [1, 1], 1) := by decide +kernel
  obtain ⟨t, ht, hstored⟩ := Option.map_eq_some_iff.1 hplay
  obtain ⟨hslot, hone⟩ := Prod.mk.inj hstored
  obtain ⟨h, hh, hentries⟩ := Option.map_eq_some_iff.1 hslot
  refine ⟨t, Mesh.reachable_of_play ht, not_orderedHistories (o := 0) (List.mem_of_head? hh) ?_ ?_⟩
  · intro g hg
    have hmem : g.nodeID ∈ h.entries.map GPSData.nodeID := List.mem_map_of_mem hg
    rw [hentries] at hmem
    obtain h₁ : g.nodeID = 1 := by simpa using hmem
    rw [h₁]
    rfl
  · have hlen := congrArg List.length hentries
    rw [List.length_map] at hlen
    rw [hlen, hone]
    decide

end LoRaGPS
