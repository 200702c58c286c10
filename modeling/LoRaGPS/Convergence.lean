/-
**What the histories of a mesh come to.**

In a topology in which no two walks meet, a node that hears everything in order relays every
broadcast of every node that a walk leads from, in the order of the broadcasts.  Once nothing is
left to be heard, its history table is therefore determined, but for the order in which it has
first heard of the others: slot after slot, the last fifty broadcasts of the first ten of them.  No
node knows less about a third one than another node does.

Main definitions:

* `LoRaGPS.Converged` — the history table that a node should have in the end.

Main results:

* `LoRaGPS.ExactTable.map_entries` — what the slots hold, all of them at once;
* `LoRaGPS.relays_complete` — a node that has heard everything has relayed every broadcast of every
  node that it can hear of;
* `LoRaGPS.mem_origins_iff` — whose records a node has stored in the end;
* `LoRaGPS.histories_converge` — **once a mesh has settled, every history has converged**.
-/

import LoRaGPS.HistoryOrder
import LoRaGPS.Provenance
import LoRaGPS.Storms
import Mathlib.Data.List.Perm.Subperm
import Mathlib.Data.Set.List

set_option relaxedAutoImplicit false
set_option autoImplicit false

namespace LoRaGPS

open KeyedLog

variable {ι : Type}

/-! ### All the slots of a table -/

theorem map_rtake {α β : Type} (f : α → β) (l : List α) (D : ℕ) :
    (l.rtake D).map f = (l.map f).rtake D := by
  simp [List.rtake]

/-- The slots hold the ends of the logs of the nodes that have one, and nothing. -/
theorem ExactTable.map_entries {rs : List GPSData} {hs : List NodeHistory}
    (E : ExactTable rs hs) : hs.map NodeHistory.entries =
      (slotIDs rs).map (fun d => (withKey GPSData.nodeID d rs).rtake 50) ++
        List.replicate (10 - (slotIDs rs).length) [] := by
  have hle : (slotIDs rs).length ≤ 10 := List.length_take_le _ _
  refine List.ext_getElem (by simp [E.slots]; omega) ?_
  intro j hj hj'
  have hslot : j < hs.length := by simpa using hj
  rw [List.getElem_map]
  rcases Nat.lt_or_ge j (slotIDs rs).length with hlt | hge
  · obtain ⟨h, hh, -, hentries⟩ := E.used j _ (List.getElem?_eq_getElem hlt)
    have hj : hs[j] = h := (List.getElem?_eq_some_iff.1 hh).2
    rw [hj, hentries, List.getElem_append_left (by simpa using hlt), List.getElem_map]
  · have hh : hs[j]? = some hs[j] := List.getElem?_eq_getElem hslot
    rw [List.getElem_append_right (by simpa using hge), List.getElem_replicate,
      NodeHistory.entries, E.unused j _ hh hge, List.take_zero]

/-! ### Whose records a table holds -/

section Origins

variable {M : Mesh ι} {t : ι → Station ι} {i : ι} {rs : List GPSData} {os : List ι}

/-- The records that a node has stored belong to nodes of the mesh. -/
theorem Consistent.exists_origins (C : Consistent M t)
    (hreadings : rs.map GPSData.reading = (t i).relays.map fun x => x.packet.reading) :
    ∃ os : List ι, os.map M.nodeID = firstKeys GPSData.nodeID rs := by
  have hkeys : firstKeys GPSData.nodeID rs ∈ Set.range (List.map M.nodeID) := by
    rw [Set.range_list_map]
    intro d hd
    obtain ⟨r, hr, rfl⟩ := mem_firstKeys.1 hd
    obtain ⟨x, hx, e⟩ := exists_relay hreadings hr
    refine ⟨x.copy.origin, ?_⟩
    rw [GPSData.nodeID_eq_of_reading e, C.nodeID (List.mem_of_mem_filter hx)]
  exact hkeys

theorem mem_origins (hos : os.map M.nodeID = firstKeys GPSData.nodeID rs) {o : ι} :
    o ∈ os ↔ ∃ r ∈ rs, r.nodeID = M.nodeID o := by
  rw [← mem_firstKeys, ← hos, List.mem_map]
  constructor
  · intro ho
    exact ⟨o, ho, rfl⟩
  · rintro ⟨o', ho', e⟩
    exact M.nodeID_inj.1 e ▸ ho'

/-- Slot by slot, the records of the first ten nodes. -/
theorem ExactTable.entries_origins {hs : List NodeHistory} (E : ExactTable rs hs)
    (hos : os.map M.nodeID = firstKeys GPSData.nodeID rs) :
    hs.map NodeHistory.entries =
      (os.take 10).map (fun o => (withKey GPSData.nodeID (M.nodeID o) rs).rtake 50) ++
        List.replicate (10 - os.length) [] := by
  have hslots : slotIDs rs = (os.take 10).map M.nodeID := by
    rw [slotIDs, ← hos, List.map_take]
  have hlen : 10 - (slotIDs rs).length = 10 - os.length := by
    rw [hslots, List.length_map, List.length_take]
    omega
  rw [E.map_entries, hlen, hslots, List.map_map]
  rfl

end Origins

/-! ### What a node has relayed in the end -/

variable [DecidableEq ι]

/-- Distinct numbers that are all listed are no more than the list is long. -/
theorem le_length_of_forall_mem {l : List ℕ} {m : ℕ} (h : ∀ n < m, n ∈ l) : m ≤ l.length := by
  have hsub : List.range m ⊆ l := by
    intro n hn
    exact h n (List.mem_range.1 hn)
  simpa using (List.subperm_of_subset List.nodup_range hsub).length_le

/-- A node that has heard everything in order **has relayed every broadcast of every node that it
can hear of**, in order, where no two walks meet. -/
theorem relays_complete {M : Mesh ι} (hu : Flood.UniqueWalks M.hears) {t : ι → Station ι}
    (ht : M.Reachable Flood.InOrder t) (S : M.Settled t) {i o : ι} (ho : o ≠ i)
    (hw : (Flood.walks M.hears o i).Nonempty) :
    (((t i).relays.filter fun x => x.copy.origin = o).map fun x => x.packet.reading) =
      (t o).readings.map GPSData.reading := by
  refine ((Mesh.reachable_consistent ht).relays_sublist hu ht.flood i o).eq_of_length_le ?_
  rw [List.length_map, List.length_map]
  have hall : ∀ n < (t o).readings.length,
      n ∈ ((t i).relays.filter fun x => x.copy.origin = o).map fun x => x.copy.seq := by
    intro n hn
    obtain ⟨p, w⟩ := hw
    have hsent := S.flood.travelled (Flood.reachable_answered ht.flood) (n := n) hn w
    obtain ⟨x, hx, hcopy⟩ := List.mem_map.1 hsent
    have hp : p ≠ [] := by
      rintro rfl
      cases w
      exact ho rfl
    refine List.mem_map.2 ⟨x, ?_, by rw [hcopy]⟩
    rw [List.mem_filter, Station.relays, List.mem_filter, hcopy]
    exact ⟨⟨hx, decide_eq_true hp⟩, decide_eq_true rfl⟩
  simpa using le_length_of_forall_mem hall

/-- What was relayed for `o` came over a walk from `o`. -/
theorem Mesh.Reachable.exists_walk {M : Mesh ι} {channel : List ℕ → ℕ → Prop} {t : ι → Station ι}
    (ht : M.Reachable channel t) {i : ι} {x : Transmission ι} (hx : x ∈ (t i).relays) :
    (Flood.walks M.hears x.copy.origin i).Nonempty :=
  ⟨_, (Flood.reachable_inv ht.flood).walk i x.copy
    (List.mem_map_of_mem (List.mem_of_mem_filter hx))⟩

/-! ### The histories -/

/-- The history of `i` is complete: among the nodes that have broadcast something and that a walk
to `i` leads from, in some order, each of the first ten has a slot with its last fifty broadcasts,
and the other slots are empty. -/
def Converged (M : Mesh ι) (t : ι → Station ι) (i : ι) : Prop :=
  ∃ os : List ι, os.Nodup ∧
    (∀ o, o ∈ os ↔
      o ≠ i ∧ (Flood.walks M.hears o i).Nonempty ∧ (t o).readings ≠ []) ∧
    (t i).node.nodeHistories.map (fun h => h.entries.map GPSData.reading) =
      (os.take 10).map (fun o => ((t o).readings.map GPSData.reading).rtake 50) ++
        List.replicate (10 - os.length) []

section Settled

variable {M : Mesh ι} {t : ι → Station ι} {i : ι} {rs : List GPSData} {os : List ι}

/-- The records stored for a node that can be heard of are all that it has broadcast. -/
theorem withKey_complete (hu : Flood.UniqueWalks M.hears) (ht : M.Reachable Flood.InOrder t)
    (S : M.Settled t)
    (hreadings : rs.map GPSData.reading = (t i).relays.map fun x => x.packet.reading) {o : ι}
    (ho : o ≠ i) (hw : (Flood.walks M.hears o i).Nonempty) :
    (withKey GPSData.nodeID (M.nodeID o) rs).map GPSData.reading =
      (t o).readings.map GPSData.reading := by
  rw [(Mesh.reachable_consistent ht).withKey_map hreadings, relays_complete hu ht S ho hw]

/-- In the end a node has stored something of exactly those that it can hear of and that have
broadcast. -/
theorem mem_origins_iff (hu : Flood.UniqueWalks M.hears) (ht : M.Reachable Flood.InOrder t)
    (S : M.Settled t)
    (hreadings : rs.map GPSData.reading = (t i).relays.map fun x => x.packet.reading)
    (hos : os.map M.nodeID = firstKeys GPSData.nodeID rs) {o : ι} :
    o ∈ os ↔ o ≠ i ∧ (Flood.walks M.hears o i).Nonempty ∧ (t o).readings ≠ [] := by
  have C := Mesh.reachable_consistent ht
  rw [mem_origins hos]
  constructor
  · rintro ⟨r, hr, hid⟩
    obtain ⟨x, hx, e⟩ := exists_relay hreadings hr
    have hsent := List.mem_of_mem_filter hx
    obtain rfl : x.copy.origin = o := by
      rw [← M.nodeID_inj, ← C.nodeID hsent, ← hid, GPSData.nodeID_eq_of_reading e]
    obtain ⟨r', hr', -⟩ := ((C i).packet x hsent).2
    exact ⟨ht.origin_ne hx, ht.exists_walk hx, List.ne_nil_of_mem (List.mem_of_getElem? hr')⟩
  · rintro ⟨ho, hw, hne⟩
    have hlen := congrArg List.length (withKey_complete hu ht S hreadings ho hw)
    rw [List.length_map, List.length_map] at hlen
    obtain ⟨r, hr⟩ := List.exists_mem_of_length_pos (hlen ▸ List.length_pos_iff.2 hne)
    exact ⟨r, mem_withKey.1 hr⟩

end Settled

/-- **Once a mesh in which no two walks meet has settled, every history has converged**, provided
that every node was heard in order. -/
theorem histories_converge {M : Mesh ι} (hu : Flood.UniqueWalks M.hears) {t : ι → Station ι}
    (ht : M.Reachable Flood.InOrder t) (S : M.Settled t) (i : ι) : Converged M t i := by
  have C := Mesh.reachable_consistent ht
  obtain ⟨rs, hrs, hreadings⟩ := (C i).history
  obtain ⟨os, hos⟩ := C.exists_origins hreadings
  have hmem := fun o => mem_origins_iff hu ht S hreadings hos (o := o)
  refine ⟨os, List.Nodup.of_map M.nodeID (hos ▸ nodup_firstKeys rs), hmem, ?_⟩
  have hentries := congrArg (List.map (List.map GPSData.reading))
    ((storeAll_exact hrs).entries_origins hos)
  rw [List.map_map] at hentries
  refine hentries.trans ?_
  rw [List.map_append, List.map_replicate, List.map_map]
  congr 1
  refine List.map_congr_left ?_
  intro o ho
  obtain ⟨hoi, hw, -⟩ := (hmem o).1 (List.mem_of_mem_take ho)
  simp only [Function.comp_apply, map_rtake, withKey_complete hu ht S hreadings hoi hw]

/-- Three nodes in a row, when the broadcasts of the first two have come to the end. -/
theorem histories_converge_chain : ∃ t, Mesh.chain.play Flood.InOrder
      [⟨0, exampleInput true, none⟩, ⟨1, exampleInput true, some (0, 0)⟩,
        ⟨2, exampleInput false, some (1, 0)⟩, ⟨2, exampleInput false, some (1, 1)⟩] = some t ∧
    ((t 0).readings.length = 1 ∧ (t 1).readings.length = 1) ∧ Converged Mesh.chain t 2 := by
  have hplay : ((Mesh.chain.play Flood.InOrder
      [⟨0, exampleInput true, none⟩, ⟨1, exampleInput true, some (0, 0)⟩,
        ⟨2, exampleInput false, some (1, 0)⟩, ⟨2, exampleInput false, some (1, 1)⟩]).map
      fun t => (decide (Mesh.chain.Settled t), (t 0).readings.length, (t 1).readings.length)) =
      some (true, 1, 1) := by decide +kernel
  obtain ⟨t, ht, hstate⟩ := Option.map_eq_some_iff.1 hplay
  obtain ⟨hsettled, hlen⟩ := Prod.mk.inj hstate
  exact ⟨t, ht, Prod.mk.inj hlen, histories_converge Mesh.chain_uniqueWalks
    (Mesh.reachable_of_play ht) (of_decide_eq_true hsettled) 2⟩

end LoRaGPS
