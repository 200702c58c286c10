/-
**The history table of a mesh node.**

A node of the mesh (`1LoRaNode.ino`, and word for word `1LoRaNode_heltecESP32.ino`) remembers the
last fifty records of up to ten nodes.  `storePosition` scans the ten slots for the first one that
either starts with a record of the same node or is empty; since an empty slot also carries a zero
ID, the two tests overlap.  This module shows that the scan nevertheless implements a table of
bounded logs kept by node ID, `KeyedLog.recordAll` with ten logs of depth fifty.

Main definitions:

* `LoRaGPS.NodeHistory`, `LoRaGPS.storePosition`, `LoRaGPS.storeAll` — the code;
* `LoRaGPS.NodeHistory.Holds`, `LoRaGPS.Represents` — the log a slot holds, the table the slots
  represent.

Main results:

* `LoRaGPS.storePosition_represents` — **one call records one item** in the table;
* `LoRaGPS.storeAll_represents` — the slots after any sequence of calls;
* `LoRaGPS.storePosition_of_full` — a record of an eleventh node changes nothing;
* `LoRaGPS.storeAll_exact`, `LoRaGPS.nodeHistories_exact` — what every slot contains after any
  sequence of calls.
-/

import LoRaGPS.Checked
import LoRaGPS.GpsData
import LoRaGPS.KeyedLog

set_option relaxedAutoImplicit false
set_option autoImplicit false

namespace LoRaGPS

open KeyedLog

/-! ### The code -/

/-- `struct NodeHistory`: an array of fifty cells and a `uint8_t` counter. -/
structure NodeHistory where
  positions : List GPSData
  count : ℕ
deriving DecidableEq, Repr

/-- A zero-initialised slot. -/
def NodeHistory.zero : NodeHistory := ⟨List.replicate 50 GPSData.zero, 0⟩

/-- The array `nodeHistories` at start-up. -/
def nodeHistories : List NodeHistory := List.replicate 10 NodeHistory.zero

/-- The body of the slot that was found: append while there is room, else shift down. -/
def NodeHistory.append (h : NodeHistory) (newData : GPSData) : Option NodeHistory :=
  if h.count < 50 then do
    let positions ← Checked.store h.positions h.count newData
    some ⟨positions, (h.count + 1) % 2 ^ 8⟩
  else do
    let shifted ← Checked.shiftDown h.positions 49
    let positions ← Checked.store shifted 49 newData
    some ⟨positions, h.count⟩

/-- `storePosition`, with the loop over the slots as a recursion along the array. -/
def storePosition : List NodeHistory → GPSData → Option (List NodeHistory)
  | [], _ => some []
  | h :: hs, newData => do
      let first ← h.positions[0]?
      if first.nodeID = newData.nodeID ∨ h.count = 0 then
        let h' ← h.append newData
        some (h' :: hs)
      else
        let hs' ← storePosition hs newData
        some (h :: hs')

/-- A sequence of calls of `storePosition`. -/
def storeAll (hs : List NodeHistory) (rs : List GPSData) : Option (List NodeHistory) :=
  rs.foldlM storePosition hs

/-- The entries of a slot that are in use. -/
def NodeHistory.entries (h : NodeHistory) : List GPSData := h.positions.take h.count

theorem storeAll_append (hs : List NodeHistory) (rs : List GPSData) (r : GPSData) :
    storeAll hs (rs ++ [r]) = (storeAll hs rs).bind fun hs' => storePosition hs' r := by
  unfold storeAll
  rw [List.foldlM_append]
  cases rs.foldlM storePosition hs <;> simp

theorem storeAll_append_all (hs : List NodeHistory) (rs rs' : List GPSData) :
    storeAll hs (rs ++ rs') = (storeAll hs rs).bind fun hs' => storeAll hs' rs' := by
  rw [storeAll, List.foldlM_append]
  rfl

/-! ### What a slot holds -/

/-- The slot is empty. -/
structure NodeHistory.Free (h : NodeHistory) : Prop where
  cells : h.positions.length = 50
  count : h.count = 0

/-- The slot holds the log `log` of the node `d`. -/
structure NodeHistory.Holds (h : NodeHistory) (d : BitVec 32) (log : List GPSData) : Prop where
  cells : h.positions.length = 50
  count : h.count = log.length
  entries : h.positions.take log.length = log
  depth : log.length ≤ 50
  nonempty : log ≠ []
  pure : ∀ r ∈ log, r.nodeID = d

namespace NodeHistory

theorem free_zero : zero.Free := ⟨by simp [zero], rfl⟩

theorem Holds.entries_eq {h : NodeHistory} {d : BitVec 32} {log : List GPSData}
    (H : h.Holds d log) : h.entries = log := by
  rw [NodeHistory.entries, H.count, H.entries]

theorem Holds.count_pos {h : NodeHistory} {d : BitVec 32} {log : List GPSData}
    (H : h.Holds d log) : 0 < h.count := by
  rw [H.count]
  exact List.length_pos_iff.2 H.nonempty

/-- The cell the scan looks at belongs to the node of the slot. -/
theorem Holds.first {h : NodeHistory} {d : BitVec 32} {log : List GPSData} (H : h.Holds d log) :
    ∃ g, h.positions[0]? = some g ∧ g.nodeID = d := by
  cases hl : log with
  | nil => exact absurd hl H.nonempty
  | cons g log' =>
      have hhead : (h.positions.take log.length)[0]? = some g := by rw [H.entries, hl]; rfl
      rw [List.getElem?_take_of_lt (by rw [hl]; simp)] at hhead
      exact ⟨g, hhead, H.pure g (by rw [hl]; exact List.mem_cons_self ..)⟩

theorem Free.first {h : NodeHistory} (H : h.Free) : ∃ g, h.positions[0]? = some g :=
  ⟨_, List.getElem?_eq_getElem (by rw [H.cells]; decide)⟩

theorem take_succ_set {xs : List GPSData} {n : ℕ} (r : GPSData) (h : n < xs.length) :
    (xs.set n r).take (n + 1) = xs.take n ++ [r] := by
  rw [List.take_succ_eq_append_getElem (by simpa using h), List.getElem_set_self,
    List.take_set_of_le (Nat.le_refl n)]

/-- With room left, the record goes to the next cell. -/
theorem append_of_lt {h : NodeHistory} (hcells : h.positions.length = 50) (hroom : h.count < 50)
    (r : GPSData) : h.append r = some ⟨h.positions.set h.count r, h.count + 1⟩ := by
  have hmod : (h.count + 1) % 2 ^ 8 = h.count + 1 := Nat.mod_eq_of_lt (by omega)
  rw [append, if_pos hroom, Checked.store_eq_some r (by omega), hmod]
  rfl

/-- Without room, the oldest record is dropped. -/
theorem append_of_full {h : NodeHistory} (hcells : h.positions.length = 50) (hfull : 50 ≤ h.count)
    (r : GPSData) : h.append r = some ⟨h.positions.tail ++ [r], h.count⟩ := by
  rw [append, if_neg (Nat.not_lt.2 hfull)]
  simp only [Option.bind_eq_bind, ← Option.bind_assoc, Checked.shiftDown_store hcells,
    Option.bind_some]

/-- An empty slot takes the record of any node. -/
theorem append_free {h : NodeHistory} (H : h.Free) (r : GPSData) :
    ∃ h', h.append r = some h' ∧ h'.Holds r.nodeID (push 50 [] r) := by
  have hcells := H.cells
  have hcount := H.count
  refine ⟨_, append_of_lt hcells (by omega) r, ?_⟩
  rw [push_of_lt r (by simp), hcount]
  exact { cells := by simpa using hcells
          count := rfl
          entries := by simpa using take_succ_set (n := 0) r (by omega)
          depth := by simp
          nonempty := by simp
          pure := by simp }

/-- A slot takes a further record of its node: the two branches of the code meet at depth fifty. -/
theorem append_holds {h : NodeHistory} {d : BitVec 32} {log : List GPSData} (H : h.Holds d log)
    {r : GPSData} (hr : r.nodeID = d) :
    ∃ h', h.append r = some h' ∧ h'.Holds d (push 50 log r) := by
  have hcells := H.cells
  have hpure : ∀ g ∈ push 50 log r, g.nodeID = d := fun g hg => by
    rcases mem_push hg with hg | rfl
    · exact H.pure g hg
    · exact hr
  by_cases hroom : log.length < 50
  · have hcount : h.count < 50 := by rw [H.count]; exact hroom
    have hpush := push_of_lt (D := 50) r hroom
    refine ⟨_, append_of_lt hcells hcount r, ?_⟩
    exact { cells := by simpa using hcells
            count := by simp [hpush, H.count]
            entries := by
              simp only [hpush, List.length_append, List.length_singleton, H.count]
              rw [take_succ_set r (by omega), H.entries]
            depth := length_push_le 50 log r
            nonempty := push_ne_nil (by omega) log r
            pure := hpure }
  · have hfull : log.length = 50 := by have := H.depth; omega
    have hcount : h.count = 50 := by rw [H.count, hfull]
    have hall : h.positions = log := by
      have := H.entries
      rwa [hfull, List.take_of_length_le (by omega)] at this
    have hpush : log.tail ++ [r] = push 50 log r := (push_of_full r (by omega) hfull).symm
    have hlen : (push 50 log r).length = 50 := by rw [← hpush]; simp [hfull]
    refine ⟨_, append_of_full hcells hcount.ge r, ?_⟩
    rw [hall, hpush]
    exact { cells := hlen
            count := by rw [hlen, hcount]
            entries := List.take_length
            depth := length_push_le 50 log r
            nonempty := push_ne_nil (by omega) log r
            pure := hpure }

end NodeHistory

/-! ### What the slots represent -/

/-- The used slots come first and hold the logs of the table `t` in order; the others are
empty. -/
def Represents : List NodeHistory → List (BitVec 32 × List GPSData) → Prop
  | hs, [] => ∀ h ∈ hs, h.Free
  | [], _ :: _ => False
  | h :: hs, (d, log) :: t => h.Holds d log ∧ Represents hs t

theorem represents_nil {hs : List NodeHistory} : Represents hs [] ↔ ∀ h ∈ hs, h.Free := by
  cases hs <;> simp [Represents]

theorem represents_nodeHistories : Represents nodeHistories [] :=
  represents_nil.2 fun h hh => by
    rw [List.eq_of_mem_replicate hh]
    exact NodeHistory.free_zero

/-- **One call of `storePosition` records one item** in the table of logs. -/
theorem storePosition_represents {hs : List NodeHistory} {t : List (BitVec 32 × List GPSData)}
    (H : Represents hs t) (r : GPSData) :
    ∃ hs', storePosition hs r = some hs' ∧ hs'.length = hs.length ∧
      Represents hs' (record GPSData.nodeID 50 hs.length t r) := by
  -- recursion along the slots, which the table follows
  induction hs generalizing t with
  | nil =>
      cases t with
      | nil => exact ⟨[], rfl, rfl, H⟩
      | cons p t => exact H.elim
  | cons h hs ih =>
      cases t with
      | nil =>
          -- the first empty slot, reached whatever ID its cells carry
          have hfree : h.Free := represents_nil.1 H h (List.mem_cons_self ..)
          obtain ⟨g, hg⟩ := hfree.first
          obtain ⟨h', happ, hh'⟩ := NodeHistory.append_free hfree r
          refine ⟨h' :: hs, ?_, rfl, ?_⟩
          · simp [storePosition, hg, hfree.count, happ]
          · have hrest : ∀ x ∈ hs, x.Free := fun x hx =>
              represents_nil.1 H x (List.mem_cons_of_mem _ hx)
            exact ⟨hh', represents_nil.2 hrest⟩
      | cons p t =>
          obtain ⟨d, log⟩ := p
          obtain ⟨hh, Ht⟩ := H
          obtain ⟨g, hg, hgd⟩ := hh.first
          have hcount : h.count ≠ 0 := Nat.ne_of_gt hh.count_pos
          by_cases hd : d = r.nodeID
          · obtain ⟨h', happ, hh'⟩ := NodeHistory.append_holds hh hd.symm
            refine ⟨h' :: hs, ?_, rfl, ?_⟩
            · simp [storePosition, hg, hgd, hd, happ]
            · simp only [List.length_cons, record, if_pos hd]
              exact ⟨hh', Ht⟩
          · obtain ⟨hs', hrec, hlen, Ht'⟩ := ih Ht
            refine ⟨h :: hs', ?_, by simpa using hlen, ?_⟩
            · simp [storePosition, hg, hgd, hd, hcount, hrec]
            · simp only [List.length_cons, record, if_neg hd]
              exact ⟨hh, Ht'⟩

/-- The slots after any sequence of calls, from the zero-initialised table. -/
theorem storeAll_represents (rs : List GPSData) :
    ∃ hs, storeAll nodeHistories rs = some hs ∧ hs.length = 10 ∧
      Represents hs (recordAll GPSData.nodeID 50 10 rs) := by
  induction rs using List.reverseRecOn with
  | nil => exact ⟨nodeHistories, rfl, rfl, represents_nodeHistories⟩
  | append_singleton rs r ih =>
      obtain ⟨hs, hrun, hlen, H⟩ := ih
      obtain ⟨hs', hstep, hlen', H'⟩ := storePosition_represents H r
      refine ⟨hs', ?_, hlen'.trans hlen, ?_⟩
      · rw [storeAll_append, hrun, Option.bind_some, hstep]
      · rw [recordAll_append]
        exact hlen ▸ H'

/-- With every slot in use, a record of a further node changes nothing. -/
theorem storePosition_of_full {hs : List NodeHistory} {t : List (BitVec 32 × List GPSData)}
    (H : Represents hs t) (hfull : t.length = hs.length) {r : GPSData}
    (hr : r.nodeID ∉ t.map Prod.fst) : storePosition hs r = some hs := by
  induction hs generalizing t with
  | nil => rfl
  | cons h hs ih =>
      cases t with
      | nil => simp at hfull
      | cons p t =>
          obtain ⟨d, log⟩ := p
          obtain ⟨hh, Ht⟩ := H
          obtain ⟨g, hg, hgd⟩ := hh.first
          have hcount : h.count ≠ 0 := Nat.ne_of_gt hh.count_pos
          have hd : d ≠ r.nodeID := fun e => hr (by simp [e])
          have hrest : r.nodeID ∉ t.map Prod.fst := fun hm => hr (List.mem_cons_of_mem _ hm)
          have hrec := ih Ht (by simpa using hfull) hrest
          simp [storePosition, hg, hgd, hd, hcount, hrec]

/-- A slot in use holds the log at its place in the table. -/
theorem Represents.holds {hs : List NodeHistory} {t : List (BitVec 32 × List GPSData)}
    (H : Represents hs t) {i : ℕ} {d : BitVec 32} {log : List GPSData}
    (hi : t[i]? = some (d, log)) : ∃ h, hs[i]? = some h ∧ h.Holds d log := by
  induction t generalizing hs i with
  | nil => simp at hi
  | cons p t ih =>
      cases hs with
      | nil => exact H.elim
      | cons h hs =>
          obtain ⟨hh, Ht⟩ := H
          cases i with
          | zero =>
              obtain rfl : p = (d, log) := by simpa using hi
              exact ⟨h, rfl, hh⟩
          | succ i => simpa using ih Ht (i := i) (by simpa using hi)

/-- A slot past the table is empty. -/
theorem Represents.free {hs : List NodeHistory} {t : List (BitVec 32 × List GPSData)}
    (H : Represents hs t) {i : ℕ} {h : NodeHistory} (hi : hs[i]? = some h) (ht : t.length ≤ i) :
    h.Free := by
  induction t generalizing hs i with
  | nil => exact represents_nil.1 H h (List.mem_of_getElem? hi)
  | cons p t ih =>
      cases hs with
      | nil => exact H.elim
      | cons h' hs =>
          cases i with
          | zero => simp at ht
          | succ i => exact ih H.2 (i := i) (by simpa using hi) (by simpa using ht)

theorem Represents.cells {hs : List NodeHistory} {t : List (BitVec 32 × List GPSData)}
    (H : Represents hs t) {i : ℕ} {h : NodeHistory} (hi : hs[i]? = some h) :
    h.positions.length = 50 := by
  rcases Nat.lt_or_ge i t.length with hit | hit
  · obtain ⟨h', hi', hh⟩ := H.holds (List.getElem?_eq_getElem hit)
    obtain rfl := Option.some_inj.1 (hi.symm.trans hi')
    exact hh.cells
  · exact (H.free hi hit).cells

/-! ### What every slot contains -/

/-- The IDs that get a slot: the first ten distinct ones, in order of first appearance. -/
def slotIDs (rs : List GPSData) : List (BitVec 32) := (firstKeys GPSData.nodeID rs).take 10

/-- What the slots `hs` contain once the records `rs` were stored. -/
structure ExactTable (rs : List GPSData) (hs : List NodeHistory) : Prop where
  slots : hs.length = 10
  cells : ∀ (i : ℕ) (h : NodeHistory), hs[i]? = some h → h.positions.length = 50
  used : ∀ (i : ℕ) (d : BitVec 32), (slotIDs rs)[i]? = some d → ∃ h : NodeHistory,
    hs[i]? = some h ∧ h.count = min (withKey GPSData.nodeID d rs).length 50 ∧
    h.entries = (withKey GPSData.nodeID d rs).rtake 50
  unused : ∀ (i : ℕ) (h : NodeHistory), hs[i]? = some h → (slotIDs rs).length ≤ i → h.count = 0
  further : ∀ r : GPSData, (slotIDs rs).length = 10 → r.nodeID ∉ slotIDs rs →
    storePosition hs r = some hs
  unmixed : ∀ (i j : ℕ) (h h' : NodeHistory) (g g' : GPSData), hs[i]? = some h →
    hs[j]? = some h' → g ∈ h.entries → g' ∈ h'.entries → (g.nodeID = g'.nodeID ↔ i = j)

/-- An entry in use lies in the slot of its node. -/
theorem Represents.slotIDs_of_mem {rs : List GPSData} {hs : List NodeHistory}
    (H : Represents hs (recordAll GPSData.nodeID 50 10 rs)) {i : ℕ} {h : NodeHistory} {g : GPSData}
    (hi : hs[i]? = some h) (hg : g ∈ h.entries) : (slotIDs rs)[i]? = some g.nodeID := by
  rcases Nat.lt_or_ge i (slotIDs rs).length with hlt | hge
  · have hd := List.getElem?_eq_getElem hlt
    obtain ⟨h', hi', hh⟩ := H.holds (getElem?_recordAll hd)
    obtain rfl := Option.some_inj.1 (hi.symm.trans hi')
    rw [hh.entries_eq] at hg
    rw [hd, hh.pure g hg]
  · have hfree := H.free hi (by rw [length_recordAll]; exact hge)
    simp [NodeHistory.entries, hfree.count] at hg

/-- The table that `storePosition` builds is exact. -/
theorem storeAll_exact {rs : List GPSData} {hs : List NodeHistory}
    (hrs : storeAll nodeHistories rs = some hs) : ExactTable rs hs := by
  obtain ⟨hs', hrun, hlen, H⟩ := storeAll_represents rs
  obtain rfl := Option.some_inj.1 (hrs.symm.trans hrun)
  have hnd : (slotIDs rs).Nodup := (nodup_firstKeys rs).sublist (List.take_sublist _ _)
  refine ⟨hlen, fun i h hi => H.cells hi, ?_, ?_, ?_, ?_⟩
  · intro i d hd
    obtain ⟨h, hi, hh⟩ := H.holds (getElem?_recordAll hd)
    refine ⟨h, hi, ?_, hh.entries_eq⟩
    rw [hh.count, length_rtake]
  · intro i h hi hge
    exact (H.free hi (by rw [length_recordAll]; exact hge)).count
  · intro r hfull hr
    refine storePosition_of_full H ?_ (by rw [recordAll_keys]; exact hr)
    rw [length_recordAll, hlen]
    exact hfull
  · intro i j h h' g g' hi hj hg hg'
    have hid := H.slotIDs_of_mem hi hg
    have hjd := H.slotIDs_of_mem hj hg'
    constructor
    · intro e
      rw [← e] at hjd
      have hilt : i < (slotIDs rs).length := (List.getElem?_eq_some_iff.1 hid).1
      exact (List.getElem?_inj hilt hnd).1 (hid.trans hjd.symm)
    · rintro rfl
      exact Option.some_inj.1 (hid.symm.trans hjd)

/-- A slot is empty, or holds the last records of one node. -/
theorem ExactTable.entries {rs : List GPSData} {hs : List NodeHistory} (E : ExactTable rs hs)
    {h : NodeHistory} (hh : h ∈ hs) :
    h.entries = [] ∨ ∃ d ∈ slotIDs rs, h.entries = (withKey GPSData.nodeID d rs).rtake 50 := by
  obtain ⟨i, hi⟩ := List.getElem?_of_mem hh
  rcases Nat.lt_or_ge i (slotIDs rs).length with hlt | hge
  · obtain ⟨h', hi', -, hentries⟩ := E.used i _ (List.getElem?_eq_getElem hlt)
    obtain rfl := Option.some_inj.1 (hi.symm.trans hi')
    exact Or.inr ⟨_, List.getElem_mem hlt, hentries⟩
  · left
    rw [NodeHistory.entries, E.unused i h hi hge, List.take_zero]

/-- Every node that got a slot has its last records in one. -/
theorem ExactTable.slot {rs : List GPSData} {hs : List NodeHistory} (E : ExactTable rs hs)
    {d : BitVec 32} (hd : d ∈ slotIDs rs) :
    ∃ h ∈ hs, h.entries = (withKey GPSData.nodeID d rs).rtake 50 := by
  obtain ⟨i, hi⟩ := List.getElem?_of_mem hd
  obtain ⟨h, hh, -, hentries⟩ := E.used i d hi
  exact ⟨h, List.mem_of_getElem? hh, hentries⟩

/-- **The history table is exact**: whatever records are stored in whatever order, no index leaves
its array, slot `i` holds the end of the subsequence of the `i`-th node heard of, and a record of
an eleventh node changes nothing. -/
theorem nodeHistories_exact (rs : List GPSData) :
    ∃ hs, storeAll nodeHistories rs = some hs ∧ ExactTable rs hs := by
  obtain ⟨hs, hrun, -⟩ := storeAll_represents rs
  exact ⟨hs, hrun, storeAll_exact hrun⟩

end LoRaGPS
