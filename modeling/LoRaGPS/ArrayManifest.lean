/-
**The manifest that is an array of pages.**

The first sketches, `Node0_sender.ino` and `Node1_rcvr.ino`, keep the readings of every node on a
page of `NumofReadings` rows, in an array of pages.  The two functions that bring in what was
received, `addIncomingCurrInfoToMyManifest` and `ReconcileManifest`, look for the pages whose row
`0` carries the incoming ID and overwrite rows that are older than what came in; if there is no
such page, `Node0_sender.ino` adds one.  The array is kept as its rows in memory order, with the
memory behind it, so that the row behind a page is the first row of the next one.  What the
sketches print is left out.

Main definitions:

* `LoRaGPS.Node0.Information`, `LoRaGPS.Node0.Manifest` — the data;
* `LoRaGPS.Node0.scanPages`, `LoRaGPS.Node0.addPage` — the search and the growth, which the
  functions share;
* `LoRaGPS.Node0.addIncomingCurrInfoToMyManifest`, `LoRaGPS.Node0.ReconcileManifest`,
  `LoRaGPS.Node1Rcvr.ReconcileManifest` — the code.

Main results:

* `LoRaGPS.Node0.scanPages_none`, `LoRaGPS.Node0.scanPages_first`,
  `LoRaGPS.Node0.scanPages_unique` — what the search does if no page belongs to the node, to the
  first page that does, and if there is only one;
* `LoRaGPS.Node0.scanPages_local` — **what the search does if the updates stay on their pages**;
* `LoRaGPS.Node0.addIncoming_eq`, `LoRaGPS.Node0.addIncoming_new` — the two ways in which a reading
  is added.
-/

import LoRaGPS.RowCursor
import Mathlib.Data.List.Range

set_option relaxedAutoImplicit false
set_option autoImplicit false

namespace LoRaGPS

namespace Node0

open RowCursor

/-! ### The data -/

/-- `struct information`.  The `double` fields are kept as bit patterns. -/
structure Information where
  readingID : BitVec 16
  nodeID : BitVec 8
  currLat : BitVec 64
  currLon : BitVec 64
  currAlt : BitVec 64
  currHour : BitVec 8
  currMin : BitVec 8
  currSec : BitVec 8
deriving DecidableEq, Repr

/-- The zero-initialised record. -/
def Information.zero : Information := ⟨0, 0, 0, 0, 0, 0, 0, 0⟩

/-- The `readingID` as the `int` as which it is compared. -/
def Information.number (r : Information) : ℕ := r.readingID.toNat

/-- `NumofReadings`: the rows of a page. -/
def numofReadings : ℕ := 3

/-- `initialNumofNodes`, and the `NumofNodes` of `Node1_rcvr.ino`. -/
def initialNumofNodes : ℕ := 2

/-- The rows of `manifest` and of the memory behind it:
`manifest[page].thisNodesManifest[row]` is the row `page * numofReadings + row`. -/
abbrev Rows := ℕ → Information

/-- The globals `manifest` and `NumofNodes`. -/
structure Manifest where
  rows : Rows
  numofNodes : ℕ

/-- The row `0` of a page. -/
def Rows.head (rows : Rows) (page : ℕ) : Information := rows (page * numofReadings)

/-- The rows of a page. -/
def Rows.page (rows : Rows) (page : ℕ) : List Information :=
  (List.range numofReadings).map fun row => rows (page * numofReadings + row)

/-! ### The code -/

/-- The loop over the pages: every page whose row `0` carries `nodeID` is updated.  The flag is
`foundPageInMyManifest`. -/
def scanPages (nodeID : BitVec 8) (update : ℕ → Rows → Option Rows) (numofNodes : ℕ)
    (rows : Rows) : Option (Rows × Bool) :=
  (List.range numofNodes).foldlM (fun s counter =>
    if nodeID = (s.1.head counter).nodeID then (update counter s.1).map fun rows => (rows, true)
    else some s) (rows, false)

/-- The page that is added: the pages are copied to `BiggerManifest` and back, and what came in is
written to `manifest[NumofNodes]`, with the count already raised. -/
def addPage (m : Manifest) (incoming : ℕ → Information) : Manifest :=
  let numofNodes := m.numofNodes + 1
  let biggerManifest : Rows := m.rows
  let rows : Rows := fun i =>
    if i < (numofNodes - 1) * numofReadings then biggerManifest i else m.rows i
  ⟨overlay rows (numofNodes * numofReadings) ((List.range numofReadings).map incoming), numofNodes⟩

/-- The loop over the rows of the page `counter`, in which the reading is compared as often as
there are pages. -/
def addToPage (someNodesCurrInfo : Information) (numofNodes counter : ℕ) (rows : Rows) : Rows :=
  pass Information.number (counter * numofReadings)
    (List.replicate numofNodes someNodesCurrInfo) rows

/-- `addIncomingCurrInfoToMyManifest`. -/
def addIncomingCurrInfoToMyManifest (m : Manifest) (someNodesCurrInfo : Information) :
    Option Manifest := do
  let (rows, foundPageInMyManifest) ← scanPages someNodesCurrInfo.nodeID
    (fun counter rows => some (addToPage someNodesCurrInfo m.numofNodes counter rows))
    m.numofNodes m.rows
  let m := { m with rows := rows }
  some (if foundPageInMyManifest then m else addPage m fun _ => someNodesCurrInfo)

/-- The loop over the rows of the page `counter`, in which one row of the incoming page after the
other is compared, as many as there are pages. -/
def reconcilePage (incomingNodesManifest : List Information) (numofNodes counter : ℕ)
    (rows : Rows) : Option Rows := do
  let s ← (List.range numofNodes).foldlM (fun s incomingRowCounter => do
    let incoming ← incomingNodesManifest[incomingRowCounter]?
    some (compareRow Information.number (counter * numofReadings) s incoming)) (rows, 0)
  some s.1

/-- `ReconcileManifest`. -/
def ReconcileManifest (m : Manifest) (incomingNodesManifest : List Information) :
    Option Manifest := do
  let first ← incomingNodesManifest[0]?
  let (rows, foundPageInMyManifest) ← scanPages first.nodeID
    (reconcilePage incomingNodesManifest m.numofNodes) m.numofNodes m.rows
  let m := { m with rows := rows }
  some (if foundPageInMyManifest then m
    else addPage m fun i => incomingNodesManifest.getD i Information.zero)

end Node0

namespace Node1Rcvr

/-- `ReconcileManifest`, where `NumofNodes` is a constant and no page is ever added. -/
def ReconcileManifest (rows : Node0.Rows) (incomingNodesManifest : List Node0.Information) :
    Option Node0.Rows := do
  let first ← incomingNodesManifest[0]?
  let (rows, _) ← Node0.scanPages first.nodeID
    (Node0.reconcilePage incomingNodesManifest Node0.initialNumofNodes) Node0.initialNumofNodes rows
  some rows

end Node1Rcvr

namespace Node0

open RowCursor

/-! ### The search for a page -/

/-- An update of a page that reads and writes the rows of the page only. -/
structure PageLocal (f : ℕ → Rows → Rows) : Prop where
  outside : ∀ {q i : ℕ} (rows : Rows),
    i < q * numofReadings ∨ (q + 1) * numofReadings ≤ i → f q rows i = rows i
  congr : ∀ {q : ℕ} {rows rows' : Rows},
    (∀ j < numofReadings, rows (q * numofReadings + j) = rows' (q * numofReadings + j)) →
      ∀ j < numofReadings, f q rows (q * numofReadings + j) = f q rows' (q * numofReadings + j)

section Scan

variable {nodeID : BitVec 8} {update : ℕ → Rows → Option Rows} {n p : ℕ} {rows : Rows}

theorem scanPages_succ (nodeID : BitVec 8) (update : ℕ → Rows → Option Rows) (n : ℕ)
    (rows : Rows) : scanPages nodeID update (n + 1) rows =
      (scanPages nodeID update n rows).bind fun s =>
        if nodeID = (s.1.head n).nodeID then (update n s.1).map fun rows => (rows, true)
        else some s := by
  simp [scanPages, List.range_succ, List.foldlM_append]

/-- If no page belongs to the node, nothing is updated. -/
theorem scanPages_none (h : ∀ q < n, (rows.head q).nodeID ≠ nodeID) :
    scanPages nodeID update n rows = some (rows, false) := by
  induction n with
  | zero => rfl
  | succ n ih =>
      rw [scanPages_succ, ih fun q hq => h q (by omega), Option.bind_some,
        if_neg (h n (Nat.lt_succ_self n)).symm]

/-- The first page that belongs to the node is updated from the state before the call, and what
happens to later pages touches later rows only. -/
theorem scanPages_first {f : ℕ → Rows → Rows} (hf : ∀ q rows, update q rows = some (f q rows))
    (hlater : ∀ q rows i, i < q * numofReadings → f q rows i = rows i) (hp : p < n)
    (hown : (rows.head p).nodeID = nodeID) (hfirst : ∀ q < p, (rows.head q).nodeID ≠ nodeID) :
    ∃ rows', scanPages nodeID update n rows = some (rows', true) ∧
      ∀ i < (p + 1) * numofReadings, rows' i = f p rows i := by
  induction n with
  | zero => omega
  | succ n ih =>
      rcases Nat.lt_or_ge p n with hlt | hge
      · obtain ⟨rows', hscan, hrows'⟩ := ih hlt
        rw [scanPages_succ, hscan, Option.bind_some]
        by_cases hn : nodeID = (rows'.head n).nodeID
        · refine ⟨f n rows', by rw [if_pos hn, hf]; rfl, ?_⟩
          intro i hi
          have hin : i < n * numofReadings :=
            Nat.lt_of_lt_of_le hi (Nat.mul_le_mul_right _ hlt)
          rw [hlater n rows' i hin, hrows' i hi]
        · exact ⟨rows', by rw [if_neg hn], hrows'⟩
      · obtain rfl : p = n := by omega
        refine ⟨f p rows, ?_, fun _ _ => rfl⟩
        rw [scanPages_succ, scanPages_none hfirst, Option.bind_some, if_pos hown.symm, hf]
        rfl

/-- If only one page belongs to the node, before and after it was updated, nothing else is
updated. -/
theorem scanPages_unique {rows' : Rows} (hupdate : update p rows = some rows') (hp : p < n)
    (hown : (rows.head p).nodeID = nodeID) (hfirst : ∀ q < p, (rows.head q).nodeID ≠ nodeID)
    (hlast : ∀ q, p < q → q < n → (rows'.head q).nodeID ≠ nodeID) :
    scanPages nodeID update n rows = some (rows', true) := by
  induction n with
  | zero => omega
  | succ n ih =>
      rcases Nat.lt_or_ge p n with hlt | hge
      · rw [scanPages_succ, ih hlt fun q hpq hq => hlast q hpq (by omega), Option.bind_some,
          if_neg (hlast n hlt (Nat.lt_succ_self n)).symm]
      · obtain rfl : p = n := by omega
        rw [scanPages_succ, scanPages_none hfirst, Option.bind_some, if_pos hown.symm, hupdate]
        rfl

/-- If the update of the first page that belongs to the node fails, so does the search. -/
theorem scanPages_fails (hupdate : update p rows = none) (hp : p < n)
    (hown : (rows.head p).nodeID = nodeID) (hfirst : ∀ q < p, (rows.head q).nodeID ≠ nodeID) :
    scanPages nodeID update n rows = none := by
  induction n with
  | zero => omega
  | succ n ih =>
      rcases Nat.lt_or_ge p n with hlt | hge
      · rw [scanPages_succ, ih hlt, Option.bind_none]
      · obtain rfl : p = n := by omega
        rw [scanPages_succ, scanPages_none hfirst, Option.bind_some, if_pos hown.symm, hupdate]
        rfl

/-- A row of another page lies before or behind the rows of the page `n`. -/
theorem row_outside {q j : ℕ} (hj : j < numofReadings) (hne : q ≠ n) :
    q * numofReadings + j < n * numofReadings ∨
      (n + 1) * numofReadings ≤ q * numofReadings + j := by
  unfold numofReadings at *
  omega

/-- **What the search does if the updates stay on their pages**: every page of the node is updated
from the state before the call, and the others are left alone. -/
theorem scanPages_local {f : ℕ → Rows → Rows} (hf : ∀ q rows, update q rows = some (f q rows))
    (hlocal : PageLocal f) :
    ∃ rows' found, scanPages nodeID update n rows = some (rows', found) ∧
      (found = true ↔ ∃ q < n, (rows.head q).nodeID = nodeID) ∧
      ∀ q, ∀ j < numofReadings, rows' (q * numofReadings + j) =
        if q < n ∧ (rows.head q).nodeID = nodeID then f q rows (q * numofReadings + j)
        else rows (q * numofReadings + j) := by
  induction n with
  | zero =>
      refine ⟨rows, false, rfl, by simp, ?_⟩
      intro q j hj
      rw [if_neg fun h => absurd h.1 (Nat.not_lt_zero q)]
  | succ n ih =>
      obtain ⟨rows', found, hscan, hfound, hrows'⟩ := ih
      -- the page `n` is as it was before the search
      have hpage : ∀ j < numofReadings,
          rows' (n * numofReadings + j) = rows (n * numofReadings + j) := by
        intro j hj
        rw [hrows' n j hj, if_neg fun h => absurd h.1 (Nat.lt_irrefl n)]
      have hhead : rows'.head n = rows.head n := hpage 0 (by decide)
      rw [scanPages_succ, hscan, Option.bind_some, hhead]
      by_cases hown : nodeID = (rows.head n).nodeID
      · refine ⟨f n rows', true, by rw [if_pos hown, hf]; rfl, ?_, ?_⟩
        · exact iff_of_true rfl ⟨n, Nat.lt_succ_self n, hown.symm⟩
        · intro q j hj
          rcases eq_or_ne q n with rfl | hne
          · rw [hlocal.congr hpage j hj, if_pos ⟨Nat.lt_succ_self q, hown.symm⟩]
          · have hlt : q < n + 1 ↔ q < n := by omega
            rw [hlocal.outside rows' (row_outside hj hne), hrows' q j hj]
            simp only [hlt]
      · refine ⟨rows', found, by rw [if_neg hown], hfound.trans ?_, ?_⟩
        · constructor
          · rintro ⟨q, hq, e⟩
            exact ⟨q, by omega, e⟩
          · rintro ⟨q, hq, e⟩
            rcases Nat.lt_succ_iff_lt_or_eq.1 hq with hlt | rfl
            · exact ⟨q, hlt, e⟩
            · exact absurd e.symm hown
        · intro q j hj
          rw [hrows' q j hj]
          rcases eq_or_ne q n with rfl | hne
          · rw [if_neg fun h => hown h.2.symm, if_neg fun h => hown h.2.symm]
          · have hlt : q < n + 1 ↔ q < n := by omega
            simp only [hlt]

end Scan

/-! ### Pages and rows -/

theorem mem_page {rows : Rows} {p : ℕ} {r : Information} :
    r ∈ rows.page p ↔ ∃ j < numofReadings, rows (p * numofReadings + j) = r := by
  simp [Rows.page]

theorem page_congr {rows rows' : Rows} {p : ℕ}
    (h : ∀ j < numofReadings, rows (p * numofReadings + j) = rows' (p * numofReadings + j)) :
    rows.page p = rows'.page p := by
  refine List.map_congr_left ?_
  intro j hj
  exact h j (List.mem_range.1 hj)

/-- Every row is a row of some page. -/
theorem exists_page_row (i : ℕ) : ∃ q j, j < numofReadings ∧ i = q * numofReadings + j :=
  ⟨i / numofReadings, i % numofReadings, Nat.mod_lt i (by decide), (Nat.div_add_mod' i _).symm⟩

theorem addToPage_of_lt (r : Information) (n q : ℕ) (rows : Rows) {i : ℕ}
    (h : i < q * numofReadings) : addToPage r n q rows i = rows i :=
  pass_of_lt _ _ _ h

/-- The rows of a page after a reading was compared with them. -/
theorem addToPage_row (r : Information) (n q : ℕ) (rows : Rows) (j : ℕ) :
    addToPage r n q rows (q * numofReadings + j) =
      if j < n ∧ ∀ i ≤ j, (rows (q * numofReadings + i)).number < r.number then r
      else rows (q * numofReadings + j) :=
  pass_replicate _ _ _ _ _ _

/-- The page stays with its node. -/
theorem head_addToPage {r : Information} {q : ℕ} {rows : Rows} (n : ℕ)
    (h : (rows.head q).nodeID = r.nodeID) : ((addToPage r n q rows).head q).nodeID = r.nodeID := by
  have hrow := addToPage_row r n q rows 0
  rw [Nat.add_zero] at hrow
  rw [Rows.head, hrow]
  split
  · rfl
  · exact h

/-- With no more pages than rows, the loop over the rows stays on its page. -/
theorem pageLocal_addToPage (r : Information) {n : ℕ} (hn : n ≤ numofReadings) :
    PageLocal (addToPage r n) where
  outside := by
    rintro q i rows (h | h)
    · exact addToPage_of_lt r n q rows h
    · refine pass_of_ge _ rows ?_
      rw [Nat.succ_mul] at h
      rw [List.length_replicate]
      omega
  congr := by
    intro q rows rows' h j hj
    have hall : (∀ i ≤ j, (rows (q * numofReadings + i)).number < r.number) ↔
        ∀ i ≤ j, (rows' (q * numofReadings + i)).number < r.number := by
      refine forall₂_congr fun i hi => ?_
      rw [h i (by omega)]
    rw [addToPage_row, addToPage_row, h j hj]
    simp only [hall]

/-! ### The two ways in which a reading is added -/

/-- Adding a reading of a node that has a page. -/
theorem addIncoming_eq {m : Manifest} {r : Information} {rows' : Rows}
    (h : scanPages r.nodeID (fun q rows => some (addToPage r m.numofNodes q rows)) m.numofNodes
      m.rows = some (rows', true)) :
    addIncomingCurrInfoToMyManifest m r = some { m with rows := rows' } := by
  simp [addIncomingCurrInfoToMyManifest, h]

/-- The pages are copied to and fro, and the incoming rows are written past them. -/
theorem addPage_eq (m : Manifest) (incoming : ℕ → Information) :
    addPage m incoming = ⟨overlay m.rows ((m.numofNodes + 1) * numofReadings)
      ((List.range numofReadings).map incoming), m.numofNodes + 1⟩ := by
  have hcopy : (fun i => if i < (m.numofNodes + 1 - 1) * numofReadings then m.rows i
      else m.rows i) = m.rows := by
    funext i
    exact ite_self _
  rw [addPage]
  simp only [hcopy]

/-- Adding a reading of a node that has no page. -/
theorem addIncoming_new {m : Manifest} {r : Information}
    (h : ∀ q < m.numofNodes, (m.rows.head q).nodeID ≠ r.nodeID) :
    addIncomingCurrInfoToMyManifest m r = some (addPage m fun _ => r) := by
  simp [addIncomingCurrInfoToMyManifest, scanPages_none h]

end Node0

end LoRaGPS
