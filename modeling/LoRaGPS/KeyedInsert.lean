/-
**Adding a reading as a keyed insert.**

`addIncomingCurrInfoToMyManifest` is meant to keep one page for every node: the first reading of a
node opens its page, and a later one replaces the oldest row.  It does neither.  The page of a new
node is written to `manifest[NumofNodes]` after the count was raised, one place past the last page
the next search looks at.  On a known page the reading overwrites the leading rows that are older,
which is one row, and the oldest, only by chance.

Main definitions:

* `LoRaGPS.Node0.Belongs`, `LoRaGPS.Node0.Oldest` — the pages of a node, the oldest row of a page;
* `LoRaGPS.Node0.KeyedInsert` — what adding a reading is meant to do;
* `LoRaGPS.Node0.InsertsInPlace` — the manifests on which it happens to do so.

Main results:

* `LoRaGPS.Node0.newNode_iff`, `LoRaGPS.Node0.knownNode_iff` — the two paths through the code;
* `LoRaGPS.Node0.keyedInsert_iff` — **adding is a keyed insert exactly if the memory behind the
  manifest already holds the page of a new node, and on a known page only the first row is older**.
-/

import LoRaGPS.ArrayManifest

set_option relaxedAutoImplicit false
set_option autoImplicit false

namespace LoRaGPS

namespace Node0

open RowCursor

/-! ### What adding a reading is meant to do -/

/-- The page is one of the pages of the node. -/
def Belongs (m : Manifest) (nodeID : BitVec 8) (p : ℕ) : Prop :=
  p < m.numofNodes ∧ (m.rows.head p).nodeID = nodeID

/-- No row of the page is older than the row `j`. -/
def Oldest (rows : Rows) (p j : ℕ) : Prop :=
  j < numofReadings ∧ ∀ i < numofReadings,
    (rows (p * numofReadings + j)).number ≤ (rows (p * numofReadings + i)).number

/-- The reading is newer than the oldest row of the page. -/
def NewerThanOldest (rows : Rows) (p : ℕ) (r : Information) : Prop :=
  ∃ j, Oldest rows p j ∧ (rows (p * numofReadings + j)).number < r.number

/-- The page is the only one of the node. -/
def OnlyPage (m : Manifest) (nodeID : BitVec 8) (p : ℕ) : Prop :=
  Belongs m nodeID p ∧ ∀ q, Belongs m nodeID q → q = p

/-- From `m` to `m'` the reading `r` was inserted under its node. -/
structure KeyedInsert (m m' : Manifest) (r : Information) : Prop where
  newNode : (∀ p, ¬ Belongs m r.nodeID p) →
    (∃ p, OnlyPage m' r.nodeID p ∧ r ∈ m'.rows.page p) ∧
      ∀ i < m.numofNodes * numofReadings, m'.rows i = m.rows i
  knownNode : ∀ p, OnlyPage m r.nodeID p → NewerThanOldest m.rows p r →
    ∃ j, Oldest m.rows p j ∧
      m' = { m with rows := Function.update m.rows (p * numofReadings + j) r }

/-- The page that a new node is looked for on is in memory already, and on a known page only the
first row is compared and found older, or only the first row is compared at all. -/
structure InsertsInPlace (m : Manifest) (r : Information) : Prop where
  newNode : (∀ p, ¬ Belongs m r.nodeID p) →
    (m.rows.head m.numofNodes).nodeID = r.nodeID ∧ r ∈ m.rows.page m.numofNodes
  knownNode : ∀ p, OnlyPage m r.nodeID p → NewerThanOldest m.rows p r →
    Oldest m.rows p 0 ∧
      (m.numofNodes = 1 ∨ r.number ≤ (m.rows (p * numofReadings + 1)).number)

theorem Belongs.numofNodes_pos {m : Manifest} {nodeID : BitVec 8} {p : ℕ}
    (h : Belongs m nodeID p) : 0 < m.numofNodes :=
  Nat.lt_of_le_of_lt (Nat.zero_le p) h.1

/-- No page before the only one is a page of the node. -/
theorem OnlyPage.first {m : Manifest} {nodeID : BitVec 8} {p : ℕ} (hp : OnlyPage m nodeID p) :
    ∀ q < p, (m.rows.head q).nodeID ≠ nodeID :=
  fun q hq e => Nat.ne_of_lt hq (hp.2 q ⟨hq.trans hp.1.1, e⟩)

/-! ### A new node -/

theorem head_ne_of_not_belongs {m : Manifest} {nodeID : BitVec 8} (h : ∀ p, ¬ Belongs m nodeID p)
    {q : ℕ} (hq : q < m.numofNodes) : (m.rows.head q).nodeID ≠ nodeID :=
  fun e => h q ⟨hq, e⟩

/-- The page that is added lies past the pages and past the page behind them. -/
theorem addPage_rows (m : Manifest) (incoming : ℕ → Information) {i : ℕ}
    (h : i < (m.numofNodes + 1) * numofReadings) : (addPage m incoming).rows i = m.rows i := by
  rw [addPage_eq]
  exact overlay_of_lt h

/-- **A new node has a page afterwards exactly if the memory behind the manifest held it
before.** -/
theorem newNode_iff {m : Manifest} {r : Information} (h : ∀ p, ¬ Belongs m r.nodeID p) :
    (∃ p, OnlyPage (addPage m fun _ => r) r.nodeID p ∧ r ∈ (addPage m fun _ => r).rows.page p) ↔
      (m.rows.head m.numofNodes).nodeID = r.nodeID ∧ r ∈ m.rows.page m.numofNodes := by
  have hcount : (addPage m fun _ => r).numofNodes = m.numofNodes + 1 := by rw [addPage_eq]
  have hhead : ∀ q < m.numofNodes + 1, (addPage m fun _ => r).rows.head q = m.rows.head q := by
    intro q hq
    refine addPage_rows m _ ?_
    exact Nat.mul_lt_mul_of_pos_right hq (by decide)
  have hpage : (addPage m fun _ => r).rows.page m.numofNodes = m.rows.page m.numofNodes := by
    refine page_congr ?_
    intro j hj
    refine addPage_rows m _ ?_
    rw [Nat.succ_mul]
    omega
  -- the only page within the new count that is not an old one is the one behind them
  have honly : ∀ p, Belongs (addPage m fun _ => r) r.nodeID p → p = m.numofNodes := by
    rintro p ⟨hp, hown⟩
    rw [hcount] at hp
    rw [hhead p hp] at hown
    by_contra hne
    exact h p ⟨by omega, hown⟩
  constructor
  · rintro ⟨p, ⟨hbelongs, -⟩, hmem⟩
    obtain rfl := honly p hbelongs
    exact ⟨by rw [← hhead _ (Nat.lt_succ_self _)]; exact hbelongs.2, hpage ▸ hmem⟩
  · rintro ⟨hown, hmem⟩
    refine ⟨m.numofNodes, ⟨⟨by rw [hcount]; exact Nat.lt_succ_self _, ?_⟩, honly⟩, ?_⟩
    · rw [hhead _ (Nat.lt_succ_self _)]
      exact hown
    · rw [hpage]
      exact hmem

/-! ### A known node -/

/-- The leading older row is overwritten, and no other, if the next one is not older. -/
theorem addToPage_eq_update {rows : Rows} {r : Information} {n p : ℕ} (hn : 0 < n)
    (hnewer : (rows (p * numofReadings)).number < r.number)
    (hnext : n = 1 ∨ r.number ≤ (rows (p * numofReadings + 1)).number) :
    addToPage r n p rows = Function.update rows (p * numofReadings) r := by
  funext i
  rcases Nat.lt_or_ge i (p * numofReadings) with hlt | hge
  · rw [addToPage_of_lt _ _ _ _ hlt, Function.update_of_ne (Nat.ne_of_lt hlt)]
  · obtain ⟨j, rfl⟩ := Nat.exists_eq_add_of_le hge
    rw [addToPage_row]
    cases j with
    | zero =>
        rw [if_pos, Nat.add_zero, Function.update_self]
        exact ⟨hn, fun i hi => by rw [Nat.le_zero.1 hi]; exact hnewer⟩
    | succ j =>
        rw [if_neg, Function.update_of_ne (by omega)]
        rintro ⟨hjn, hall⟩
        have := hall 1 (by omega)
        omega

/-- On the first page of the node, the search leaves what was compared with its rows. -/
theorem exists_scan {m : Manifest} {r : Information} {p : ℕ} (hp : Belongs m r.nodeID p)
    (hfirst : ∀ q < p, (m.rows.head q).nodeID ≠ r.nodeID) :
    ∃ rows', addIncomingCurrInfoToMyManifest m r = some { m with rows := rows' } ∧
      ∀ i < (p + 1) * numofReadings, rows' i = addToPage r m.numofNodes p m.rows i := by
  obtain ⟨rows', hscan, hrows'⟩ := scanPages_first (fun _ _ => rfl)
    (fun q rows i hi => addToPage_of_lt r m.numofNodes q rows hi) hp.1 hp.2 hfirst
  exact ⟨rows', addIncoming_eq hscan, hrows'⟩

/-- A row is changed exactly if the loop gets to it and finds it and all rows before it older. -/
theorem addToPage_row_ne_iff {rows : Rows} {r : Information} {n p j : ℕ} :
    addToPage r n p rows (p * numofReadings + j) ≠ rows (p * numofReadings + j) ↔
      j < n ∧ ∀ i ≤ j, (rows (p * numofReadings + i)).number < r.number := by
  rw [addToPage_row]
  constructor
  · intro hne
    by_contra hnot
    exact hne (if_neg hnot)
  · intro h
    rw [if_pos h]
    intro e
    exact absurd (h.2 j le_rfl) (by rw [← e]; exact lt_irrefl _)

/-- If one row is replaced it is the leading one, and the loop ends there. -/
theorem eq_zero_of_addToPage_eq_update {rows : Rows} {r : Information} {n p j : ℕ} (hn : 0 < n)
    (hj : j < numofReadings) (hold : (rows (p * numofReadings + j)).number < r.number)
    (hrow : ∀ i < numofReadings, addToPage r n p rows (p * numofReadings + i) =
      Function.update rows (p * numofReadings + j) r (p * numofReadings + i)) :
    j = 0 ∧ (n = 1 ∨ r.number ≤ (rows (p * numofReadings + 1)).number) := by
  have hchanged : ∀ i < numofReadings,
      (i < n ∧ ∀ k ≤ i, (rows (p * numofReadings + k)).number < r.number) ↔ i = j := by
    intro i hi
    rw [← addToPage_row_ne_iff, hrow i hi]
    by_cases hij : i = j
    · rw [hij, Function.update_self]
      refine iff_of_true ?_ rfl
      rintro rfl
      exact lt_irrefl _ hold
    · rw [Function.update_of_ne (by omega)]
      exact iff_of_false (fun h => h rfl) hij
  have hall := ((hchanged j hj).2 rfl).2
  have hfirst := hall 0 (Nat.zero_le j)
  have hj0 : 0 = j := by
    refine (hchanged 0 (by decide)).1 ⟨hn, ?_⟩
    intro i hi
    rw [Nat.le_zero.1 hi]
    exact hfirst
  refine ⟨hj0.symm, ?_⟩
  by_contra hnot
  have hj1 : 1 = j := by
    refine (hchanged 1 (by decide)).1 ⟨by omega, ?_⟩
    intro i hi
    obtain rfl | rfl : i = 0 ∨ i = 1 := by omega
    · exact hfirst
    · omega
  omega

/-- The reading replaces the first row of the only page of the node. -/
theorem addIncoming_eq_update {m : Manifest} {r : Information} {p : ℕ}
    (hp : OnlyPage m r.nodeID p) (hnewer : (m.rows.head p).number < r.number)
    (hnext : m.numofNodes = 1 ∨ r.number ≤ (m.rows (p * numofReadings + 1)).number) :
    addIncomingCurrInfoToMyManifest m r =
      some { m with rows := Function.update m.rows (p * numofReadings) r } := by
  have hupd : addToPage r m.numofNodes p m.rows =
      Function.update m.rows (p * numofReadings) r :=
    addToPage_eq_update hp.1.numofNodes_pos hnewer hnext
  have hlast : ∀ q, p < q → q < m.numofNodes →
      ((addToPage r m.numofNodes p m.rows).head q).nodeID ≠ r.nodeID := by
    intro q hpq hq e
    rw [hupd, Rows.head, Function.update_of_ne] at e
    · exact absurd (hp.2 q ⟨hq, e⟩) (by omega)
    · exact Nat.ne_of_gt (Nat.mul_lt_mul_of_pos_right hpq (by decide))
  have hscan : scanPages r.nodeID
      (fun q rows => some (addToPage r m.numofNodes q rows)) m.numofNodes m.rows =
        some (addToPage r m.numofNodes p m.rows, true) :=
    scanPages_unique rfl hp.1.1 hp.1.2 hp.first hlast
  rw [addIncoming_eq hscan, hupd]

/-- **On a known page the oldest row is replaced, and nothing else, exactly if the first row is the
oldest and the next one is not compared or not older.** -/
theorem knownNode_iff {m m' : Manifest} {r : Information} {p : ℕ} (hp : OnlyPage m r.nodeID p)
    (hnewer : NewerThanOldest m.rows p r) (hm' : addIncomingCurrInfoToMyManifest m r = some m') :
    (∃ j, Oldest m.rows p j ∧
        m' = { m with rows := Function.update m.rows (p * numofReadings + j) r }) ↔
      Oldest m.rows p 0 ∧
        (m.numofNodes = 1 ∨ r.number ≤ (m.rows (p * numofReadings + 1)).number) := by
  have hold : ∀ j, Oldest m.rows p j → (m.rows (p * numofReadings + j)).number < r.number := by
    intro j hj
    obtain ⟨k, hk, hkr⟩ := hnewer
    exact Nat.lt_of_le_of_lt (hj.2 k hk.1) hkr
  constructor
  · rintro ⟨j, hj, rfl⟩
    obtain ⟨rows', hadd, hrows'⟩ := exists_scan hp.1 hp.first
    rw [hadd] at hm'
    have hupd : rows' = Function.update m.rows (p * numofReadings + j) r := by
      simpa using hm'
    have hrow : ∀ i < numofReadings, addToPage r m.numofNodes p m.rows (p * numofReadings + i) =
        Function.update m.rows (p * numofReadings + j) r (p * numofReadings + i) := by
      intro i hi
      rw [← hupd, hrows']
      rw [Nat.succ_mul]
      omega
    obtain ⟨rfl, hnext⟩ :=
      eq_zero_of_addToPage_eq_update hp.1.numofNodes_pos hj.1 (hold j hj) hrow
    exact ⟨hj, hnext⟩
  · rintro ⟨hj, hnext⟩
    refine ⟨0, hj, ?_⟩
    rw [addIncoming_eq_update hp (hold 0 hj) hnext] at hm'
    exact (Option.some_inj.1 hm').symm

/-! ### Every manifest -/

/-- Adding a reading never fails. -/
theorem addIncoming_total (m : Manifest) (r : Information) :
    ∃ m', addIncomingCurrInfoToMyManifest m r = some m' := by
  have hscan : ∀ n, ∃ s, scanPages r.nodeID
      (fun q rows => some (addToPage r m.numofNodes q rows)) n m.rows = some s := by
    intro n
    induction n with
    | zero => exact ⟨_, rfl⟩
    | succ n ih =>
        obtain ⟨s, hs⟩ := ih
        rw [scanPages_succ, hs, Option.bind_some]
        split <;> exact ⟨_, rfl⟩
  obtain ⟨⟨rows, found⟩, hs⟩ := hscan m.numofNodes
  exact ⟨_, by rw [addIncomingCurrInfoToMyManifest, hs]; rfl⟩

/-- **Adding a reading is a keyed insert exactly if the memory behind the manifest already holds
the page of a new node, and on a known page only the first row is older.** -/
theorem keyedInsert_iff (m : Manifest) (r : Information) :
    ∃ m', addIncomingCurrInfoToMyManifest m r = some m' ∧
      (KeyedInsert m m' r ↔ InsertsInPlace m r) := by
  obtain ⟨m', hm'⟩ := addIncoming_total m r
  refine ⟨m', hm', ?_⟩
  have hnew : (∀ p, ¬ Belongs m r.nodeID p) → m' = addPage m fun _ => r := by
    intro h
    rw [addIncoming_new fun q hq => head_ne_of_not_belongs h hq] at hm'
    exact (Option.some_inj.1 hm').symm
  constructor
  · intro H
    constructor
    · intro h
      have hpage := (H.newNode h).1
      rw [hnew h] at hpage
      exact (newNode_iff h).1 hpage
    · intro p hp hnewer
      exact (knownNode_iff hp hnewer hm').1 (H.knownNode p hp hnewer)
  · intro H
    constructor
    · intro h
      rw [hnew h]
      refine ⟨(newNode_iff h).2 (H.newNode h), ?_⟩
      intro i hi
      refine addPage_rows m _ ?_
      rw [Nat.succ_mul]
      omega
    · intro p hp hnewer
      exact (knownNode_iff hp hnewer hm').2 (H.knownNode p hp hnewer)

/-- A manifest whose page `0` holds the readings `1`, `2` and `3` of node `1`. -/
def ascendingPage : Manifest where
  rows i := { Information.zero with
    readingID := BitVec.ofNat 16 (i + 1), nodeID := if i < numofReadings then 1 else 2 }
  numofNodes := initialNumofNodes

theorem onlyPage_ascendingPage : OnlyPage ascendingPage 1 0 := by
  refine ⟨⟨by decide, rfl⟩, ?_⟩
  rintro q ⟨hq, hown⟩
  have hq : q < 2 := hq
  obtain rfl | rfl : q = 0 ∨ q = 1 := by omega
  · rfl
  · exact absurd hown (by decide)

/-- The first reading of node `5` is lost: it is written to the page `3`, and only the pages `0` to
`2` are searched.  The reading `4` of node `1` is written over the rows `0` and `1`. -/
theorem keyedInsert_fails :
    (∃ m', addIncomingCurrInfoToMyManifest ascendingPage
        { Information.zero with nodeID := 5 } = some m' ∧
      ¬ KeyedInsert ascendingPage m' { Information.zero with nodeID := 5 }) ∧
    ∃ m', addIncomingCurrInfoToMyManifest ascendingPage
        { Information.zero with readingID := 4, nodeID := 1 } = some m' ∧
      ¬ KeyedInsert ascendingPage m' { Information.zero with readingID := 4, nodeID := 1 } := by
  have hnone : ∀ p, ¬ Belongs ascendingPage 5 p := by
    rintro p ⟨-, hown⟩
    simp only [Rows.head, ascendingPage] at hown
    split at hown <;> exact absurd hown (by decide)
  constructor
  · refine ⟨_, addIncoming_new fun q hq => head_ne_of_not_belongs hnone hq, ?_⟩
    intro h
    have hpage := (newNode_iff hnone).1 (h.newNode hnone).1
    exact absurd hpage.1 (by decide)
  · obtain ⟨m', hm'⟩ := addIncoming_total ascendingPage
      { Information.zero with readingID := 4, nodeID := 1 }
    refine ⟨m', hm', ?_⟩
    intro h
    have hnewer : NewerThanOldest ascendingPage.rows 0
        { Information.zero with readingID := 4, nodeID := 1 } :=
      ⟨0, ⟨by decide, by decide⟩, by decide⟩
    have hrows := (knownNode_iff onlyPage_ascendingPage hnewer hm').1
      (h.knownNode 0 onlyPage_ascendingPage hnewer)
    exact absurd hrows.2 (by decide)

end Node0

end LoRaGPS
