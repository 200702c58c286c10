/-
**Reconciling two pages of one node.**

`ReconcileManifest` is meant to combine a page that came in with the page of the same node: the
newest readings of both are kept.  It goes through the incoming page with a cursor into its own
page, and both sketches bound the loop by the number of nodes, not of rows.  An incoming row that
is not compared is lost, a row of its own is overwritten by whatever newer row comes up against it,
and with more nodes than rows the incoming page is read past its end.

Main definitions:

* `LoRaGPS.Node0.Merged` — the newest readings of two pages;
* `LoRaGPS.Node0.Reconciles`, `LoRaGPS.Node1Rcvr.Reconciles` — what reconciling is meant to do, in
  either sketch;
* `LoRaGPS.Node0.MergingOrder`, `LoRaGPS.Node0.Mergeable` — the orders of the numbers on the two
  pages in which it happens to do so.

Main results:

* `LoRaGPS.Node0.reconcile_eq`, `LoRaGPS.Node0.reconcile_fails` — what reconciling does;
* `LoRaGPS.Node0.reconciles_iff_lined` — the same against what it is meant to do;
* `LoRaGPS.Node0.mergeable_iff_lined` — which orders of the numbers that leaves;
* `LoRaGPS.Node0.reconcile_merges_iff` — **both sketches merge two pages exactly if the numbers on
  them stand in one of four orders**.
-/

import LoRaGPS.KeyedInsert

set_option relaxedAutoImplicit false
set_option autoImplicit false

namespace LoRaGPS

namespace Node0

open RowCursor

/-! ### What reconciling is meant to do -/

/-- A page of readings of the node. -/
structure PageOf (nodeID : BitVec 8) (page : List Information) : Prop where
  length : page.length = numofReadings
  own : ∀ r ∈ page, r.nodeID = nodeID

/-- The reading is on the page, or it is older than everything on it. -/
def Covered (page : List Information) (r : Information) : Prop :=
  (∃ s ∈ page, s.number = r.number) ∨ ∀ s ∈ page, r.number < s.number

instance (page : List Information) (r : Information) : Decidable (Covered page r) :=
  inferInstanceAs (Decidable (_ ∨ _))

/-- The page `merged` holds the newest readings of `mine` and `incoming`, each once. -/
structure Merged (mine incoming merged : List Information) : Prop where
  among : ∀ r ∈ merged, r ∈ mine ++ incoming
  distinct : (merged.map Information.number).Nodup
  newest : ∀ r ∈ mine ++ incoming, Covered merged r

/-- Reconciling merges the incoming page into the page `p`, leaves everything else as it is, and
has nothing left to do afterwards. -/
def Reconciles (m : Manifest) (incoming : List Information) (p : ℕ) : Prop :=
  ∃ m', ReconcileManifest m incoming = some m' ∧ m'.numofNodes = m.numofNodes ∧
    Merged (m.rows.page p) incoming (m'.rows.page p) ∧
    (∀ i, i < p * numofReadings ∨ (p + 1) * numofReadings ≤ i → m'.rows i = m.rows i) ∧
    ReconcileManifest m' incoming = some m'

/-- No two rows of the page have the same number. -/
def Distinct (page : List Information) : Prop := (page.map Information.number).Nodup

instance (page : List Information) : Decidable (Distinct page) :=
  inferInstanceAs (Decidable (List.Nodup _))

/-- An incoming page, of which the rows `compared` are compared, against a page with the rows `a₁`,
`a₂` and `a₃`: the orders of their numbers in which the newest readings of both are kept. -/
inductive MergingOrder (a₁ a₂ a₃ : Information) : List Information → List Information → Prop
  /-- No incoming row is compared that is newer than the first row. -/
  | none {compared rest : List Information}
      (hcompared : ∀ b ∈ compared, b.number ≤ a₁.number)
      (hothers : ∀ b ∈ compared ++ rest,
        b.number = a₁.number ∨ b.number = a₂.number ∨ b.number = a₃.number ∨
          b.number < a₁.number ∧ b.number < a₂.number ∧ b.number < a₃.number) :
      MergingOrder a₁ a₂ a₃ compared rest
  /-- The row `x` is newer than the first row, which is the oldest one, and none after it is newer
  than the second row. -/
  | one {before after rest : List Information} {x : Information}
      (hbefore : ∀ b ∈ before, b.number ≤ a₁.number)
      (hafter : ∀ b ∈ after, b.number ≤ a₂.number ∧ b.number < x.number)
      (hx : a₁.number < x.number ∧ x.number ≠ a₂.number ∧ x.number ≠ a₃.number)
      (hfirst : a₁.number < a₂.number ∧ a₁.number < a₃.number)
      (hothers : ∀ b ∈ after ++ rest, b.number = a₂.number ∨ b.number = a₃.number ∨
        b.number < x.number ∧ b.number < a₂.number ∧ b.number < a₃.number) :
      MergingOrder a₁ a₂ a₃ (before ++ x :: after) rest
  /-- The row `x` is newer than the first row, and after it `y`, which is older than `x`, is newer
  than the second one.  The third row is newer than the second one, and newer than the first one
  unless that is the reading `y`. -/
  | two {before between after rest : List Information} {x y : Information}
      (hbefore : ∀ b ∈ before, b.number ≤ a₁.number)
      (hbetween : ∀ b ∈ between, b.number ≤ a₂.number)
      (hafter : ∀ b ∈ after, b.number ≤ a₃.number ∧ b.number < x.number)
      (hx : a₁.number < x.number ∧ x.number ≠ a₃.number)
      (hy : a₂.number < y.number ∧ y.number < x.number ∧ y.number ≠ a₃.number)
      (hfirst : a₁.number = y.number ∨ a₁.number < y.number ∧ a₁.number < a₃.number)
      (hsecond : a₂.number < a₃.number)
      (hothers : ∀ b ∈ before ++ between ++ after ++ rest,
        b.number = a₃.number ∨ b.number < y.number ∧ b.number < a₃.number) :
      MergingOrder a₁ a₂ a₃ (before ++ x :: (between ++ y :: after)) rest
  /-- Each incoming row is newer than the row it stands against, and the first one is the newest. -/
  | three {x y z : Information}
      (hnewer : a₁.number < x.number ∧ a₂.number < y.number ∧ a₃.number < z.number)
      (hx : y.number < x.number ∧ z.number < x.number)
      (hfirst : a₁.number = y.number ∨ a₁.number = z.number ∨
        a₁.number < y.number ∧ a₁.number < z.number)
      (hsecond : a₂.number ≤ z.number) (hthird : a₃.number ≤ y.number) :
      MergingOrder a₁ a₂ a₃ [x, y, z] []

/-- The loop compares no more rows than there are, and the numbers on the two pages stand in one of
these orders. -/
def Mergeable (n : ℕ) (mine incoming : List Information) : Prop :=
  n ≤ numofReadings ∧ ∃ a₁ a₂ a₃, mine = [a₁, a₂, a₃] ∧
    MergingOrder a₁ a₂ a₃ (incoming.take n) (incoming.drop n)

end Node0

namespace Node1Rcvr

open Node0 (Rows Merged)

/-- The same for the sketch that never adds a page. -/
def Reconciles (rows : Rows) (incoming : List Node0.Information) (p : ℕ) : Prop :=
  ∃ rows', ReconcileManifest rows incoming = some rows' ∧
    Merged (rows.page p) incoming (rows'.page p) ∧
    (∀ i, i < p * Node0.numofReadings ∨ (p + 1) * Node0.numofReadings ≤ i → rows' i = rows i) ∧
    ReconcileManifest rows' incoming = some rows'

end Node1Rcvr

namespace Node0

open RowCursor

/-! ### What reconciling does -/

/-- The page `mine` after `new` was written over its first rows. -/
def overwritten (mine new : List Information) : List Information :=
  new ++ mine.drop new.length

/-- The comparisons of the loop, one after the other. -/
theorem foldlM_compareRow (incoming : List Information) (base : ℕ) (s : Rows × ℕ) {n : ℕ}
    (h : n ≤ incoming.length) :
    ((List.range n).foldlM (fun s incomingRowCounter => do
        let r ← incoming[incomingRowCounter]?
        some (compareRow Information.number base s r)) s) =
      some ((incoming.take n).foldl (compareRow Information.number base) s) := by
  induction n with
  | zero => rfl
  | succ n ih =>
      have hn : n < incoming.length := h
      rw [List.range_succ, List.foldlM_append, ih (Nat.le_of_lt hn),
        List.take_succ_eq_append_getElem hn, List.foldl_append]
      simp [List.getElem?_eq_getElem hn]

/-- As long as there are rows to compare, the loop goes over the incoming page. -/
theorem reconcilePage_eq {incoming : List Information} {n : ℕ} (h : n ≤ incoming.length) (q : ℕ)
    (rows : Rows) : reconcilePage incoming n q rows =
      some (pass Information.number (q * numofReadings) (incoming.take n) rows) := by
  rw [reconcilePage, foldlM_compareRow _ _ _ h]
  rfl

/-- The loop reads past the end of the incoming page if there are more nodes than rows. -/
theorem reconcilePage_fails {incoming : List Information} {n : ℕ} (h : incoming.length < n) (q : ℕ)
    (rows : Rows) : reconcilePage incoming n q rows = none := by
  have hfold : ∀ k, incoming.length < k → ((List.range k).foldlM (fun s incomingRowCounter => do
      let r ← incoming[incomingRowCounter]?
      some (compareRow Information.number (q * numofReadings) s r)) (rows, 0)) = none := by
    intro k hk
    induction k with
    | zero => omega
    | succ k ih =>
        rw [List.range_succ, List.foldlM_append]
        rcases Nat.lt_or_ge incoming.length k with hlt | hge
        · rw [ih hlt]
          rfl
        · rw [foldlM_compareRow _ _ _ hge]
          simp [List.getElem?_eq_none (Nat.lt_succ_iff.1 hk)]
  rw [reconcilePage, hfold n h]
  rfl

section Known

variable {m : Manifest} {nodeID : BitVec 8} {p : ℕ} {incoming : List Information}

theorem PageOf.head (h : PageOf nodeID incoming) :
    ∃ first, incoming[0]? = some first ∧ first.nodeID = nodeID := by
  have hlen : 0 < incoming.length := by rw [h.length]; decide
  exact ⟨_, List.getElem?_eq_getElem hlen, h.own _ (List.getElem_mem hlen)⟩

/-- The rows of a page that no loop has touched. -/
theorem getElem?_page {rows : Rows} {j : ℕ} {r : Information} (h : (rows.page p)[j]? = some r) :
    rows (p * numofReadings + j) = r := by
  simp only [Rows.page, List.getElem?_map, Option.map_eq_some_iff] at h
  obtain ⟨k, hk, rfl⟩ := h
  obtain ⟨hj, rfl⟩ := List.getElem?_eq_some_iff.1 hk
  rw [List.getElem_range]

/-- What was written over the first rows of a page. -/
theorem page_overlay (rows : Rows) (p : ℕ) {new : List Information}
    (h : new.length ≤ numofReadings) :
    Rows.page (overlay rows (p * numofReadings) new) p = overwritten (rows.page p) new := by
  refine List.ext_getElem? ?_
  intro j
  simp only [overwritten, Rows.page, List.getElem?_append, List.getElem?_map, List.getElem?_drop]
  split
  · rename_i hj
    rw [List.getElem?_range (by omega), Option.map_some, List.getElem?_eq_getElem hj,
      overlay_add (List.getElem?_eq_getElem hj)]
  · rename_i hj
    rw [Nat.add_sub_cancel' (not_lt.1 hj)]
    cases hr : (List.range numofReadings)[j]? with
    | none => rfl
    | some k =>
        obtain ⟨-, rfl⟩ := List.getElem?_eq_some_iff.1 hr
        rw [Option.map_some, Option.map_some, List.getElem_range, overlay_of_ge (by omega)]

/-- What the loop takes over. -/
theorem length_taken_take_le (rows : Rows) (k : ℕ) (incoming : List Information) {n : ℕ}
    (hn : n ≤ numofReadings) :
    (taken Information.number rows k (incoming.take n)).length ≤ numofReadings := by
  have := length_taken_le Information.number rows k (incoming.take n)
  have := List.length_take_le n incoming
  omega

/-- Readings of the node written over its page leave it the only page of the node. -/
theorem OnlyPage.overlay (hp : OnlyPage m nodeID p) {new : List Information}
    (hown : ∀ r ∈ new, r.nodeID = nodeID) (hlen : new.length ≤ numofReadings) :
    OnlyPage { m with rows := overlay m.rows (p * numofReadings) new } nodeID p := by
  have hother : ∀ q, q ≠ p →
      Rows.head (RowCursor.overlay m.rows (p * numofReadings) new) q = m.rows.head q := by
    intro q hq
    rw [Rows.head, Rows.head]
    rcases Nat.lt_or_gt_of_ne hq with hlt | hgt
    · exact overlay_of_lt (Nat.mul_lt_mul_of_pos_right hlt (by decide))
    · have : (p + 1) * numofReadings ≤ q * numofReadings := Nat.mul_le_mul_right _ hgt
      exact overlay_of_ge (by rw [Nat.succ_mul] at this; omega)
  refine ⟨⟨hp.1.1, ?_⟩, ?_⟩
  · cases new with
    | nil => simpa using hp.1.2
    | cons r new =>
        have hr : Rows.head (RowCursor.overlay m.rows (p * numofReadings) (r :: new)) p = r :=
          overlay_add (i := 0) rfl
        rw [hr]
        exact hown r (List.mem_cons_self ..)
  · rintro q ⟨hq, hqown⟩
    by_contra hne
    rw [hother q hne] at hqown
    exact hne (hp.2 q ⟨hq, hqown⟩)

/-- The search, with no more nodes than rows. -/
theorem scanPages_reconcile (hp : OnlyPage m nodeID p) (hin : PageOf nodeID incoming)
    (hn : m.numofNodes ≤ numofReadings) :
    scanPages nodeID (reconcilePage incoming m.numofNodes) m.numofNodes m.rows =
      some (overlay m.rows (p * numofReadings)
        (taken Information.number m.rows (p * numofReadings) (incoming.take m.numofNodes)),
        true) := by
  have hupdate := reconcilePage_eq (hin.length.symm ▸ hn) p m.rows
  rw [pass_eq] at hupdate
  refine scanPages_unique hupdate hp.1.1 hp.1.2 hp.first ?_
  intro q hpq hq e
  have hown : ∀ r ∈ taken Information.number m.rows (p * numofReadings)
      (incoming.take m.numofNodes), r.nodeID = nodeID :=
    fun r hr => hin.own r (List.mem_of_mem_take (mem_taken _ hr))
  have honly := hp.overlay hown (length_taken_take_le _ _ _ hn)
  exact Nat.ne_of_gt hpq (honly.2 q ⟨hq, e⟩)

/-- The search, with more nodes than rows. -/
theorem scanPages_reconcile_fails (hp : OnlyPage m nodeID p) (hin : PageOf nodeID incoming)
    (hn : numofReadings < m.numofNodes) :
    scanPages nodeID (reconcilePage incoming m.numofNodes) m.numofNodes m.rows = none :=
  scanPages_fails (reconcilePage_fails (hin.length.symm ▸ hn) p m.rows) hp.1.1 hp.1.2 hp.first

/-- Reconciling writes the incoming rows that it takes over from the first row of the page on. -/
theorem reconcile_eq (hp : OnlyPage m nodeID p) (hin : PageOf nodeID incoming)
    (hn : m.numofNodes ≤ numofReadings) :
    ReconcileManifest m incoming = some { m with
      rows := overlay m.rows (p * numofReadings)
        (taken Information.number m.rows (p * numofReadings) (incoming.take m.numofNodes)) } := by
  obtain ⟨first, hfirst, hid⟩ := hin.head
  simp only [ReconcileManifest, hfirst, Option.bind_eq_bind, Option.bind_some, hid,
    scanPages_reconcile hp hin hn, if_true]

/-- With more nodes than rows, the incoming page is read past its end. -/
theorem reconcile_fails (hp : OnlyPage m nodeID p) (hin : PageOf nodeID incoming)
    (hn : numofReadings < m.numofNodes) : ReconcileManifest m incoming = none := by
  obtain ⟨first, hfirst, hid⟩ := hin.head
  simp only [ReconcileManifest, hfirst, Option.bind_eq_bind, Option.bind_some, hid,
    scanPages_reconcile_fails hp hin hn, Option.bind_none]

/-- After reconciling, the page is still the only one of the node. -/
theorem OnlyPage.reconcile (hp : OnlyPage m nodeID p) (hin : PageOf nodeID incoming)
    {m' : Manifest} (h : ReconcileManifest m incoming = some m') : OnlyPage m' nodeID p := by
  rcases Nat.lt_or_ge numofReadings m.numofNodes with hmore | hn
  · rw [reconcile_fails hp hin hmore] at h
    exact absurd h (by simp)
  · obtain rfl := Option.some_inj.1 (h.symm.trans (reconcile_eq hp hin hn))
    refine hp.overlay ?_ (length_taken_take_le _ _ _ hn)
    intro r hr
    exact hin.own r (List.mem_of_mem_take (mem_taken _ hr))

/-- Reconciling the same page again changes nothing exactly if no compared row is newer than the
first row of the page. -/
theorem reconcile_eq_self_iff (hp : OnlyPage m nodeID p) (hin : PageOf nodeID incoming)
    (hn : m.numofNodes ≤ numofReadings) :
    ReconcileManifest m incoming = some m ↔
      ∀ r ∈ incoming.take m.numofNodes, r.number ≤ (m.rows.head p).number := by
  rw [reconcile_eq hp hin hn, ← pass_eq, Option.some_inj]
  have hrows : ∀ rows, ({ m with rows := rows } : Manifest) = m ↔ rows = m.rows := by
    intro rows
    exact ⟨fun h => congrArg Manifest.rows h, by rintro rfl; rfl⟩
  rw [hrows]
  exact pass_eq_self_iff _ _ _ _

end Known

/-! ### When it merges -/

section Merging

/-- What has to hold of the rows `new` that are written over the first rows of the page `mine`:
nothing that was compared is newer than the first row that is kept, no reading is kept twice, and
what is not kept is older than what is, or kept in another row. -/
structure Settles (mine compared rest new : List Information) : Prop where
  first : ∀ r ∈ compared, ∀ s ∈ (overwritten mine new).head?, r.number ≤ s.number
  distinct : Distinct (overwritten mine new)
  covered : ∀ r ∈ mine.take new.length ++ (compared ++ rest), Covered (overwritten mine new) r

/-- The compared rows, lined up with the page, leave the newest readings of both on it. -/
def Lined (n : ℕ) (mine incoming : List Information) : Prop :=
  n ≤ numofReadings ∧ ∃ new, LinesUp Information.number mine (incoming.take n) new ∧
    Settles mine (incoming.take n) (incoming.drop n) new

variable {m : Manifest} {nodeID : BitVec 8} {p : ℕ} {incoming : List Information}

theorem mem_overwritten {mine new : List Information} {r : Information}
    (h : r ∈ overwritten mine new) : r ∈ new ∨ r ∈ mine :=
  (List.mem_append.1 h).imp id List.mem_of_mem_drop

/-- The rows that are written over a page merge it with the incoming page exactly if no reading is
kept twice and what is not kept is covered. -/
theorem merged_overwritten_iff {mine new : List Information} (hnew : ∀ r ∈ new, r ∈ incoming) :
    Merged mine incoming (overwritten mine new) ↔
      ((overwritten mine new).map Information.number).Nodup ∧
        ∀ r ∈ mine.take new.length ++ incoming, Covered (overwritten mine new) r := by
  constructor
  · intro h
    refine ⟨h.distinct, ?_⟩
    intro r hr
    refine h.newest r ?_
    rcases List.mem_append.1 hr with hr | hr
    · exact List.mem_append_left _ (List.mem_of_mem_take hr)
    · exact List.mem_append_right _ hr
  · rintro ⟨hdistinct, hcovered⟩
    refine ⟨?_, hdistinct, ?_⟩
    · intro r hr
      rcases mem_overwritten hr with hr | hr
      · exact List.mem_append_right _ (hnew r hr)
      · exact List.mem_append_left _ hr
    · intro r hr
      rcases List.mem_append.1 hr with hr | hr
      · -- a row of one's own was overwritten or kept
        rw [← List.take_append_drop new.length mine] at hr
        rcases List.mem_append.1 hr with hr | hr
        · exact hcovered r (List.mem_append_left _ hr)
        · exact Or.inl ⟨r, List.mem_append_right _ hr, rfl⟩
      · exact hcovered r (List.mem_append_right _ hr)

/-- Reconciling merges two pages exactly if the rows that line up leave the newest readings. -/
theorem reconciles_iff_lined (hp : OnlyPage m nodeID p) (hin : PageOf nodeID incoming) :
    Reconciles m incoming p ↔ Lined m.numofNodes (m.rows.page p) incoming := by
  rcases Nat.lt_or_ge numofReadings m.numofNodes with hmore | hn
  · refine iff_of_false ?_ ?_
    · rintro ⟨m', hm', -⟩
      rw [reconcile_fails hp hin hmore] at hm'
      exact absurd hm' (by simp)
    · rintro ⟨hle, -⟩
      omega
  -- the rows that are taken over are those that line up with the page
  obtain ⟨new, hnew⟩ : ∃ new, new = taken Information.number m.rows (p * numofReadings)
      (incoming.take m.numofNodes) := ⟨_, rfl⟩
  have hlines : LinesUp Information.number (m.rows.page p) (incoming.take m.numofNodes) new := by
    rw [hnew]
    refine linesUp_taken ?_ fun j r hj => getElem?_page hj
    exact (List.length_take_le _ _).trans (by simpa [Rows.page] using hn)
  have hincoming : ∀ r ∈ new, r ∈ incoming := by
    intro r hr
    rw [hnew] at hr
    exact List.mem_of_mem_take (mem_taken _ hr)
  have hlen : new.length ≤ numofReadings := hnew ▸ length_taken_take_le _ _ _ hn
  have heq := reconcile_eq hp hin hn
  rw [← hnew] at heq
  have honly := hp.overlay (fun r hr => hin.own r (hincoming r hr)) hlen
  have hpage := page_overlay m.rows p hlen
  have hhead : (overwritten (m.rows.page p) new).head? =
      some (Rows.head (overlay m.rows (p * numofReadings) new) p) := by
    rw [← hpage]
    rfl
  have hagain := reconcile_eq_self_iff honly hin hn
  constructor
  · rintro ⟨m', hm', -, hmerged, -, hsame⟩
    obtain rfl := Option.some_inj.1 (hm'.symm.trans heq)
    rw [hpage, merged_overwritten_iff hincoming] at hmerged
    refine ⟨hn, new, hlines, ?_, hmerged.1, ?_⟩
    · intro r hr s hs
      obtain rfl := Option.some_inj.1 (hhead.symm.trans hs)
      exact hagain.1 hsame r hr
    · rw [List.take_append_drop]
      exact hmerged.2
  · rintro ⟨-, new', hlines', hfirst, hdistinct, hcovered⟩
    obtain rfl : new' = new := by
      rw [hnew]
      exact hlines'.eq_taken fun j r hj => getElem?_page hj
    rw [List.take_append_drop] at hcovered
    refine ⟨_, heq, rfl, ?_, ?_, hagain.2 ?_⟩
    · rw [hpage]
      exact (merged_overwritten_iff hincoming).2 ⟨hdistinct, hcovered⟩
    · rintro i (hi | hi)
      · exact overlay_of_lt hi
      · exact overlay_of_ge (by rw [Nat.succ_mul] at hi; omega)
    · intro r hr
      exact hfirst r hr _ hhead

end Merging

/-! ### The orders in which it merges -/

section Orders

variable {a₁ a₂ a₃ x y z : Information} {before between after compared rest : List Information}

theorem distinct_iff : Distinct [x, y, z] ↔
    x.number ≠ y.number ∧ x.number ≠ z.number ∧ y.number ≠ z.number := by
  simp [Distinct, and_assoc]

/-- Rows of a page that do not have the number of the row `x`. -/
theorem Distinct.ne (h : Distinct (before ++ x :: after)) :
    ∀ b ∈ before ++ after, b.number ≠ x.number := by
  have hx := (List.perm_middle.map Information.number).nodup_iff.1 h
  rw [List.map_cons, List.nodup_cons] at hx
  intro b hb heq
  exact hx.1 (heq ▸ List.mem_map_of_mem hb)

/-- What has to hold of the rows `k₁`, `k₂` and `k₃` that are kept. -/
theorem settles_iff {k₁ k₂ k₃ : Information} {new : List Information}
    (h : overwritten [a₁, a₂, a₃] new = [k₁, k₂, k₃]) :
    Settles [a₁, a₂, a₃] compared rest new ↔
      (∀ b ∈ compared, b.number ≤ k₁.number) ∧
      (k₁.number ≠ k₂.number ∧ k₁.number ≠ k₃.number ∧ k₂.number ≠ k₃.number) ∧
      ∀ b ∈ [a₁, a₂, a₃].take new.length ++ (compared ++ rest),
        (b.number = k₁.number ∨ b.number = k₂.number ∨ b.number = k₃.number) ∨
          b.number < k₁.number ∧ b.number < k₂.number ∧ b.number < k₃.number := by
  have hcovered : ∀ b : Information, Covered [k₁, k₂, k₃] b ↔
      (b.number = k₁.number ∨ b.number = k₂.number ∨ b.number = k₃.number) ∨
        b.number < k₁.number ∧ b.number < k₂.number ∧ b.number < k₃.number := by
    intro b
    simp [Covered, @eq_comm ℕ b.number]
  constructor
  · intro hs
    obtain ⟨hfirst, hkept, hcov⟩ := hs
    rw [h] at hfirst hkept hcov
    exact ⟨fun b hb => hfirst b hb k₁ rfl, distinct_iff.1 hkept,
      fun b hb => (hcovered b).1 (hcov b hb)⟩
  · rintro ⟨hfirst, hkept, hcov⟩
    refine ⟨?_, ?_, ?_⟩
    · rw [h]
      rintro b hb s hs
      obtain rfl := Option.some_inj.1 hs
      exact hfirst b hb
    · rw [h]
      exact distinct_iff.2 hkept
    · rw [h]
      exact fun b hb => (hcovered b).2 (hcov b hb)

/-- Nothing is written over the page. -/
theorem settles_of_none (hmine : Distinct [a₁, a₂, a₃])
    (hcompared : ∀ b ∈ compared, b.number ≤ a₁.number)
    (hothers : ∀ b ∈ compared ++ rest,
      b.number = a₁.number ∨ b.number = a₂.number ∨ b.number = a₃.number ∨
        b.number < a₁.number ∧ b.number < a₂.number ∧ b.number < a₃.number) :
    Settles [a₁, a₂, a₃] compared rest [] := by
  refine (settles_iff rfl).2 ⟨hcompared, distinct_iff.1 hmine, ?_⟩
  intro b hb
  have := hothers b hb
  omega

theorem MergingOrder.of_none (hcompared : ∀ b ∈ compared, b.number ≤ a₁.number)
    (hs : Settles [a₁, a₂, a₃] compared rest []) : MergingOrder a₁ a₂ a₃ compared rest := by
  refine .none hcompared ?_
  intro b hb
  have := ((settles_iff rfl).1 hs).2.2 b hb
  omega

/-- One incoming row is written over the first one. -/
theorem settles_of_one (hmine : Distinct [a₁, a₂, a₃])
    (hbefore : ∀ b ∈ before, b.number ≤ a₁.number)
    (hafter : ∀ b ∈ after, b.number < x.number)
    (hx : a₁.number < x.number ∧ x.number ≠ a₂.number ∧ x.number ≠ a₃.number)
    (hfirst : a₁.number < a₂.number ∧ a₁.number < a₃.number)
    (hothers : ∀ b ∈ after ++ rest, b.number = a₂.number ∨ b.number = a₃.number ∨
      b.number < x.number ∧ b.number < a₂.number ∧ b.number < a₃.number) :
    Settles [a₁, a₂, a₃] (before ++ x :: after) rest [x] := by
  obtain ⟨-, -, h₂₃⟩ := distinct_iff.1 hmine
  refine (settles_iff (show overwritten [a₁, a₂, a₃] [x] = [x, a₂, a₃] from rfl)).2
    ⟨?_, ⟨hx.2.1, hx.2.2, h₂₃⟩, ?_⟩
  · intro b hb
    simp only [List.mem_append, List.mem_cons] at hb
    rcases hb with hb | rfl | hb
    · exact (hbefore b hb).trans hx.1.le
    · exact le_rfl
    · exact (hafter b hb).le
  · intro b hb
    simp only [List.length_singleton, List.take_succ_cons, List.take_zero, List.mem_append,
      List.mem_cons, List.not_mem_nil, or_false] at hb
    rcases hb with rfl | (hb | rfl | hb) | hb
    · omega
    · have := hbefore b hb
      omega
    · omega
    · have := hothers b (by simp [hb])
      omega
    · have := hothers b (by simp [hb])
      omega

theorem MergingOrder.of_one (hmine : Distinct [a₁, a₂, a₃])
    (hincoming : Distinct (before ++ x :: (after ++ rest)))
    (hbefore : ∀ b ∈ before, b.number ≤ a₁.number) (hx : a₁.number < x.number)
    (hafter : ∀ b ∈ after, b.number ≤ a₂.number)
    (hs : Settles [a₁, a₂, a₃] (before ++ x :: after) rest [x]) :
    MergingOrder a₁ a₂ a₃ (before ++ x :: after) rest := by
  have hne := hincoming.ne
  obtain ⟨hfirst, hkept, hcovered⟩ :=
    (settles_iff (show overwritten [a₁, a₂, a₃] [x] = [x, a₂, a₃] from rfl)).1 hs
  have hnewest : ∀ b ∈ after, b.number < x.number := by
    intro b hb
    exact lt_of_le_of_ne (hfirst b (by simp [hb])) (hne b (by simp [hb]))
  have hold : a₁.number < a₂.number ∧ a₁.number < a₃.number := by
    obtain ⟨h₁₂, h₁₃, -⟩ := distinct_iff.1 hmine
    have := hcovered a₁ (by simp)
    omega
  refine .one hbefore (fun b hb => ⟨hafter b hb, hnewest b hb⟩) ⟨hx, hkept.1, hkept.2.1⟩ hold ?_
  intro b hb
  have := hcovered b (by simp_all)
  have := hne b (by simp_all)
  omega

/-- Two incoming rows are written over the first two. -/
theorem settles_of_two (hbefore : ∀ b ∈ before, b.number ≤ a₁.number)
    (hbetween : ∀ b ∈ between, b.number ≤ a₂.number)
    (hafter : ∀ b ∈ after, b.number < x.number)
    (hx : a₁.number < x.number ∧ x.number ≠ a₃.number)
    (hy : a₂.number < y.number ∧ y.number < x.number ∧ y.number ≠ a₃.number)
    (hfirst : a₁.number = y.number ∨ a₁.number < y.number ∧ a₁.number < a₃.number)
    (hsecond : a₂.number < a₃.number)
    (hothers : ∀ b ∈ before ++ between ++ after ++ rest,
      b.number = a₃.number ∨ b.number < y.number ∧ b.number < a₃.number) :
    Settles [a₁, a₂, a₃] (before ++ x :: (between ++ y :: after)) rest [x, y] := by
  obtain ⟨hnewer, hxa⟩ := hx
  obtain ⟨hnewer', hyx, hya⟩ := hy
  refine (settles_iff (show overwritten [a₁, a₂, a₃] [x, y] = [x, y, a₃] from rfl)).2
    ⟨?_, ⟨hyx.ne', hxa, hya⟩, ?_⟩
  · intro b hb
    simp only [List.mem_append, List.mem_cons] at hb
    rcases hb with hb | rfl | hb | rfl | hb
    · exact (hbefore b hb).trans hnewer.le
    · exact le_rfl
    · exact (hbetween b hb).trans (hnewer'.trans hyx).le
    · exact hyx.le
    · exact (hafter b hb).le
  · have hother : ∀ b ∈ before ++ between ++ after ++ rest,
        (b.number = x.number ∨ b.number = y.number ∨ b.number = a₃.number) ∨
          b.number < x.number ∧ b.number < y.number ∧ b.number < a₃.number := by
      intro b hb
      exact (hothers b hb).imp (fun h => Or.inr (Or.inr h)) fun h => ⟨h.1.trans hyx, h⟩
    intro b hb
    simp only [List.length_cons, List.length_nil, List.take_succ_cons, List.take_zero,
      List.mem_append, List.mem_cons, List.not_mem_nil, or_false] at hb
    rcases hb with (rfl | rfl) | (hb | rfl | hb | rfl | hb) | hb
    · exact hfirst.imp (fun h => Or.inr (Or.inl h)) fun h => ⟨hnewer, h⟩
    · exact Or.inr ⟨hnewer'.trans hyx, hnewer', hsecond⟩
    · exact hother b (by simp [hb])
    · exact Or.inl (Or.inl rfl)
    · exact hother b (by simp [hb])
    · exact Or.inl (Or.inr (Or.inl rfl))
    · exact hother b (by simp [hb])
    · exact hother b (by simp [hb])

theorem MergingOrder.of_two (hmine : Distinct [a₁, a₂, a₃])
    (hincoming : Distinct (before ++ x :: (between ++ y :: (after ++ rest))))
    (hbefore : ∀ b ∈ before, b.number ≤ a₁.number) (hnewer : a₁.number < x.number)
    (hbetween : ∀ b ∈ between, b.number ≤ a₂.number) (hnewer' : a₂.number < y.number)
    (hafter : ∀ b ∈ after, b.number ≤ a₃.number)
    (hs : Settles [a₁, a₂, a₃] (before ++ x :: (between ++ y :: after)) rest [x, y]) :
    MergingOrder a₁ a₂ a₃ (before ++ x :: (between ++ y :: after)) rest := by
  obtain ⟨-, h₁₃, h₂₃⟩ := distinct_iff.1 hmine
  have hnex := hincoming.ne
  rw [← List.cons_append, ← List.append_assoc] at hincoming
  have hney := hincoming.ne
  obtain ⟨hnewest, ⟨hxy, hxa, hya⟩, hcovered⟩ :=
    (settles_iff (show overwritten [a₁, a₂, a₃] [x, y] = [x, y, a₃] from rfl)).1 hs
  have hyx : y.number < x.number := lt_of_le_of_ne (hnewest y (by simp)) hxy.symm
  have hfirst : a₁.number = y.number ∨ a₁.number < y.number ∧ a₁.number < a₃.number := by
    rcases hcovered a₁ (by simp) with (h | h | h) | h
    · exact absurd h hnewer.ne
    · exact Or.inl h
    · exact absurd h h₁₃
    · exact Or.inr h.2
  have hsecond : a₂.number < a₃.number := by
    rcases hcovered a₂ (by simp) with (h | h | h) | h
    · exact absurd h (hnewer'.trans hyx).ne
    · exact absurd h hnewer'.ne
    · exact absurd h h₂₃
    · exact h.2.2
  refine .two hbefore hbetween (fun b hb => ⟨hafter b hb, ?_⟩) ⟨hnewer, hxa⟩ ⟨hnewer', hyx, hya⟩
    hfirst hsecond ?_
  · exact lt_of_le_of_ne (hnewest b (by simp [hb])) (hnex b (by simp [hb]))
  · -- the other incoming rows are neither `x` nor `y`
    have hother : ∀ b, b.number ≠ x.number → b.number ≠ y.number →
        b ∈ [a₁, a₂, a₃].take 2 ++ (before ++ x :: (between ++ y :: after) ++ rest) →
        b.number = a₃.number ∨ b.number < y.number ∧ b.number < a₃.number := by
      intro b hbx hby hb
      rcases hcovered b hb with (h | h | h) | h
      · exact absurd h hbx
      · exact absurd h hby
      · exact Or.inl h
      · exact Or.inr h.2
    intro b hb
    simp only [List.mem_append, or_assoc] at hb
    rcases hb with hb | hb | hb | hb <;>
      exact hother b (hnex b (by simp [hb])) (hney b (by simp [hb])) (by simp [hb])

/-- The page is written over as a whole. -/
theorem settles_of_three (hincoming : Distinct [x, y, z])
    (hnewer : a₁.number < x.number ∧ a₂.number < y.number ∧ a₃.number < z.number)
    (hx : y.number < x.number ∧ z.number < x.number)
    (hfirst : a₁.number = y.number ∨ a₁.number = z.number ∨
      a₁.number < y.number ∧ a₁.number < z.number)
    (hsecond : a₂.number ≤ z.number) (hthird : a₃.number ≤ y.number) :
    Settles [a₁, a₂, a₃] [x, y, z] [] [x, y, z] := by
  obtain ⟨hyx, hzx⟩ := hx
  refine (settles_iff (show overwritten [a₁, a₂, a₃] [x, y, z] = [x, y, z] from rfl)).2
    ⟨by simp [hyx.le, hzx.le], distinct_iff.1 hincoming, ?_⟩
  intro b hb
  simp only [List.length_cons, List.length_nil, List.take_succ_cons, List.take_zero,
    List.mem_append, List.mem_cons, List.not_mem_nil, or_false] at hb
  rcases hb with (rfl | rfl | rfl) | rfl | rfl | rfl
  · rcases hfirst with h | h | h
    · exact Or.inl (Or.inr (Or.inl h))
    · exact Or.inl (Or.inr (Or.inr h))
    · exact Or.inr ⟨hnewer.1, h⟩
  · rcases hsecond.eq_or_lt with h | h
    · exact Or.inl (Or.inr (Or.inr h))
    · exact Or.inr ⟨hnewer.2.1.trans hyx, hnewer.2.1, h⟩
  · rcases hthird.eq_or_lt with h | h
    · exact Or.inl (Or.inr (Or.inl h))
    · exact Or.inr ⟨hnewer.2.2.trans hzx, h, hnewer.2.2⟩
  · exact Or.inl (Or.inl rfl)
  · exact Or.inl (Or.inr (Or.inl rfl))
  · exact Or.inl (Or.inr (Or.inr rfl))

theorem MergingOrder.of_three (hx : a₁.number < x.number) (hy : a₂.number < y.number)
    (hz : a₃.number < z.number) (hs : Settles [a₁, a₂, a₃] [x, y, z] [] [x, y, z]) :
    MergingOrder a₁ a₂ a₃ [x, y, z] [] := by
  obtain ⟨hnewest, ⟨hxy, hxz, -⟩, hcovered⟩ :=
    (settles_iff (show overwritten [a₁, a₂, a₃] [x, y, z] = [x, y, z] from rfl)).1 hs
  have hyx : y.number < x.number := lt_of_le_of_ne (hnewest y (by simp)) hxy.symm
  have hzx : z.number < x.number := lt_of_le_of_ne (hnewest z (by simp)) hxz.symm
  refine .three ⟨hx, hy, hz⟩ ⟨hyx, hzx⟩ ?_ ?_ ?_
  · rcases hcovered a₁ (by simp) with (h | h) | h
    · exact absurd h hx.ne
    · exact h.imp_right Or.inl
    · exact Or.inr (Or.inr h.2)
  · rcases hcovered a₂ (by simp) with (h | h | h) | h
    · exact absurd h (hy.trans hyx).ne
    · exact absurd h hy.ne
    · exact h.le
    · exact h.2.2.le
  · rcases hcovered a₃ (by simp) with (h | h | h) | h
    · exact absurd h (hz.trans hzx).ne
    · exact h.le
    · exact absurd h hz.ne
    · exact h.2.1.le

/-- In each of the orders the rows line up and settle. -/
theorem MergingOrder.settles (h : MergingOrder a₁ a₂ a₃ compared rest)
    (hmine : Distinct [a₁, a₂, a₃]) (hincoming : Distinct (compared ++ rest)) :
    ∃ new, LinesUp Information.number [a₁, a₂, a₃] compared new ∧
      Settles [a₁, a₂, a₃] compared rest new := by
  cases h with
  | none hcompared hothers =>
      exact ⟨[], linesUp_nil_iff.2 hcompared, settles_of_none hmine hcompared hothers⟩
  | one hbefore hafter hx hfirst hothers =>
      exact ⟨_, linesUp_cons_iff.2 ⟨_, _, rfl, hbefore, hx.1,
          linesUp_nil_iff.2 fun b hb => (hafter b hb).1⟩,
        settles_of_one hmine hbefore (fun b hb => (hafter b hb).2) hx hfirst hothers⟩
  | two hbefore hbetween hafter hx hy hfirst hsecond hothers =>
      exact ⟨_, linesUp_cons_iff.2 ⟨_, _, rfl, hbefore, hx.1,
          linesUp_cons_iff.2 ⟨_, _, rfl, hbetween, hy.1,
            linesUp_nil_iff.2 fun b hb => (hafter b hb).1⟩⟩,
        settles_of_two hbefore hbetween (fun b hb => (hafter b hb).2) hx hy hfirst hsecond
          hothers⟩
  | three hnewer hx hfirst hsecond hthird =>
      exact ⟨_, .against hnewer.1 (.against hnewer.2.1 (.against hnewer.2.2 (.nil []))),
        settles_of_three hincoming hnewer hx hfirst hsecond hthird⟩

/-- Rows that line up and settle stand in one of the orders, by the number of rows that are written
over. -/
theorem mergingOrder_of_settles {new : List Information} (hmine : Distinct [a₁, a₂, a₃])
    (hincoming : Distinct (compared ++ rest)) (hlen : (compared ++ rest).length = numofReadings)
    (hlines : LinesUp Information.number [a₁, a₂, a₃] compared new)
    (hs : Settles [a₁, a₂, a₃] compared rest new) : MergingOrder a₁ a₂ a₃ compared rest := by
  obtain _ | ⟨x, new⟩ := new
  · exact .of_none (linesUp_nil_iff.1 hlines) hs
  obtain ⟨before, after, rfl, hbefore, hx, hlines⟩ := linesUp_cons_iff.1 hlines
  obtain _ | ⟨y, new⟩ := new
  · rw [List.append_assoc, List.cons_append] at hincoming
    exact .of_one hmine hincoming hbefore hx (linesUp_nil_iff.1 hlines) hs
  obtain ⟨between, after, rfl, hbetween, hy, hlines⟩ := linesUp_cons_iff.1 hlines
  obtain _ | ⟨z, new⟩ := new
  · simp only [List.append_assoc, List.cons_append] at hincoming
    exact .of_two hmine hincoming hbefore hx hbetween hy (linesUp_nil_iff.1 hlines) hs
  obtain ⟨last, after, rfl, -, hz, hlines⟩ := linesUp_cons_iff.1 hlines
  obtain ⟨rfl, rfl⟩ := linesUp_nil_left_iff.1 hlines
  -- three rows are all that there are
  obtain ⟨rfl, rfl, rfl, rfl⟩ : before = [] ∧ between = [] ∧ last = [] ∧ rest = [] := by
    simp only [List.length_append, List.length_cons, List.length_nil, numofReadings] at hlen
    simp only [← List.length_eq_zero_iff]
    omega
  exact .of_three hx hy hz hs

/-- **The orders of the numbers in which the loop merges two pages.** -/
theorem mergeable_iff_lined {n : ℕ} {mine incoming : List Information}
    (hlen : mine.length = numofReadings) (hlen' : incoming.length = numofReadings)
    (hmine : Distinct mine) (hincoming : Distinct incoming) :
    Mergeable n mine incoming ↔ Lined n mine incoming := by
  obtain ⟨a₁, a₂, a₃, rfl⟩ := List.length_eq_three.1 hlen
  have hsplit := List.take_append_drop n incoming
  refine and_congr_right fun _ => ?_
  constructor
  · rintro ⟨b₁, b₂, b₃, heq, h⟩
    cases heq
    exact h.settles hmine (hsplit.symm ▸ hincoming)
  · rintro ⟨new, hlines, hs⟩
    exact ⟨a₁, a₂, a₃, rfl, mergingOrder_of_settles hmine (hsplit.symm ▸ hincoming)
      (hsplit.symm ▸ hlen') hlines hs⟩

end Orders

end Node0

namespace Node1Rcvr

open Node0 (Rows OnlyPage PageOf)

variable {rows rows' : Rows} {nodeID : BitVec 8} {p : ℕ} {incoming : List Node0.Information}

/-- On a page of the node, the two sketches do the same. -/
theorem reconcile_iff (hp : OnlyPage ⟨rows, Node0.initialNumofNodes⟩ nodeID p)
    (hin : PageOf nodeID incoming) : ReconcileManifest rows incoming = some rows' ↔
      Node0.ReconcileManifest ⟨rows, Node0.initialNumofNodes⟩ incoming =
        some ⟨rows', Node0.initialNumofNodes⟩ := by
  have hn : Node0.initialNumofNodes ≤ Node0.numofReadings := by decide
  obtain ⟨first, hfirst, hid⟩ := hin.head
  rw [Node0.reconcile_eq hp hin hn]
  simp only [ReconcileManifest, hfirst, Option.bind_eq_bind, Option.bind_some, hid,
    Node0.scanPages_reconcile hp hin hn, Option.some_inj, Node0.Manifest.mk.injEq, and_true]

/-- What is asked of the sketch with the constant number of pages. -/
theorem reconciles_iff (hp : OnlyPage ⟨rows, Node0.initialNumofNodes⟩ nodeID p)
    (hin : PageOf nodeID incoming) :
    Reconciles rows incoming p ↔ Node0.Reconciles ⟨rows, Node0.initialNumofNodes⟩ incoming p := by
  constructor
  · rintro ⟨rows', hrows', hmerged, hframe, hsame⟩
    have h := (reconcile_iff hp hin).1 hrows'
    exact ⟨_, h, rfl, hmerged, hframe, (reconcile_iff (hp.reconcile hin h) hin).1 hsame⟩
  · rintro ⟨⟨rows', n⟩, h, hcount, hmerged, hframe, hsame⟩
    obtain rfl : n = Node0.initialNumofNodes := hcount
    exact ⟨rows', (reconcile_iff hp hin).2 h, hmerged, hframe,
      (reconcile_iff (hp.reconcile hin h) hin).2 hsame⟩

end Node1Rcvr

namespace Node0

/-- **Either sketch merges an incoming page into the only page of its node exactly if the numbers on
the two pages stand in one of the orders.** -/
theorem reconcile_merges_iff (nodeID : BitVec 8) (p : ℕ) (incoming : List Information)
    (hin : PageOf nodeID incoming) (hincoming : Distinct incoming) :
    (∀ m : Manifest, OnlyPage m nodeID p → Distinct (m.rows.page p) →
      (Reconciles m incoming p ↔ Mergeable m.numofNodes (m.rows.page p) incoming)) ∧
    ∀ rows : Rows, OnlyPage ⟨rows, initialNumofNodes⟩ nodeID p → Distinct (rows.page p) →
      (Node1Rcvr.Reconciles rows incoming p ↔
        Mergeable initialNumofNodes (rows.page p) incoming) := by
  have hpage : ∀ rows : Rows, (rows.page p).length = numofReadings := fun rows => by
    rw [Rows.page, List.length_map, List.length_range]
  constructor
  · intro m hp hmine
    rw [mergeable_iff_lined (hpage _) hin.length hmine hincoming]
    exact reconciles_iff_lined hp hin
  · intro rows hp hmine
    rw [mergeable_iff_lined (hpage _) hin.length hmine hincoming, Node1Rcvr.reconciles_iff hp hin]
    exact reconciles_iff_lined hp hin

/-- The reading of node `1` with the number `n`. -/
def readingOfOne (n : BitVec 16) : Information :=
  { Information.zero with readingID := n, nodeID := 1 }

/-- The page `4`, `2`, `3` against `1`, `2`, `3`: `4` is written over `1`, which is older than all
the others, and `2` is not newer than `2`. -/
theorem reconcile_merges_ascendingPage :
    Reconciles ascendingPage [readingOfOne 4, readingOfOne 2, readingOfOne 3] 0 ∧
      Node1Rcvr.Reconciles ascendingPage.rows [readingOfOne 4, readingOfOne 2, readingOfOne 3]
        0 := by
  have hin : PageOf 1 [readingOfOne 4, readingOfOne 2, readingOfOne 3] := ⟨rfl, by decide⟩
  have horder : Mergeable initialNumofNodes (ascendingPage.rows.page 0)
      [readingOfOne 4, readingOfOne 2, readingOfOne 3] := by
    refine ⟨by decide, readingOfOne 1, readingOfOne 2, readingOfOne 3, by decide, ?_⟩
    exact @MergingOrder.one _ _ _ [] [readingOfOne 2] [readingOfOne 3] (readingOfOne 4)
      (by decide) (by decide) (by decide) (by decide) (by decide)
  have h := reconcile_merges_iff 1 0 _ hin (by decide)
  exact ⟨(h.1 ascendingPage onlyPage_ascendingPage (by decide)).2 horder,
    (h.2 ascendingPage.rows onlyPage_ascendingPage (by decide)).2 horder⟩

/-- Two pages are taken to have two rows: of the page `4`, `5`, `6`, the last row is not compared,
and `3` stays. -/
theorem reconcile_loses_row :
    (OnlyPage ascendingPage 1 0 ∧ Distinct (ascendingPage.rows.page 0)) ∧
      (PageOf 1 [readingOfOne 4, readingOfOne 5, readingOfOne 6] ∧
        Distinct [readingOfOne 4, readingOfOne 5, readingOfOne 6]) ∧
      ¬ Reconciles ascendingPage [readingOfOne 4, readingOfOne 5, readingOfOne 6] 0 ∧
      ¬ Node1Rcvr.Reconciles ascendingPage.rows [readingOfOne 4, readingOfOne 5, readingOfOne 6]
        0 := by
  have hin : PageOf 1 [readingOfOne 4, readingOfOne 5, readingOfOne 6] := ⟨rfl, by decide⟩
  have hloses :
      ¬ Reconciles ascendingPage [readingOfOne 4, readingOfOne 5, readingOfOne 6] 0 := by
    rintro ⟨m', hm', -, hmerged, -⟩
    have hpage : (ReconcileManifest ascendingPage [readingOfOne 4, readingOfOne 5,
        readingOfOne 6]).map (fun m => m.rows.page 0) =
          some [readingOfOne 4, readingOfOne 5, readingOfOne 3] := by decide +kernel
    rw [hm', Option.map_some, Option.some_inj] at hpage
    have hcovered := hmerged.newest (readingOfOne 6) (by simp)
    rw [hpage] at hcovered
    exact absurd hcovered (by decide)
  refine ⟨⟨onlyPage_ascendingPage, by decide⟩, ⟨hin, by decide⟩, hloses, ?_⟩
  intro h
  exact hloses ((Node1Rcvr.reconciles_iff onlyPage_ascendingPage hin).1 h)

end Node0

end LoRaGPS
