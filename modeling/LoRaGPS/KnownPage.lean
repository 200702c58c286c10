/-
**A known page, updated by a sender whose counter wraps.**

A node that runs `Node0_sender.ino` numbers its readings with an `int` counter, and the record
carries the low 16 bits.  A receiver that has a page for the node takes a reading over only if its
number is greater than that of row `0`, and row `0` keeps the greatest number delivered so far.
So the page follows the sender up to the reading `65535`, and after it shows no reading but those
that stood on it before the run.

Main definitions:

* `LoRaGPS.Node0.Sender`, `LoRaGPS.Node0.Sender.step1`, `LoRaGPS.Node0.Sender.step2`,
  `LoRaGPS.Node0.sent` — the sender, and the readings it sends;
* `LoRaGPS.Node0.FirstPage` — the page on which the receiver finds the node;
* `LoRaGPS.Node0.Shows` — a reading is on the page after a number of deliveries;
* `LoRaGPS.Node0.Delivered` — the page after a run of deliveries, in terms of its rows before.

Main results:

* `LoRaGPS.Node0.addIncoming_known` — what one delivery does to the page;
* `LoRaGPS.Node0.deliver_known` — **what a run of deliveries does to the page**;
* `LoRaGPS.Node0.known_page_iff` — **the page shows every reading of a run exactly if each has not
  wrapped and is newer than the page, or stood on the page already**.
-/

import LoRaGPS.KeyedInsert
import Mathlib.Data.Fintype.Pigeonhole
import Mathlib.Order.MinMax

set_option relaxedAutoImplicit false
set_option autoImplicit false

namespace LoRaGPS

namespace Node0

/-! ### The sender -/

/-- What the GPS library returns in one iteration; the latitude with the 10 degrees that the sketch
adds. -/
structure GpsInput where
  lat : BitVec 64
  lon : BitVec 64
  alt : BitVec 64
  hour : BitVec 8
  minute : BitVec 8
  second : BitVec 8
deriving DecidableEq, Repr

/-- The globals of a sender.  `readingCounter` is an `int` kept modulo `2 ^ 32`. -/
structure Sender where
  readingCounter : BitVec 32
  posofManifestDataWriter : ℕ
  currInfo : Information
  manifest : Manifest

/-- The globals as they are initialised. -/
def Sender.boot : Sender :=
  ⟨0, 0, Information.zero, ⟨fun _ => Information.zero, initialNumofNodes⟩⟩

/-- The record that is filled in: the counter is cut to 16 bits, and the `int` ID to 8. -/
def fillIn (readingCounter curr_ID : BitVec 32) (gps : GpsInput) : Information :=
  ⟨readingCounter.setWidth 16, curr_ID.setWidth 8, gps.lat, gps.lon, gps.alt, gps.hour, gps.minute,
    gps.second⟩

/-- Step 1 of `loop()`: the reading goes to `curr_info` and to a row of `manifest[0]`. -/
def Sender.step1 (curr_ID : BitVec 32) (s : Sender) (gps : GpsInput) : Sender where
  readingCounter := s.readingCounter + 1
  posofManifestDataWriter :=
    if s.posofManifestDataWriter + 1 > numofReadings then 0 else s.posofManifestDataWriter + 1
  currInfo := fillIn s.readingCounter curr_ID gps
  manifest := { s.manifest with
    rows := Function.update s.manifest.rows (0 * numofReadings + s.posofManifestDataWriter)
      (fillIn s.readingCounter curr_ID gps) }

/-- Step 2 of `loop()`: the bytes of `curr_info` are sent, as which the record is received. -/
def Sender.step2 (s : Sender) : Information := s.currInfo

/-- The readings that are sent in the iterations with the inputs `gps`. -/
def sent (curr_ID : BitVec 32) : Sender → List GpsInput → List Information
  | _, [] => []
  | s, g :: gps => (s.step1 curr_ID g).step2 :: sent curr_ID (s.step1 curr_ID g) gps

@[simp] theorem length_sent (curr_ID : BitVec 32) (s : Sender) (gps : List GpsInput) :
    (sent curr_ID s gps).length = gps.length := by
  induction gps generalizing s with
  | nil => rfl
  | cons g gps ih => simp [sent, ih]

/-- What is sent in an iteration: the reading carries the low 16 bits of the counter. -/
theorem sent_getElem? (curr_ID : BitVec 32) (s : Sender) (gps : List GpsInput) (n : ℕ) :
    (sent curr_ID s gps)[n]? =
      (gps[n]?).map (fillIn (s.readingCounter + BitVec.ofNat 32 n) curr_ID) := by
  induction gps generalizing s n with
  | nil => simp [sent]
  | cons g gps ih =>
      cases n with
      | zero => simp [sent, Sender.step1, Sender.step2]
      | succ n =>
          have hnext : s.readingCounter + 1 + BitVec.ofNat 32 n =
              s.readingCounter + BitVec.ofNat 32 (n + 1) := by
            rw [BitVec.add_assoc, Nat.add_comm n, BitVec.ofNat_add]
            rfl
          simp only [sent, List.getElem?_cons_succ, ih]
          exact congrArg (fun c => (gps[n]?).map (fillIn c curr_ID)) hnext

/-- The `readingID` of the next reading. -/
def Sender.nextNumber (s : Sender) : ℕ := s.readingCounter.toNat % 2 ^ 16

/-- The readings are numbered modulo `2 ^ 16`. -/
theorem number_sent {curr_ID : BitVec 32} {s : Sender} {gps : List GpsInput} {n : ℕ}
    {r : Information} (h : (sent curr_ID s gps)[n]? = some r) :
    r.number = (s.nextNumber + n) % 2 ^ 16 := by
  rw [sent_getElem?] at h
  obtain ⟨g, -, rfl⟩ := Option.map_eq_some_iff.1 h
  simp only [Information.number, fillIn, Sender.nextNumber, BitVec.toNat_setWidth,
    BitVec.toNat_add, BitVec.toNat_ofNat]
  omega

theorem nodeID_sent {curr_ID : BitVec 32} {s : Sender} {gps : List GpsInput} {r : Information}
    (h : r ∈ sent curr_ID s gps) : r.nodeID = curr_ID.setWidth 8 := by
  obtain ⟨n, hn⟩ := List.getElem?_of_mem h
  rw [sent_getElem?] at hn
  obtain ⟨g, -, rfl⟩ := Option.map_eq_some_iff.1 hn
  rfl

/-! ### One delivery -/

/-- The page on which the search finds the node first. -/
structure FirstPage (m : Manifest) (nodeID : BitVec 8) (p : ℕ) : Prop where
  belongs : Belongs m nodeID p
  first : ∀ q < p, (m.rows.head q).nodeID ≠ nodeID

/-- The row `j` of the page is written over by the reading: so are the rows before it, and there
are enough pages for the loop to get there. -/
def Replaces (m : Manifest) (p : ℕ) (r : Information) (j : ℕ) : Prop :=
  j < m.numofNodes ∧ ∀ i ≤ j, (m.rows (p * numofReadings + i)).number < r.number

theorem Replaces.head {m : Manifest} {p j : ℕ} {r : Information} (h : Replaces m p r j) :
    (m.rows.head p).number < r.number := h.2 0 (Nat.zero_le j)

/-- Row `0` is written over by every newer reading. -/
theorem replaces_zero_iff {m : Manifest} {p : ℕ} {r : Information} (hn : 0 < m.numofNodes) :
    Replaces m p r 0 ↔ (m.rows.head p).number < r.number := by
  constructor
  · exact Replaces.head
  · intro hnew
    refine ⟨hn, ?_⟩
    intro i hi
    rw [Nat.le_zero.1 hi]
    exact hnew

theorem row_lt_next {p j : ℕ} (hj : j < numofReadings) :
    p * numofReadings + j < (p + 1) * numofReadings := by
  rw [Nat.succ_mul]
  omega

section Delivery

variable {m m' : Manifest} {r : Information} {p : ℕ}

/-- **What one delivery does to the page of the node**: the leading rows that are older are
written over, and it stays the page of the node. -/
theorem addIncoming_known (hp : FirstPage m r.nodeID p) :
    ∃ m', addIncomingCurrInfoToMyManifest m r = some m' ∧ FirstPage m' r.nodeID p ∧
      m'.numofNodes = m.numofNodes ∧ ∀ j < numofReadings,
        (Replaces m p r j → m'.rows (p * numofReadings + j) = r) ∧
        (¬ Replaces m p r j →
          m'.rows (p * numofReadings + j) = m.rows (p * numofReadings + j)) := by
  obtain ⟨hbelongs, hfirst⟩ := hp
  obtain ⟨rows', hadd, hrows'⟩ := exists_scan hbelongs hfirst
  have hrow : ∀ j < numofReadings, rows' (p * numofReadings + j) =
      if j < m.numofNodes ∧ ∀ i ≤ j, (m.rows (p * numofReadings + i)).number < r.number then r
      else m.rows (p * numofReadings + j) := by
    intro j hj
    rw [hrows' _ (row_lt_next hj), addToPage_row]
  refine ⟨_, hadd, ⟨⟨hbelongs.1, ?_⟩, ?_⟩, rfl, ?_⟩
  · change (rows' (p * numofReadings)).nodeID = r.nodeID
    rw [hrows' _ (Nat.mul_lt_mul_of_pos_right (Nat.lt_succ_self p) (by decide))]
    exact head_addToPage m.numofNodes hbelongs.2
  · intro q hq
    have hbefore : q * numofReadings < p * numofReadings :=
      Nat.mul_lt_mul_of_pos_right hq (by decide)
    change (rows' (q * numofReadings)).nodeID ≠ r.nodeID
    rw [hrows' _ (by rw [Nat.succ_mul]; omega), addToPage_of_lt _ _ _ _ hbefore]
    exact hfirst q hq
  · intro j hj
    exact ⟨fun h => (hrow j hj).trans (if_pos h), fun h => (hrow j hj).trans (if_neg h)⟩

end Delivery

/-! ### A run of deliveries -/

/-- The readings `rs` are received one after the other. -/
def deliver (m : Manifest) (rs : List Information) : Option Manifest :=
  rs.foldlM addIncomingCurrInfoToMyManifest m

/-- The reading `n` of `rs` is on the page `p` after `k` deliveries. -/
def Shows (m : Manifest) (p : ℕ) (rs : List Information) (k n : ℕ) : Prop :=
  ∃ m' r, deliver m (rs.take k) = some m' ∧ rs[n]? = some r ∧ r ∈ m'.rows.page p

/-- The page after the readings `rs` were delivered: row `0` has the greatest number, the rows that
some reading writes over hold the last reading that was taken over, and the others are kept.  All
but `page` speak of the rows as they were before the run. -/
structure Delivered (m : Manifest) (nodeID : BitVec 8) (p : ℕ) (rs : List Information)
    (m' : Manifest) : Prop where
  page : FirstPage m' nodeID p
  numofNodes : m'.numofNodes = m.numofNodes
  older : ∀ x, (m'.rows.head p).number < x ↔
    (m.rows.head p).number < x ∧ ∀ r ∈ rs, r.number < x
  kept : ∀ j < numofReadings, (∀ r ∈ rs, ¬ Replaces m p r j) →
    m'.rows (p * numofReadings + j) = m.rows (p * numofReadings + j)
  replaced : ∀ j < numofReadings, (∃ r ∈ rs, Replaces m p r j) →
    m'.rows (p * numofReadings + j) ∈ rs ∧
      (m'.rows (p * numofReadings + j)).number = (m'.rows.head p).number

section Run

variable {m m' : Manifest} {nodeID : BitVec 8} {p : ℕ} {rs : List Information} {r : Information}

theorem deliver_append (m : Manifest) (rs rs' : List Information) :
    deliver m (rs ++ rs') = (deliver m rs).bind fun m' => deliver m' rs' := List.foldlM_append

@[simp] theorem deliver_cons (m : Manifest) (r : Information) (rs : List Information) :
    deliver m (r :: rs) = (addIncomingCurrInfoToMyManifest m r).bind fun m' => deliver m' rs :=
  List.foldlM_cons

@[simp] theorem deliver_singleton (m : Manifest) (r : Information) :
    deliver m [r] = addIncomingCurrInfoToMyManifest m r := by
  rw [deliver_cons]
  exact Option.bind_fun_some _

theorem Delivered.number_le (D : Delivered m nodeID p rs m') (hr : r ∈ rs) :
    r.number ≤ (m'.rows.head p).number := by
  by_contra hlt
  exact absurd (((D.older _).1 (not_le.1 hlt)).2 r hr) (lt_irrefl _)

/-- After the run, a reading writes over the rows it would have written over before, if it is newer
than row `0`. -/
theorem Delivered.replaces_iff (D : Delivered m nodeID p rs m') {j : ℕ} (hj : j < numofReadings) :
    Replaces m' p r j ↔ (m'.rows.head p).number < r.number ∧ Replaces m p r j := by
  have hrow : (m'.rows.head p).number < r.number → ∀ i ≤ j,
      ((m'.rows (p * numofReadings + i)).number < r.number ↔
        (m.rows (p * numofReadings + i)).number < r.number) := by
    intro hnew i hi
    by_cases h : ∃ x ∈ rs, Replaces m p x i
    · obtain ⟨x, hx, hrep⟩ := h
      rw [(D.replaced i (by omega) ⟨x, hx, hrep⟩).2]
      have hold := hrep.2 i le_rfl
      have := D.number_le hx
      exact iff_of_true hnew (by omega)
    · rw [D.kept i (by omega) fun x hx hrep => h ⟨x, hx, hrep⟩]
  unfold Replaces
  rw [D.numofNodes]
  constructor
  · rintro ⟨hn, hall⟩
    have hnew : (m'.rows.head p).number < r.number := hall 0 (Nat.zero_le j)
    exact ⟨hnew, hn, fun i hi => (hrow hnew i hi).1 (hall i hi)⟩
  · rintro ⟨hnew, hn, hall⟩
    exact ⟨hn, fun i hi => (hrow hnew i hi).2 (hall i hi)⟩

/-- If a reading leaves a row alone that it or one before it was to write over, it is not newer
than row `0`, and one before it has written over the row. -/
theorem Delivered.replaced_before (D : Delivered m nodeID p rs m') {j : ℕ}
    (hj : j < numofReadings) (hnow : ¬ Replaces m' p r j) {x : Information}
    (hx : x ∈ rs ∨ x ∈ [r]) (hrep : Replaces m p x j) :
    r.number ≤ (m'.rows.head p).number ∧ ∃ y ∈ rs, Replaces m p y j := by
  have hnot : ¬ ((m'.rows.head p).number < r.number ∧ Replaces m p r j) :=
    fun h => hnow ((D.replaces_iff hj).2 h)
  rcases hx with hx | hx
  · refine ⟨?_, x, hx, hrep⟩
    by_contra hlt
    refine hnot ⟨not_le.1 hlt, hrep.1, fun i hi => ?_⟩
    have := hrep.2 i hi
    have := D.number_le hx
    omega
  · obtain rfl := List.mem_singleton.1 hx
    have hle : x.number ≤ (m'.rows.head p).number := by
      by_contra hlt
      exact hnot ⟨not_le.1 hlt, hrep⟩
    refine ⟨hle, ?_⟩
    by_contra hno
    refine absurd ((D.older x.number).2 ⟨hrep.head, ?_⟩) (not_lt.2 hle)
    intro y hy
    by_contra hlt
    refine hno ⟨y, hy, hrep.1, fun i hi => ?_⟩
    have := hrep.2 i hi
    omega

/-- One more delivery. -/
theorem Delivered.snoc (D : Delivered m nodeID p rs m') (hr : r.nodeID = nodeID) :
    ∃ m'', addIncomingCurrInfoToMyManifest m' r = some m'' ∧
      Delivered m nodeID p (rs ++ [r]) m'' := by
  subst hr
  obtain ⟨m'', hm'', hpage, hnodes, hrows⟩ := addIncoming_known D.page
  have hzero : Replaces m' p r 0 ↔ (m'.rows.head p).number < r.number :=
    replaces_zero_iff D.page.belongs.numofNodes_pos
  -- row `0` keeps the greater number
  have hhead : (m''.rows.head p).number = max (m'.rows.head p).number r.number := by
    obtain ⟨hnew, hold⟩ := hrows 0 (by decide)
    by_cases hrep : Replaces m' p r 0
    · have h₀ : m''.rows.head p = r := hnew hrep
      rw [h₀, max_eq_right (Nat.le_of_lt hrep.head)]
    · have h₀ : m''.rows.head p = m'.rows.head p := hold hrep
      rw [h₀, max_eq_left (not_lt.1 (mt hzero.2 hrep))]
  refine ⟨m'', hm'', hpage, hnodes.trans D.numofNodes, ?_, ?_, ?_⟩
  · intro x
    rw [hhead, max_lt_iff, D.older x, List.forall_mem_append, List.forall_mem_singleton, and_assoc]
  · intro j hj hnone
    have hlast := hnone r (by simp)
    rw [(hrows j hj).2 fun h => hlast ((D.replaces_iff hj).1 h).2]
    exact D.kept j hj fun x hx => hnone x (List.mem_append_left _ hx)
  · rintro j hj ⟨x, hx, hrep⟩
    by_cases hnow : Replaces m' p r j
    · have hlt := hnow.head
      rw [(hrows j hj).1 hnow, hhead]
      exact ⟨by simp, by omega⟩
    · obtain ⟨hle, hy⟩ := D.replaced_before hj hnow (List.mem_append.1 hx) hrep
      obtain ⟨hmem, hnumber⟩ := D.replaced j hj hy
      rw [(hrows j hj).2 hnow, hhead, max_eq_left hle]
      exact ⟨List.mem_append_left _ hmem, hnumber⟩

/-- **What a run of deliveries does to the page of the node.** -/
theorem deliver_known (hp : FirstPage m nodeID p) (hrs : ∀ r ∈ rs, r.nodeID = nodeID) :
    ∃ m', deliver m rs = some m' ∧ Delivered m nodeID p rs m' := by
  induction rs using List.reverseRecOn with
  | nil => exact ⟨m, rfl, hp, rfl, by simp, fun _ _ _ => rfl, by simp⟩
  | append_singleton rs r ih =>
      obtain ⟨m', hm', D⟩ := ih fun x hx => hrs x (List.mem_append_left _ hx)
      obtain ⟨m'', hm'', D'⟩ := D.snoc (hrs r (by simp))
      exact ⟨m'', by rw [deliver_append, hm', Option.bind_some, deliver_singleton, hm''], D'⟩

/-- Row `0` has not changed since the reading `i` if it has the number of that reading. -/
theorem Delivered.head_eq {mk : Manifest} {i k n : ℕ} (D : Delivered m nodeID p (rs.take n) m')
    (Dk : Delivered m nodeID p (rs.take k) mk) (hik : i < k) (hkn : k ≤ n)
    (hr : rs[i]? = some r) (hnumber : r.number = (m'.rows.head p).number) :
    (mk.rows.head p).number = r.number := by
  refine le_antisymm ?_ ?_
  · by_contra hlt
    refine absurd ((Dk.older (mk.rows.head p).number).2 ⟨?_, ?_⟩) (lt_irrefl _)
    · have := (D.older ((m'.rows.head p).number + 1)).1 (Nat.lt_succ_self _)
      omega
    · intro x hx
      have := D.number_le (List.take_subset_take_left _ hkn hx)
      omega
  · refine Dk.number_le (List.mem_of_getElem? (i := i) ?_)
    rw [List.getElem?_take_of_lt hik, hr]

/-- What is on the page stood there before the run or was delivered. -/
theorem Delivered.mem_or_mem (D : Delivered m nodeID p rs m') (hr : r ∈ m'.rows.page p) :
    r ∈ m.rows.page p ∨ r ∈ rs := by
  obtain ⟨j, hj, hrow⟩ := mem_page.1 hr
  by_cases hrep : ∃ x ∈ rs, Replaces m p x j
  · exact Or.inr (hrow ▸ (D.replaced j hj hrep).1)
  · rw [D.kept j hj fun x hx h => hrep ⟨x, hx, h⟩] at hrow
    exact Or.inl (mem_page.2 ⟨j, hj, hrow⟩)

/-- A reading is on the page after its delivery exactly if it was there before or is newer than
row `0`. -/
theorem Delivered.shows_iff {n : ℕ} (hm' : deliver m (rs.take n) = some m')
    (D : Delivered m nodeID p (rs.take n) m') (hr : rs[n]? = some r) (hid : r.nodeID = nodeID) :
    Shows m p rs (n + 1) n ↔
      r ∈ m'.rows.page p ∨ (m'.rows.head p).number < r.number := by
  subst hid
  obtain ⟨m'', hm'', -, -, hrows⟩ := addIncoming_known D.page
  have hrun : deliver m (rs.take (n + 1)) = some m'' := by
    rw [List.take_add_one, hr, Option.toList_some, deliver_append, hm', Option.bind_some,
      deliver_singleton, hm'']
  have hshows : Shows m p rs (n + 1) n ↔ r ∈ m''.rows.page p := by
    constructor
    · rintro ⟨m₁, r₁, hm₁, hr₁, hmem⟩
      obtain rfl := Option.some_inj.1 (hm₁.symm.trans hrun)
      obtain rfl := Option.some_inj.1 (hr₁.symm.trans hr)
      exact hmem
    · intro hmem
      exact ⟨m'', r, hrun, hr, hmem⟩
  rw [hshows]
  constructor
  · intro hmem
    obtain ⟨j, hj, hrow⟩ := mem_page.1 hmem
    by_cases hrep : Replaces m' p r j
    · exact Or.inr hrep.head
    · rw [(hrows j hj).2 hrep] at hrow
      exact Or.inl (mem_page.2 ⟨j, hj, hrow⟩)
  · rintro (hmem | hnew)
    · obtain ⟨j, hj, hrow⟩ := mem_page.1 hmem
      refine mem_page.2 ⟨j, hj, ?_⟩
      by_cases hrep : Replaces m' p r j
      · exact (hrows j hj).1 hrep
      · exact ((hrows j hj).2 hrep).trans hrow
    · have hrep := (replaces_zero_iff D.page.belongs.numofNodes_pos).2 hnew
      exact mem_page.2 ⟨0, by decide, (hrows 0 (by decide)).1 hrep⟩

end Run

/-! ### The page of a sender -/

/-- The reading `n` of a run has not wrapped, and is newer than row `0` was before the run. -/
def Unwrapped (m : Manifest) (p : ℕ) (s : Sender) (n : ℕ) : Prop :=
  (m.rows.head p).number < s.nextNumber + n ∧ s.nextNumber + n < 2 ^ 16

/-- The reading `n` stood on the page before the run, in a row that no earlier reading writes
over. -/
def StoodThere (m : Manifest) (p : ℕ) (rs : List Information) (n : ℕ) : Prop :=
  ∃ j < numofReadings, rs[n]? = some (m.rows (p * numofReadings + j)) ∧
    ∀ r ∈ rs.take n, ¬ Replaces m p r j

section Sending

variable {m m' : Manifest} {p : ℕ} {curr_ID : BitVec 32} {s : Sender} {gps : List GpsInput}

/-- The page of the sender after some of its readings were delivered. -/
theorem deliver_sent (hp : FirstPage m (curr_ID.setWidth 8) p) (s : Sender) (gps : List GpsInput)
    (n : ℕ) : ∃ m', deliver m ((sent curr_ID s gps).take n) = some m' ∧
      Delivered m (curr_ID.setWidth 8) p ((sent curr_ID s gps).take n) m' :=
  deliver_known hp fun _ hr => nodeID_sent (List.mem_of_mem_take hr)

/-- A reading is newer than all that was delivered before it exactly if it has not wrapped. -/
theorem Delivered.newer_iff {n : ℕ} {r : Information}
    (D : Delivered m (curr_ID.setWidth 8) p ((sent curr_ID s gps).take n) m')
    (hr : (sent curr_ID s gps)[n]? = some r) :
    (m'.rows.head p).number < r.number ↔ Unwrapped m p s n := by
  have hlast := number_sent hr
  have hstart : s.nextNumber < 2 ^ 16 := Nat.mod_lt _ (by decide)
  have hlen : n < (sent curr_ID s gps).length := (List.getElem?_eq_some_iff.1 hr).1
  rw [D.older, Unwrapped]
  constructor
  · rintro ⟨hhead, hall⟩
    have hwrap : s.nextNumber + n < 2 ^ 16 := by
      by_contra hge
      -- the reading `65535` came before
      obtain ⟨i, hi⟩ : ∃ i, i = n - 1 - (s.nextNumber + n) % 2 ^ 16 := ⟨_, rfl⟩
      have hin : i < n := by omega
      have higet := List.getElem?_eq_getElem (Nat.lt_trans hin hlen)
      have hmem : (sent curr_ID s gps)[i] ∈ (sent curr_ID s gps).take n :=
        List.mem_of_getElem? (by rw [List.getElem?_take_of_lt hin, higet])
      have hlt := hall _ hmem
      rw [number_sent higet, hlast] at hlt
      omega
    rw [hlast, Nat.mod_eq_of_lt hwrap] at hhead
    exact ⟨hhead, hwrap⟩
  · rintro ⟨hhead, hwrap⟩
    rw [hlast, Nat.mod_eq_of_lt hwrap]
    refine ⟨hhead, ?_⟩
    intro x hx
    obtain ⟨i, hi⟩ := List.getElem?_of_mem hx
    rw [List.getElem?_take] at hi
    obtain ⟨hin, hi⟩ := Option.ite_none_right_eq_some.1 hi
    rw [number_sent hi]
    omega

/-- If the page shows the readings between two with the same number, the later one has not found
the earlier one on the page: there are not enough rows for those between them. -/
theorem not_shown_again (hp : FirstPage m (curr_ID.setWidth 8) p) {i n : ℕ} {r : Information}
    (hshows : ∀ k < n, Shows m p (sent curr_ID s gps) (k + 1) k)
    (D : Delivered m (curr_ID.setWidth 8) p ((sent curr_ID s gps).take n) m')
    (hr : (sent curr_ID s gps)[i]? = some r) (hnumber : r.number = (m'.rows.head p).number) :
    n < i + numofReadings + 2 := by
  by_contra hge
  have hkept : ∀ k : Fin (numofReadings + 1), ∃ j : Fin numofReadings,
      (m.rows (p * numofReadings + j)).number = (s.nextNumber + (i + 1 + k)) % 2 ^ 16 := by
    intro k
    have hk : i + 1 + k < n := by omega
    obtain ⟨mk, rk, hmk, hrk, hmem⟩ := hshows _ hk
    obtain ⟨mk', hmk', Dk⟩ := deliver_sent hp s gps (i + 1 + k + 1)
    obtain rfl := Option.some_inj.1 (hmk.symm.trans hmk')
    obtain ⟨j, hj, hrow⟩ := mem_page.1 hmem
    have hrknumber := number_sent hrk
    have hhead := D.head_eq Dk (by omega) (by omega) hr hnumber
    refine ⟨⟨j, hj⟩, ?_⟩
    by_cases hrep : ∃ x ∈ (sent curr_ID s gps).take (i + 1 + k + 1), Replaces m p x j
    · have := (Dk.replaced j hj hrep).2
      rw [hrow, hhead, hrknumber, number_sent hr] at this
      have := k.2
      unfold numofReadings at this
      omega
    · rw [Dk.kept j hj fun x hx h => hrep ⟨x, hx, h⟩] at hrow
      rw [hrow, hrknumber]
  choose j hj using hkept
  obtain ⟨k, k', hne, hkk'⟩ := Fintype.exists_ne_map_eq_of_card_lt j (by simp)
  have hsame := hj k
  rw [hkk', hj k'] at hsame
  have := k.2
  have := k'.2
  unfold numofReadings at *
  omega

/-- The page shows the reading `n` exactly if it has not wrapped, or an equal one is there. -/
theorem shows_sent_iff (hp : FirstPage m (curr_ID.setWidth 8) p) {n : ℕ} {r : Information}
    (hr : (sent curr_ID s gps)[n]? = some r) :
    ∃ m', Delivered m (curr_ID.setWidth 8) p ((sent curr_ID s gps).take n) m' ∧
      (Shows m p (sent curr_ID s gps) (n + 1) n ↔
        r ∈ m'.rows.page p ∨ Unwrapped m p s n) := by
  obtain ⟨m', hm', D⟩ := deliver_sent hp s gps n
  refine ⟨m', D, ?_⟩
  rw [D.shows_iff hm' hr (nodeID_sent (List.mem_of_getElem? hr)), D.newer_iff hr]

/-- **The page shows every reading of a run exactly if each has not wrapped and is newer than the
page, or stood on the page already.** -/
theorem known_page_iff (hp : FirstPage m (curr_ID.setWidth 8) p) (s : Sender)
    (gps : List GpsInput) :
    (∀ n < gps.length, Shows m p (sent curr_ID s gps) (n + 1) n) ↔
      ∀ n < gps.length, Unwrapped m p s n ∨ StoodThere m p (sent curr_ID s gps) n := by
  have hget : ∀ n < gps.length, ∃ r, (sent curr_ID s gps)[n]? = some r := by
    intro n hn
    exact ⟨_, List.getElem?_eq_getElem (by simpa using hn)⟩
  constructor
  · intro hall n hn
    obtain ⟨r, hr⟩ := hget n hn
    obtain ⟨m', D, hiff⟩ := shows_sent_iff hp hr
    rcases hiff.1 (hall n hn) with hmem | hnew
    · right
      obtain ⟨j, hj, hrow⟩ := mem_page.1 hmem
      have hkept : ∀ x ∈ (sent curr_ID s gps).take n, ¬ Replaces m p x j := by
        intro x hx hrep
        -- an equal reading was delivered, a whole round of numbers before
        obtain ⟨hbefore, hnumber⟩ := D.replaced j hj ⟨x, hx, hrep⟩
        rw [hrow] at hbefore hnumber
        obtain ⟨i, hi⟩ := List.getElem?_of_mem hbefore
        rw [List.getElem?_take] at hi
        obtain ⟨hin, hi⟩ := Option.ite_none_right_eq_some.1 hi
        have hsoon := not_shown_again hp (fun k hk => hall k (by omega)) D hi hnumber
        have hsame := (number_sent hi).symm.trans (number_sent hr)
        unfold numofReadings at hsoon
        omega
      refine ⟨j, hj, ?_, hkept⟩
      rw [hr, ← hrow, D.kept j hj hkept]
    · exact Or.inl hnew
  · intro hall n hn
    obtain ⟨r, hr⟩ := hget n hn
    obtain ⟨m', D, hiff⟩ := shows_sent_iff hp hr
    refine hiff.2 ?_
    rcases hall n hn with hnew | ⟨j, hj, hrow, hkept⟩
    · exact Or.inr hnew
    · refine Or.inl (mem_page.2 ⟨j, hj, ?_⟩)
      rw [D.kept j hj hkept]
      exact Option.some_inj.1 (hrow.symm.trans hr)

end Sending

/-! ### A page that knows one reading -/

/-- The fix of a node on the equator, at midnight or at one o'clock. -/
def equator (hour : BitVec 8) : GpsInput := ⟨0, 0, 0, hour, 0, 0⟩

/-- A manifest with the first reading of node `1`, taken at midnight, on every row of page `0`. -/
def firstReadingPage : Manifest where
  rows i := if i < numofReadings then fillIn 0 1 (equator 0) else Information.zero
  numofNodes := initialNumofNodes

theorem firstPage_firstReadingPage : FirstPage firstReadingPage 1 0 :=
  ⟨⟨by decide, rfl⟩, fun q hq => absurd hq (Nat.not_lt_zero q)⟩

/-- The first three readings of node `1` are shown as they arrive. -/
theorem known_page_three :
    Shows firstReadingPage 0 (sent 1 Sender.boot (List.replicate 3 (equator 0))) 1 0 ∧
    Shows firstReadingPage 0 (sent 1 Sender.boot (List.replicate 3 (equator 0))) 2 1 ∧
    Shows firstReadingPage 0 (sent 1 Sender.boot (List.replicate 3 (equator 0))) 3 2 := by
  have hall : ∀ n < (List.replicate 3 (equator 0)).length,
      Shows firstReadingPage 0 (sent 1 Sender.boot (List.replicate 3 (equator 0))) (n + 1) n := by
    refine (known_page_iff firstPage_firstReadingPage Sender.boot _).2 ?_
    intro n hn
    cases n with
    | zero => exact Or.inr ⟨0, by decide, rfl, by simp⟩
    | succ n =>
        left
        have hn : n + 1 < 3 := hn
        constructor
        · change 0 < 0 + (n + 1)
          omega
        · change 0 + (n + 1) < 2 ^ 16
          omega
  exact ⟨hall 0 (by decide), hall 1 (by decide), hall 2 (by decide)⟩

/-- The reading after `65535`, the first one taken at one o'clock, is not shown: it carries the
number `0` again. -/
theorem wrapped_reading_lost :
    ¬ ∀ n < (List.replicate (2 ^ 16) (equator 0) ++ [equator 1]).length,
      Shows firstReadingPage 0
        (sent 1 Sender.boot (List.replicate (2 ^ 16) (equator 0) ++ [equator 1])) (n + 1) n := by
  intro hall
  have hlen : (List.replicate (2 ^ 16) (equator 0)).length = 2 ^ 16 := List.length_replicate
  have hlast : (sent 1 Sender.boot (List.replicate (2 ^ 16) (equator 0) ++ [equator 1]))[2 ^ 16]? =
      some (fillIn (0 + BitVec.ofNat 32 (2 ^ 16)) 1 (equator 1)) := by
    rw [sent_getElem?, List.getElem?_append_right (Nat.le_of_eq hlen), hlen, Nat.sub_self]
    rfl
  have hshows := hall (2 ^ 16) (by rw [List.length_append, hlen]; exact Nat.lt_succ_self _)
  obtain ⟨m', D, hiff⟩ := shows_sent_iff firstPage_firstReadingPage hlast
  rcases hiff.1 hshows with hmem | hnew
  · -- everything that is on the page was measured at midnight
    have hmidnight : ∀ x ∈ m'.rows.page 0, x.currHour = 0 := by
      intro x hx
      rcases D.mem_or_mem hx with hx | hx
      · obtain ⟨j, hj, rfl⟩ := mem_page.1 hx
        rw [Nat.zero_mul, Nat.zero_add]
        simp only [firstReadingPage, if_pos hj]
        rfl
      · obtain ⟨i, hi⟩ := List.getElem?_of_mem hx
        rw [List.getElem?_take] at hi
        obtain ⟨hin, hi⟩ := Option.ite_none_right_eq_some.1 hi
        rw [sent_getElem?, List.getElem?_append_left (by rw [hlen]; exact hin),
          List.getElem?_replicate_of_lt hin] at hi
        obtain rfl := Option.some_inj.1 hi
        rfl
    exact absurd (hmidnight _ hmem) (by decide)
  · exact absurd hnew.2 (by simp)

end Node0

end LoRaGPS
