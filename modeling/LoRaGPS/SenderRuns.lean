/-
**Runs of the sketch with the array of pages.**

`Node0_sender.ino` has an array of two pages, takes a reading in every iteration, and adds what it
receives.  Two slips decide what a run does.  The position at which a reading is written goes one
row too far, so that every fourth reading lands on row `0` of the second page, which then belongs
to the node itself; and the page of a new node is written past the array.  So a run writes to the
array only exactly as long as no other node with an ID of its own is heard, and a node that hears
nobody shows its last three readings on its page after every fourth iteration only.

Main definitions:

* `LoRaGPS.Node0.Round`, `LoRaGPS.Node0.Sender.loop`, `LoRaGPS.Node0.Sender.run` — the runs;
* `LoRaGPS.Node0.Confined` — the manifest has kept to its array;
* `LoRaGPS.Node0.HasPage` — a reading for which there is a page in an iteration.

Main results:

* `LoRaGPS.Node0.Confined.addIncoming_iff` — when adding a reading keeps to the array;
* `LoRaGPS.Node0.confined_iff` — **a run keeps to the array exactly if every reading received has a
  page**;
* `LoRaGPS.Node0.own_page_iff` — **the page of the node shows its last three readings in the first
  three iterations and after every fourth**.
-/

import LoRaGPS.Redelivery
import Mathlib.Data.List.DropRight

set_option relaxedAutoImplicit false
set_option autoImplicit false

namespace LoRaGPS

namespace Node0

/-! ### The runs -/

/-- What an iteration works on: what the GPS shows, and the reading received in step 3, if there
is one. -/
structure Round where
  gps : GpsInput
  received : Option Information
deriving DecidableEq, Repr

/-- One iteration of `loop()`; what step 2 sends does not change the globals. -/
def Sender.loop (curr_ID : BitVec 32) (s : Sender) (e : Round) : Option Sender :=
  let s := s.step1 curr_ID e.gps
  match e.received with
  | none => some s
  | some incoming_curr_info =>
      (addIncomingCurrInfoToMyManifest s.manifest incoming_curr_info).map fun m =>
        { s with manifest := m }

/-- The globals as they are initialised, with `behind` in the memory behind the array. -/
def Sender.bootWith (behind : Rows) : Sender :=
  { Sender.boot with
    manifest :=
      { rows := fun i => if i < initialNumofNodes * numofReadings then Information.zero else behind i
        numofNodes := initialNumofNodes } }

/-- The iterations `es`. -/
def Sender.run (curr_ID : BitVec 32) (behind : Rows) (es : List Round) : Option Sender :=
  es.foldlM (Sender.loop curr_ID) (Sender.bootWith behind)

theorem Sender.run_append (curr_ID : BitVec 32) (behind : Rows) (es : List Round) (e : Round) :
    Sender.run curr_ID behind (es ++ [e]) =
      (Sender.run curr_ID behind es).bind fun s => s.loop curr_ID e := by
  rw [Sender.run, List.foldlM_append]
  simp [Sender.run]

/-! ### Keeping to the array -/

/-- No page was added, and the memory behind the array is as it was. -/
structure Confined (behind : Rows) (m : Manifest) : Prop where
  numofNodes : m.numofNodes = initialNumofNodes
  memory : ∀ i, initialNumofNodes * numofReadings ≤ i → m.rows i = behind i

/-- Adding a reading of a node that has a page keeps to the array, and the pages with their
nodes. -/
theorem Confined.addIncoming {behind : Rows} {m : Manifest} (K : Confined behind m)
    {r : Information} {p : ℕ} (hp : Belongs m r.nodeID p) :
    ∃ m', addIncomingCurrInfoToMyManifest m r = some m' ∧ Confined behind m' ∧
      ∀ q, (m'.rows.head q).nodeID = (m.rows.head q).nodeID := by
  have hn : m.numofNodes ≤ numofReadings := by
    rw [K.numofNodes]
    decide
  obtain ⟨m', hm', G, -, hothers⟩ := addIncoming_grows hn hp
  refine ⟨m', hm', ⟨G.numofNodes.trans K.numofNodes, ?_⟩, G.owner⟩
  intro i hi
  rw [← K.memory i hi]
  obtain ⟨q, j, hj, rfl⟩ := exists_page_row i
  have hq : ¬ q < m.numofNodes := by
    rw [K.numofNodes]
    intro hlt
    have := Nat.mul_le_mul_right numofReadings hlt
    rw [Nat.succ_mul] at this
    omega
  -- the row is on a page behind the array, and no such page is updated
  have hpage := congrArg (fun l => l[j]?) (hothers q fun h => hq h.1)
  simpa [Rows.page, hj] using hpage

/-- **Adding a reading keeps to the array exactly if its node has a page.** -/
theorem Confined.addIncoming_iff {behind : Rows} {m m' : Manifest} (K : Confined behind m)
    {r : Information} (h : addIncomingCurrInfoToMyManifest m r = some m') :
    Confined behind m' ↔ ∃ p, Belongs m r.nodeID p := by
  constructor
  · intro K'
    by_contra hnone
    push Not at hnone
    rw [addIncoming_new fun q hq e => hnone q ⟨hq, e⟩] at h
    obtain rfl := Option.some_inj.1 h
    have hcount := K'.numofNodes
    rw [addPage_eq, K.numofNodes] at hcount
    exact absurd hcount (Nat.succ_ne_self initialNumofNodes)
  · rintro ⟨p, hp⟩
    obtain ⟨m'', hm'', K'', -⟩ := K.addIncoming hp
    obtain rfl := Option.some_inj.1 (h.symm.trans hm'')
    exact K''

/-! ### The nodes of the two pages -/

/-- The ID that the readings of the node carry. -/
def ownID (curr_ID : BitVec 32) : BitVec 8 := curr_ID.setWidth 8

/-- After `n` iterations that have kept to the array: the first page is that of the node, and the
second one is nobody's until the fourth reading is written to it. -/
structure Kept (curr_ID : BitVec 32) (behind : Rows) (n : ℕ) (s : Sender) : Prop where
  confined : Confined behind s.manifest
  writer : s.posofManifestDataWriter = n % (numofReadings + 1)
  first : 0 < n → (s.manifest.rows.head 0).nodeID = ownID curr_ID
  second : (s.manifest.rows.head 1).nodeID = if n ≤ numofReadings then 0 else ownID curr_ID

theorem kept_boot (curr_ID : BitVec 32) (behind : Rows) :
    Kept curr_ID behind 0 (Sender.bootWith behind) := by
  refine ⟨⟨rfl, ?_⟩, rfl, fun h => absurd h (Nat.lt_irrefl 0), rfl⟩
  intro i hi
  exact if_neg (Nat.not_lt.2 hi)

section Steps

variable {curr_ID : BitVec 32} {behind : Rows} {n : ℕ} {s : Sender}

/-- Step 1 writes one row, which may be the one behind the page. -/
theorem Sender.step1_rows (curr_ID : BitVec 32) (s : Sender) (gps : GpsInput) (i : ℕ) :
    (s.step1 curr_ID gps).manifest.rows i =
      if i = s.posofManifestDataWriter then fillIn s.readingCounter curr_ID gps
      else s.manifest.rows i := by
  simp [Sender.step1, Function.update_apply]

/-- Taking a reading keeps to the array: the row behind the page is still in it. -/
theorem Kept.step1 (K : Kept curr_ID behind n s) (gps : GpsInput) :
    Kept curr_ID behind (n + 1) (s.step1 curr_ID gps) := by
  have hwriter : s.posofManifestDataWriter = n % 4 := K.writer
  refine ⟨⟨K.confined.numofNodes, ?_⟩, ?_, ?_, ?_⟩
  · intro i hi
    have hsix : 6 ≤ i := hi
    rw [Sender.step1_rows, if_neg (by omega)]
    exact K.confined.memory i hi
  · change (if s.posofManifestDataWriter + 1 > 3 then 0 else s.posofManifestDataWriter + 1) =
      (n + 1) % 4
    split <;> omega
  · intro _
    rw [Rows.head, Sender.step1_rows]
    split
    · rfl
    · exact K.first (by omega)
  · -- the fourth reading is the first one that is written to the second page
    have hsecond : (s.manifest.rows 3).nodeID = if n ≤ 3 then 0 else ownID curr_ID := K.second
    change ((s.step1 curr_ID gps).manifest.rows 3).nodeID =
      if n + 1 ≤ 3 then 0 else ownID curr_ID
    rw [Sender.step1_rows]
    split
    · rw [if_neg (by omega)]
      rfl
    · rw [hsecond]
      simp only [show n + 1 ≤ 3 ↔ n ≤ 3 by omega]

/-- In the iteration `n` there is a page for the reading: it is one of the node itself, or it has
the ID of the empty second page while that is still there. -/
def HasPage (curr_ID : BitVec 32) (n : ℕ) (r : Information) : Prop :=
  r.nodeID = ownID curr_ID ∨ r.nodeID = 0 ∧ n < numofReadings

/-- This is what the search for a page finds. -/
theorem Kept.hasPage_iff (K : Kept curr_ID behind (n + 1) s) (r : Information) :
    HasPage curr_ID n r ↔ ∃ p, Belongs s.manifest r.nodeID p := by
  have htwo : s.manifest.numofNodes = 2 := K.confined.numofNodes
  have hfirst := K.first (Nat.succ_pos n)
  have hsecond := K.second
  constructor
  · rintro (hown | ⟨hzero, hn⟩)
    · exact ⟨0, by omega, hfirst.trans hown.symm⟩
    · rw [if_pos (Nat.succ_le_of_lt hn)] at hsecond
      exact ⟨1, by omega, hsecond.trans hzero.symm⟩
  · rintro ⟨p, hp, hr⟩
    obtain rfl | rfl : p = 0 ∨ p = 1 := by omega
    · exact Or.inl (hr.symm.trans hfirst)
    · rw [hsecond] at hr
      split at hr
      · rename_i hn
        exact Or.inr ⟨hr.symm, Nat.lt_of_succ_le hn⟩
      · exact Or.inl hr.symm

/-- **One more iteration keeps to the array exactly if there is a page for what it receives.** -/
theorem Kept.loop (K : Kept curr_ID behind n s) (e : Round) :
    ∃ s', s.loop curr_ID e = some s' ∧
      (Confined behind s'.manifest ↔ ∀ r ∈ e.received, HasPage curr_ID n r) ∧
      (Confined behind s'.manifest → Kept curr_ID behind (n + 1) s') := by
  have K₁ := K.step1 e.gps
  obtain ⟨gps, received⟩ := e
  cases received with
  | none => exact ⟨_, rfl, by simp [K₁.confined], fun _ => K₁⟩
  | some r =>
      obtain ⟨m', hm'⟩ := addIncoming_total (s.step1 curr_ID gps).manifest r
      have hiff := K₁.confined.addIncoming_iff hm'
      refine ⟨{ s.step1 curr_ID gps with manifest := m' }, by simp [Sender.loop, hm'], ?_, ?_⟩
      · rw [hiff, ← K₁.hasPage_iff]
        simp
      · intro hconfined
        obtain ⟨p, hp⟩ := hiff.1 hconfined
        obtain ⟨m'', hm'', -, howner⟩ := K₁.confined.addIncoming hp
        obtain rfl := Option.some_inj.1 (hm'.symm.trans hm'')
        refine ⟨hconfined, K₁.writer, ?_, ?_⟩
        · intro hn
          rw [howner]
          exact K₁.first hn
        · rw [howner]
          exact K₁.second

end Steps

/-! ### Whole runs -/

/-- Whatever is received in a run has a page when it is. -/
def HavePages (curr_ID : BitVec 32) (es : List Round) : Prop :=
  ∀ k e, es[k]? = some e → ∀ r ∈ e.received, HasPage curr_ID k r

theorem havePages_append {curr_ID : BitVec 32} {es : List Round} {e : Round} :
    HavePages curr_ID (es ++ [e]) ↔
      HavePages curr_ID es ∧ ∀ r ∈ e.received, HasPage curr_ID es.length r := by
  constructor
  · intro h
    refine ⟨?_, h es.length e (by simp)⟩
    intro k e' hk
    have hlt := (List.getElem?_eq_some_iff.1 hk).1
    exact h k e' (by rw [List.getElem?_append_left hlt, hk])
  · rintro ⟨hold, hnew⟩ k e' hk
    rcases Nat.lt_or_ge k es.length with hlt | hge
    · rw [List.getElem?_append_left hlt] at hk
      exact hold k e' hk
    · obtain ⟨hklen, rfl⟩ := List.getElem?_eq_some_iff.1 hk
      obtain rfl : k = es.length := by
        rw [List.length_append, List.length_singleton] at hklen
        omega
      simpa using hnew

/-- While everything that is received has a page, the run keeps to the array. -/
theorem run_kept {curr_ID : BitVec 32} {es : List Round} (h : HavePages curr_ID es)
    (behind : Rows) : ∃ s, Sender.run curr_ID behind es = some s ∧
      Kept curr_ID behind es.length s := by
  induction es using List.reverseRecOn with
  | nil => exact ⟨_, rfl, kept_boot curr_ID behind⟩
  | append_singleton es e ih =>
      obtain ⟨hold, hnew⟩ := havePages_append.1 h
      obtain ⟨s, hs, K⟩ := ih hold
      obtain ⟨s', hs', hiff, hkept⟩ := K.loop e
      refine ⟨s', by rw [Sender.run_append, hs, Option.bind_some, hs'], ?_⟩
      rw [List.length_append, List.length_singleton]
      exact hkept (hiff.2 hnew)

/-- **A run keeps to the array exactly if every reading received has a page when it is**: one of
the node itself always has, one with the ID `0` in the first three iterations, and one of another
node never. -/
theorem confined_iff (curr_ID : BitVec 32) (behind : Rows) (es : List Round) :
    (∀ k ≤ es.length, ∃ s, Sender.run curr_ID behind (es.take k) = some s ∧
      Confined behind s.manifest) ↔ HavePages curr_ID es := by
  constructor
  · intro h
    induction es using List.reverseRecOn with
    | nil => simp [HavePages]
    | append_singleton es e ih =>
        have hold : HavePages curr_ID es := by
          refine ih fun k hk => ?_
          have hprefix := h k (by rw [List.length_append]; omega)
          rwa [List.take_append_of_le_length hk] at hprefix
        obtain ⟨s, hs, K⟩ := run_kept hold behind
        obtain ⟨s', hs', hiff, -⟩ := K.loop e
        obtain ⟨s'', hs'', hconfined⟩ := h _ le_rfl
        rw [List.take_length, Sender.run_append, hs, Option.bind_some, hs'] at hs''
        obtain rfl := Option.some_inj.1 hs''
        exact havePages_append.2 ⟨hold, hiff.1 hconfined⟩
  · intro h k hk
    have htake : HavePages curr_ID (es.take k) := by
      intro j e hj
      rw [List.getElem?_take] at hj
      exact h j e (Option.ite_none_right_eq_some.1 hj).2
    obtain ⟨s, hs, K⟩ := run_kept htake behind
    exact ⟨s, hs, K.confined⟩

/-! ### The page of the node -/

/-- The iterations of a node that receives nothing. -/
def alone (gps : List GpsInput) : List Round := gps.map fun g => ⟨g, none⟩

/-- The last four readings are on the four rows that are written in turn. -/
structure InTurn (curr_ID : BitVec 32) (gps : List GpsInput) (s : Sender) : Prop where
  counter : s.readingCounter = BitVec.ofNat 32 gps.length
  row : ∀ k < gps.length, gps.length ≤ k + 4 →
    (sent curr_ID Sender.boot gps)[k]? = some (s.manifest.rows (k % 4))

theorem run_inTurn (curr_ID : BitVec 32) (behind : Rows) (gps : List GpsInput) :
    ∃ s, Sender.run curr_ID behind (alone gps) = some s ∧ InTurn curr_ID gps s ∧
      Kept curr_ID behind gps.length s := by
  induction gps using List.reverseRecOn with
  | nil =>
      exact ⟨_, rfl, ⟨rfl, fun k hk => absurd hk (Nat.not_lt_zero k)⟩, kept_boot curr_ID behind⟩
  | append_singleton gps g ih =>
      obtain ⟨s, hs, I, K⟩ := ih
      have hwriter : s.posofManifestDataWriter = gps.length % 4 := K.writer
      refine ⟨s.step1 curr_ID g, ?_, ⟨?_, ?_⟩, ?_⟩
      · rw [alone, List.map_append, List.map_singleton, Sender.run_append]
        change (Sender.run curr_ID behind (alone gps)).bind _ = _
        rw [hs, Option.bind_some]
        rfl
      · rw [List.length_append, List.length_singleton, BitVec.ofNat_add, ← I.counter]
        rfl
      · intro k hk hlast
        rw [List.length_append, List.length_singleton] at hk hlast
        rw [Sender.step1_rows, sent_getElem?, hwriter]
        rcases Nat.lt_or_ge k gps.length with hlt | hge
        · -- the row of an earlier reading is not the one that is written
          have hrow := I.row k hlt (by omega)
          rw [sent_getElem?] at hrow
          rw [if_neg (by omega), List.getElem?_append_left hlt, hrow]
        · obtain rfl : k = gps.length := by omega
          rw [if_pos rfl, I.counter]
          simp [Sender.boot]
      · rw [List.length_append, List.length_singleton]
        exact K.step1 g

/-- The last items of a list, by their places. -/
theorem mem_rtake {α : Type*} {l : List α} {n : ℕ} {x : α} :
    x ∈ l.rtake n ↔ ∃ k, l.length ≤ k + n ∧ l[k]? = some x := by
  rw [List.rtake, List.mem_iff_getElem?]
  simp only [List.getElem?_drop]
  constructor
  · rintro ⟨i, hi⟩
    exact ⟨l.length - n + i, by omega, hi⟩
  · rintro ⟨k, hk, hx⟩
    exact ⟨k - (l.length - n), by rw [← hx]; congr 1; omega⟩

section Page

variable {curr_ID : BitVec 32} {gps : List GpsInput} {s : Sender}

/-- The reading `k` of the last three is on the page if its row is. -/
theorem InTurn.mem_page_of_lt (I : InTurn curr_ID gps s) {k : ℕ} (hk : k < gps.length)
    (hlast : gps.length ≤ k + 4) (hrow : k % 4 < numofReadings) {r : Information}
    (hr : (sent curr_ID Sender.boot gps)[k]? = some r) : r ∈ s.manifest.rows.page 0 := by
  refine mem_page.2 ⟨k % 4, hrow, ?_⟩
  rw [Nat.zero_mul, Nat.zero_add]
  exact Option.some_inj.1 ((I.row k hk hlast).symm.trans hr)

/-- A reading that was written behind the page is not on it. -/
theorem InTurn.not_mem_page (I : InTurn curr_ID gps s) (hlen : numofReadings < gps.length) {k : ℕ}
    (hrow : k % 4 = numofReadings) {r : Information}
    (hr : (sent curr_ID Sender.boot gps)[k]? = some r) : r ∉ s.manifest.rows.page 0 := by
  have hthree : numofReadings = 3 := rfl
  intro hmem
  obtain ⟨j, hj, hrow'⟩ := mem_page.1 hmem
  rw [Nat.zero_mul, Nat.zero_add] at hrow'
  -- the row `j` holds one of the last four readings, and its number leaves the rest `j`
  obtain ⟨i, hi, hilast, rfl⟩ : ∃ i < gps.length, gps.length ≤ i + 4 ∧ i % 4 = j :=
    ⟨gps.length - 1 - (gps.length - 1 - j) % 4, by omega, by omega, by omega⟩
  have hnumber := number_sent hr
  have hother := number_sent (I.row i hi hilast)
  rw [hrow', hnumber] at hother
  omega

end Page

/-- **With nothing received, the page of a node shows its last three readings in the first three
iterations and after every fourth one, and at no other time**; from the fourth iteration on the
second page is that of the node as well. -/
theorem own_page_iff (curr_ID : BitVec 32) (behind : Rows) (gps : List GpsInput) :
    ∃ s, Sender.run curr_ID behind (alone gps) = some s ∧
      ((∀ r ∈ (sent curr_ID Sender.boot gps).rtake numofReadings, r ∈ s.manifest.rows.page 0) ↔
        gps.length ≤ numofReadings ∨ gps.length % (numofReadings + 1) = numofReadings) ∧
      (s.manifest.rows.head 1).nodeID =
        if gps.length ≤ numofReadings then 0 else ownID curr_ID := by
  have hthree : numofReadings = 3 := rfl
  obtain ⟨s, hs, I, K⟩ := run_inTurn curr_ID behind gps
  refine ⟨s, hs, ?_, K.second⟩
  constructor
  · intro h
    by_contra hnot
    rw [hthree] at hnot
    push Not at hnot
    -- one of the last three readings was written behind the page
    obtain ⟨k, hk, hlast, hrow⟩ :
        ∃ k < gps.length, gps.length ≤ k + 3 ∧ k % 4 = 3 :=
      ⟨gps.length - 1 - gps.length % 4, by omega, by omega, by omega⟩
    obtain ⟨r, hr⟩ : ∃ r, (sent curr_ID Sender.boot gps)[k]? = some r :=
      ⟨_, List.getElem?_eq_getElem (by simpa using hk)⟩
    refine I.not_mem_page (by omega) hrow hr (h r (mem_rtake.2 ⟨k, ?_, hr⟩))
    rwa [length_sent]
  · intro h r hr
    obtain ⟨k, hlast, hk⟩ := mem_rtake.1 hr
    have hlt : k < gps.length := by simpa using (List.getElem?_eq_some_iff.1 hk).1
    rw [length_sent] at hlast
    rw [hthree] at h hlast
    exact I.mem_page_of_lt hlt (by omega) (by omega) hk

end Node0

end LoRaGPS
