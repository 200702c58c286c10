/-
**The loop of the manifest node.**

One iteration of `loop()` of `Node1_rcvrTry2.5.ino` records the node's own reading twice, in the
queue on page `0` of the book and in a row of the array `manifest` under a hand-written cursor,
and then may pass one received record to `addIncomingCurrInfoToMyBookCalledManifest`.  The array
is kept as its rows in memory order, so that a row index past the end of `manifest[0]` is a row of
`manifest[1]`.  What the sketch prints is left out, and with it the row of the global
`thisNodesManifest` that it reads under the same cursor for a print, also past its last row.

Main definitions:

* `LoRaGPS.Node1`, `LoRaGPS.setup`, `LoRaGPS.step1`, `LoRaGPS.loop`, `LoRaGPS.run` — the code;
* `LoRaGPS.ownReadings` — the readings a node takes, as a function of the GPS input alone;
* `LoRaGPS.Inv` — what holds after every iteration.

Main results:

* `LoRaGPS.step1_inv`, `LoRaGPS.received_inv` — the two halves of an iteration;
* `LoRaGPS.run_inv` — **every run of the loop keeps the invariant**.
-/

import LoRaGPS.ManifestBook

set_option relaxedAutoImplicit false
set_option autoImplicit false

namespace LoRaGPS

open KeyedLog

/-! ### The code -/

/-- The location of a `gps_fix`, as the bit patterns of two doubles. -/
structure Fix where
  lat : BitVec 64
  lon : BitVec 64
deriving DecidableEq, Repr

/-- The globals of the sketch.  `readingCounter` is an `int` kept modulo `2 ^ 32`; `manifest` is
the array `manifest[initialNumofNodes].thisNodesManifest[NumofReadings]` row after row. -/
structure Node1 where
  readingCounter : BitVec 32
  posofManifestDataWriter : ℕ
  currInfo : Information
  manifest : List Information
  book : Book
  fix : Fix
deriving DecidableEq, Repr

/-- `initialNumofNodes`: the number of pages of the array. -/
def initialNumofNodes : ℕ := 2

/-- What reaches the sketch during one iteration: the fix read from the GPS, if there was input,
and the record received, if there was one. -/
structure Iteration where
  gps : Option Fix
  received : Option Information
deriving DecidableEq, Repr

/-- `setup()`: page `i` is allocated on memory that holds `heap i`, and the GPS library
initialised the fix to `fix₀`. -/
def setup (heap : ℕ → ℕ → Information) (fix₀ : Fix) : Option Node1 := do
  let pages ← (List.range maxNumNodes).mapM fun i => createQueue (heap i) numofReadings
  some { readingCounter := 0
         posofManifestDataWriter := 0
         currInfo := Information.zero
         manifest := List.replicate (initialNumofNodes * numofReadings) Information.zero
         book := ⟨pages, 1⟩
         fix := fix₀ }

/-- The record with the four fields the sketch fills in; `curr_Alt` is never assigned. -/
def fillIn (old : Information) (readingCounter : BitVec 32) (currID : BitVec 16) (fix : Fix) :
    Information :=
  { old with readingID := readingCounter.setWidth 16
             nodeID := currID
             currLat := fix.lat
             currLon := fix.lon }

/-- The assignments to the fields of `manifest[page].thisNodesManifest[row]`. -/
def writeRow (manifest : List Information) (page row : ℕ) (readingCounter : BitVec 32)
    (currID : BitVec 16) (fix : Fix) : Option (List Information) := do
  let old ← manifest[page * numofReadings + row]?
  Checked.store manifest (page * numofReadings + row) (fillIn old readingCounter currID fix)

/-- The cursor moves on; the sketch resets it when it is greater than `NumofReadings`. -/
def nextPos (posofManifestDataWriter : ℕ) : ℕ :=
  if posofManifestDataWriter + 1 > numofReadings then 0 else posofManifestDataWriter + 1

/-- Step 1 of `loop()`: read the GPS, record the own reading in the queue and in the array. -/
def step1 (blankarray : Information) (currID : BitVec 16) (node : Node1) (gps : Option Fix) :
    Option Node1 := do
  let fix := gps.getD node.fix
  let currInfo := fillIn node.currInfo node.readingCounter currID fix
  let pages ← enqueueOnPage blankarray node.book.aBookCalledManifest 0 currInfo
  let manifest ←
    writeRow node.manifest 0 node.posofManifestDataWriter node.readingCounter currID fix
  some { readingCounter := node.readingCounter + 1
         posofManifestDataWriter := nextPos node.posofManifestDataWriter
         currInfo := currInfo
         manifest := manifest
         book := { node.book with aBookCalledManifest := pages }
         fix := fix }

/-- Step 3 of `loop()`: a received record goes to the book. -/
def step3 (blankarray : Information) (node : Node1) : Option Information → Option Node1
  | none => some node
  | some incomingCurrInfo => do
      let book ← addIncomingCurrInfoToMyBookCalledManifest blankarray node.book incomingCurrInfo
      some { node with book := book }

/-- `loop()`. -/
def loop (blankarray : Information) (currID : BitVec 16) (node : Node1) (inp : Iteration) :
    Option Node1 := do
  let node ← step1 blankarray currID node inp.gps
  step3 blankarray node inp.received

/-- `setup()` and a number of iterations of `loop()`. -/
def run (heap : ℕ → ℕ → Information) (blankarray : Information) (currID : BitVec 16) (fix₀ : Fix)
    (ins : List Iteration) : Option Node1 := do
  let node ← setup heap fix₀
  ins.foldlM (loop blankarray currID) node

theorem run_append (heap : ℕ → ℕ → Information) (blankarray : Information) (currID : BitVec 16)
    (fix₀ : Fix) (ins : List Iteration) (inp : Iteration) :
    run heap blankarray currID fix₀ (ins ++ [inp]) =
      (run heap blankarray currID fix₀ ins).bind fun node => loop blankarray currID node inp := by
  unfold run
  cases setup heap fix₀ with
  | none => rfl
  | some node =>
      simp only [Option.bind_eq_bind, Option.bind_some, List.foldlM_append]
      cases ins.foldlM (loop blankarray currID) node <;> simp

/-! ### The readings a node takes -/

/-- The fix in use after a sequence of inputs from the GPS. -/
def fixAfter (fix₀ : Fix) (gps : List (Option Fix)) : Fix := gps.foldl (fun f g => g.getD f) fix₀

/-- The `j`-th own reading, taken with a fix. -/
def ownReading (currID : BitVec 16) (j : ℕ) (fix : Fix) : Information :=
  ⟨BitVec.ofNat 16 j, currID, fix.lat, fix.lon, 0⟩

/-- The readings a node takes: they depend on the GPS input alone. -/
def ownReadings (currID : BitVec 16) (fix₀ : Fix) (gps : List (Option Fix)) : List Information :=
  (List.range gps.length).map fun j => ownReading currID j (fixAfter fix₀ (gps.take (j + 1)))

@[simp] theorem length_ownReadings (currID : BitVec 16) (fix₀ : Fix) (gps : List (Option Fix)) :
    (ownReadings currID fix₀ gps).length = gps.length := by simp [ownReadings]

theorem fixAfter_append (fix₀ : Fix) (gps : List (Option Fix)) (g : Option Fix) :
    fixAfter fix₀ (gps ++ [g]) = g.getD (fixAfter fix₀ gps) := by
  rw [fixAfter, List.foldl_append]
  rfl

theorem ownReadings_append (currID : BitVec 16) (fix₀ : Fix) (gps : List (Option Fix))
    (g : Option Fix) :
    ownReadings currID fix₀ (gps ++ [g]) =
      ownReadings currID fix₀ gps ++
        [ownReading currID gps.length (fixAfter fix₀ (gps ++ [g]))] := by
  have hall : (gps ++ [g]).take (gps.length + 1) = gps ++ [g] :=
    List.take_of_length_le (by simp)
  rw [ownReadings, List.length_append, List.length_singleton, List.range_succ, List.map_append,
    List.map_singleton, hall]
  congr 1
  refine List.map_congr_left ?_
  intro j hj
  rw [List.take_append_of_le_length (by have := List.mem_range.1 hj; omega)]

theorem nodeID_of_mem_ownReadings {currID : BitVec 16} {fix₀ : Fix} {gps : List (Option Fix)}
    {r : Information} (h : r ∈ ownReadings currID fix₀ gps) : r.nodeID = currID := by
  obtain ⟨j, -, rfl⟩ := List.mem_map.1 h
  rfl

/-- Writing a row of the array, when the row is in the array. -/
theorem writeRow_eq {manifest : List Information} {row : ℕ} (hrow : row < manifest.length)
    (readingCounter : BitVec 32) (currID : BitVec 16) (fix : Fix) :
    ∃ old, manifest[row]? = some old ∧ writeRow manifest 0 row readingCounter currID fix =
      some (manifest.set row (fillIn old readingCounter currID fix)) := by
  have hget : manifest[0 * numofReadings + row]? = some manifest[row] := by
    rw [Nat.zero_mul, Nat.zero_add, List.getElem?_eq_getElem hrow]
  refine ⟨manifest[row], List.getElem?_eq_getElem hrow, ?_⟩
  rw [writeRow, Checked.bind_of_eq hget, Nat.zero_mul, Nat.zero_add, Checked.store_eq_some _ hrow]

/-- Writing the first unused row of an array. -/
theorem set_length_append_replicate (l : List Information) (m : ℕ) (x y : Information) :
    (l ++ List.replicate (m + 1) y).set l.length x = (l ++ [x]) ++ List.replicate m y := by
  rw [List.set_append_right _ _ (Nat.le_refl _), Nat.sub_self, List.replicate_succ,
    List.set_cons_zero, List.append_assoc, List.singleton_append]

theorem nextPos_mod (n : ℕ) :
    nextPos (n % (numofReadings + 1)) = (n + 1) % (numofReadings + 1) := by
  unfold nextPos numofReadings
  split <;> omega

/-- The record the sketch fills in is the own reading. -/
theorem fillIn_eq {old : Information} (hold : old.currAlt = 0) (currID : BitVec 16) (n : ℕ)
    (fix : Fix) : fillIn old (BitVec.ofNat 32 n) currID fix = ownReading currID n fix := by
  have hid : (BitVec.ofNat 32 n).setWidth 16 = BitVec.ofNat 16 n := by
    apply BitVec.eq_of_toNat_eq
    simp only [BitVec.toNat_setWidth, BitVec.toNat_ofNat]
    omega
  simp [fillIn, ownReading, hid, hold]

/-! ### The invariant of the loop -/

/-- The records received so far, in order. -/
def heard (ins : List Iteration) : List Information := ins.filterMap Iteration.received

theorem heard_append (ins : List Iteration) (inp : Iteration) :
    heard (ins ++ [inp]) = heard ins ++ inp.received.toList := by
  rw [heard, List.filterMap_append]
  cases h : inp.received <;> simp [heard, h]

/-- No record received carries the ID of the node. -/
def Foreign (currID : BitVec 16) (ins : List Iteration) : Prop :=
  ∀ inp ∈ ins, ∀ r, inp.received = some r → r.nodeID ≠ currID

/-- The pages of the other nodes, as long as the search still reaches them all: page `i + 1` is
the log of the `i`-th node heard. -/
def PagesInOrder (P : ℕ → List Information) (discovered : BitVec 32) (rs : List Information) :
    Prop :=
  (firstKeys Information.nodeID rs).length < numofReadings →
    (∀ i, P (1 + i) =
      logAt (recordAll Information.nodeID numofReadings (numofReadings - 1) rs) i) ∧
    discovered = BitVec.ofNat 32 ((firstKeys Information.nodeID rs).length + 1)

/-- What holds of the node after the inputs `gps` from the GPS and the records `rs`, with the
pages of the book holding `P`. -/
structure Inv (heap : ℕ → ℕ → Information) (blankarray : Information) (currID : BitVec 16)
    (fix₀ : Fix) (gps : List (Option Fix)) (rs : List Information) (node : Node1)
    (P : ℕ → List Information) : Prop where
  lastFix : node.fix = fixAfter fix₀ gps
  counter : node.readingCounter = BitVec.ofNat 32 gps.length
  cursor : node.posofManifestDataWriter = gps.length % (numofReadings + 1)
  currAlt : node.currInfo.currAlt = 0
  rows : node.manifest.length = initialNumofNodes * numofReadings
  filled : gps.length ≤ numofReadings → node.manifest = ownReadings currID fix₀ gps ++
    List.replicate (initialNumofNodes * numofReadings - gps.length) Information.zero
  holds : node.book.Holds P
  own : P 0 = (ownReadings currID fix₀ gps).rtake numofReadings
  page : ∃ queue₀ queue, createQueue (heap 0) numofReadings = some queue₀ ∧
    node.book.aBookCalledManifest[0]? = some queue ∧
    runCalls blankarray queue₀ ((ownReadings currID fix₀ gps).map .enqueue) = some queue
  others : PagesInOrder P node.book.numDiscoveredNodes rs

/-- The node after `setup()`. -/
theorem setup_inv (heap : ℕ → ℕ → Information) (blankarray : Information) (currID : BitVec 16)
    (fix₀ : Fix) : ∃ node P, setup heap fix₀ = some node ∧
      Inv heap blankarray currID fix₀ [] [] node P := by
  choose queue hqueue V using fun i => createQueue_valid numofReadings_pos (by decide) (heap i)
  have hmap : ((List.range maxNumNodes).mapM fun i => createQueue (heap i) numofReadings) =
      some ((List.range maxNumNodes).map queue) := by
    rw [show (fun i => createQueue (heap i) numofReadings) = fun i => pure (queue i) from
      funext hqueue]
    exact List.mapM_pure
  have hpage : ∀ i, i < maxNumNodes → ((List.range maxNumNodes).map queue)[i]? = some (queue i) :=
    fun i hi => by simp [hi]
  refine ⟨_, fun _ => [], Checked.bind_of_eq hmap _, ?_⟩
  exact { lastFix := rfl
          counter := rfl
          cursor := rfl
          currAlt := rfl
          rows := by simp
          filled := fun _ => by simp [ownReadings]
          holds := ⟨by simp, fun i hi => ⟨queue i, 0, hpage i hi, V i⟩⟩
          own := by simp [ownReadings]
          page := ⟨queue 0, queue 0, hqueue 0, hpage 0 maxNumNodes_pos, rfl⟩
          others := fun _ => ⟨fun i => by simp [recordAll, logAt], rfl⟩ }

section Steps

variable {heap : ℕ → ℕ → Information} {blankarray : Information} {currID : BitVec 16} {fix₀ : Fix}
  {gps : List (Option Fix)} {rs : List Information} {node : Node1} {P : ℕ → List Information}

/-- While the cursor is inside `manifest[0]`, the next row takes the next own reading. -/
theorem Inv.filled_succ (I : Inv heap blankarray currID fix₀ gps rs node P) (g : Option Fix)
    (hn : gps.length < numofReadings) {old : Information}
    (hold : node.manifest[node.posofManifestDataWriter]? = some old) :
    node.manifest.set node.posofManifestDataWriter
        (fillIn old node.readingCounter currID (fixAfter fix₀ (gps ++ [g]))) =
      ownReadings currID fix₀ (gps ++ [g]) ++
        List.replicate (initialNumofNodes * numofReadings - (gps.length + 1)) Information.zero := by
  have hpos : node.posofManifestDataWriter = (ownReadings currID fix₀ gps).length := by
    rw [I.cursor, Nat.mod_eq_of_lt (by omega), length_ownReadings]
  have hrep : initialNumofNodes * numofReadings - gps.length =
      (initialNumofNodes * numofReadings - (gps.length + 1)) + 1 := by
    unfold numofReadings at hn
    unfold initialNumofNodes numofReadings
    omega
  have hman := I.filled (by omega)
  rw [hrep] at hman
  have hzero : old = Information.zero := by
    rw [hpos, hman, List.getElem?_append_right (Nat.le_refl _), Nat.sub_self,
      List.replicate_succ] at hold
    exact (Option.some_inj.1 hold).symm
  rw [hpos, hzero, I.counter, fillIn_eq rfl, hman, set_length_append_replicate, ownReadings_append]

/-- Step 1 writes the own reading on page `0` and in the row of the cursor. -/
theorem step1_inv (I : Inv heap blankarray currID fix₀ gps rs node P) (g : Option Fix) :
    ∃ node', step1 blankarray currID node g = some node' ∧
      Inv heap blankarray currID fix₀ (gps ++ [g]) rs node' (Function.update P 0
        ((ownReadings currID fix₀ (gps ++ [g])).rtake numofReadings)) := by
  have hfix : g.getD node.fix = fixAfter fix₀ (gps ++ [g]) := by rw [fixAfter_append, I.lastFix]
  have hinfo : fillIn node.currInfo node.readingCounter currID (g.getD node.fix) =
      ownReading currID gps.length (fixAfter fix₀ (gps ++ [g])) := by
    rw [hfix, I.counter, fillIn_eq I.currAlt]
  have hlen : (gps ++ [g]).length = gps.length + 1 := by simp
  -- the queue on page `0`
  obtain ⟨queue, queue', hqueue, henq, hpages, H'⟩ := I.holds.enqueueOnPage blankarray
    maxNumNodes_pos (ownReading currID gps.length (fixAfter fix₀ (gps ++ [g])))
    node.book.numDiscoveredNodes
  rw [I.own, push_rtake, ← ownReadings_append] at H'
  obtain ⟨queue₀, queue₁, hqueue₀, hqueue₁, hcalls⟩ := I.page
  obtain rfl := Option.some_inj.1 (hqueue.symm.trans hqueue₁)
  -- the row of the array
  have hrow : node.posofManifestDataWriter < node.manifest.length := by
    rw [I.rows, I.cursor]
    unfold numofReadings initialNumofNodes
    omega
  obtain ⟨old, hold, hwrite⟩ :=
    writeRow_eq hrow node.readingCounter currID (fixAfter fix₀ (gps ++ [g]))
  refine ⟨{ readingCounter := node.readingCounter + 1
            posofManifestDataWriter := nextPos node.posofManifestDataWriter
            currInfo := ownReading currID gps.length (fixAfter fix₀ (gps ++ [g]))
            manifest := node.manifest.set node.posofManifestDataWriter
              (fillIn old node.readingCounter currID (fixAfter fix₀ (gps ++ [g])))
            book := { node.book with
              aBookCalledManifest := node.book.aBookCalledManifest.set 0 queue' }
            fix := fixAfter fix₀ (gps ++ [g]) }, ?_, ?_⟩
  · rw [step1, hinfo, Checked.bind_of_eq hpages, hfix, Checked.bind_of_eq hwrite]
  · exact { lastFix := rfl
            counter := by rw [hlen, BitVec.ofNat_add, ← I.counter]; rfl
            cursor := by rw [hlen, ← nextPos_mod, ← I.cursor]
            currAlt := rfl
            rows := by rw [List.length_set, I.rows]
            filled := fun hle => by
              rw [hlen] at hle ⊢
              exact I.filled_succ g (by omega) hold
            holds := H'
            own := Function.update_self _ _ _
            page := by
              refine ⟨queue₀, queue', hqueue₀, List.getElem?_set_self ?_, ?_⟩
              · rw [I.holds.pages]
                exact maxNumNodes_pos
              · rw [runCalls] at hcalls ⊢
                rw [ownReadings_append, List.map_append, List.foldlM_append, hcalls]
                simp [Queue.call, henq]
            others := fun hlt => by
              obtain ⟨hpg, hdisc⟩ := I.others hlt
              exact ⟨fun i => by rw [Function.update_of_ne (by omega)]; exact hpg i, hdisc⟩ }

/-- The node always has an own reading on page `0`. -/
theorem Inv.own_head (I : Inv heap blankarray currID fix₀ gps rs node P) (hgps : gps ≠ []) :
    ∃ head rest, P 0 = head :: rest ∧ head.nodeID = currID := by
  cases hP : P 0 with
  | nil =>
      have hlen := congrArg List.length (I.own.symm.trans hP)
      have hpos := List.length_pos_iff.2 hgps
      rw [length_rtake, length_ownReadings, List.length_nil] at hlen
      unfold numofReadings at hlen
      omega
  | cons head rest =>
      have hmem : head ∈ P 0 := by rw [hP]; exact List.mem_cons_self ..
      rw [I.own] at hmem
      exact ⟨head, rest, rfl, nodeID_of_mem_ownReadings (mem_of_mem_rtake hmem)⟩

/-- As long as the search reaches the pages of all nodes heard, the keys of the table are the IDs
heard. -/
theorem keys_of_lt (hlt : (firstKeys Information.nodeID rs).length < numofReadings) :
    (recordAll Information.nodeID numofReadings (numofReadings - 1) rs).map Prod.fst =
      firstKeys Information.nodeID rs := by
  rw [recordAll_keys, List.take_of_length_le (by omega)]

theorem length_table_of_lt (hlt : (firstKeys Information.nodeID rs).length < numofReadings) :
    (recordAll Information.nodeID numofReadings (numofReadings - 1) rs).length =
      (firstKeys Information.nodeID rs).length := by
  rw [← keys_of_lt hlt, List.length_map]

/-- Every log of the table is in use and belongs to its node. -/
theorem table_logs {p : BitVec 16 × List Information}
    (hp : p ∈ recordAll Information.nodeID numofReadings (numofReadings - 1) rs) :
    p.2 ≠ [] ∧ ∀ x ∈ p.2, x.nodeID = p.1 := recordAll_logs numofReadings_pos hp

/-- While the search reaches the pages of all nodes heard, the page of the next record is the one
the table of logs gives it. -/
theorem Inv.searched_eq (I : Inv heap blankarray currID fix₀ gps rs node P) (hgps : gps ≠ [])
    {r : Information} (hr : r.nodeID ≠ currID)
    (hlt : (firstKeys Information.nodeID rs).length < numofReadings)
    (hroom : r.nodeID ∈ firstKeys Information.nodeID rs ∨
      (firstKeys Information.nodeID rs).length < numofReadings - 1) :
    searched P r.nodeID =
      if r.nodeID ∈ firstKeys Information.nodeID rs then
        .inl (1 + (firstKeys Information.nodeID rs).idxOf r.nodeID)
      else .inr (1 + (firstKeys Information.nodeID rs).idxOf r.nodeID) := by
  obtain ⟨head, rest, h₀, hhead⟩ := I.own_head hgps
  have hkeys := keys_of_lt hlt
  have hlen := length_table_of_lt hlt
  rw [searched_of_head h₀ (by rw [hhead]; exact hr),
    target_table (fun _ => table_logs) r.nodeID (I.others hlt).1 1
      (by rw [hkeys, hlen]; exact hroom) (by rw [hlen]; omega), hkeys]

/-- A received record keeps the pages of the other nodes in order. -/
theorem Inv.others_received (I : Inv heap blankarray currID fix₀ gps rs node P) (hgps : gps ≠ [])
    {r : Information} (hr : r.nodeID ≠ currID) {discovered : BitVec 32}
    (hdisc : discovered = if (searched P r.nodeID).isLeft then node.book.numDiscoveredNodes
      else node.book.numDiscoveredNodes + 1) :
    PagesInOrder (Function.update P (pageOf (searched P r.nodeID))
      (push numofReadings (P (pageOf (searched P r.nodeID))) r)) discovered (rs ++ [r]) := by
  intro hlt
  rw [firstKeys_append] at hlt ⊢
  have hold : (firstKeys Information.nodeID rs).length < numofReadings := by
    split at hlt
    · exact hlt
    · rw [List.length_append] at hlt
      omega
  have hroom : r.nodeID ∈ firstKeys Information.nodeID rs ∨
      (firstKeys Information.nodeID rs).length < numofReadings - 1 := by
    by_cases hm : r.nodeID ∈ firstKeys Information.nodeID rs
    · exact Or.inl hm
    · rw [if_neg hm, List.length_append, List.length_singleton] at hlt
      exact Or.inr (by omega)
  obtain ⟨hpg, hcount⟩ := I.others hold
  have hsearch := I.searched_eq hgps hr hold hroom
  have hpage : pageOf (searched P r.nodeID) =
      1 + (firstKeys Information.nodeID rs).idxOf r.nodeID := by
    rw [hsearch]
    split <;> rfl
  have hkeys := keys_of_lt hold
  have hlen := length_table_of_lt hold
  constructor
  · intro i
    rw [recordAll_append, logAt_record (by rw [hkeys, hlen]; exact hroom) (by rw [hlen]; omega),
      hkeys, hpage]
    by_cases hi : i = (firstKeys Information.nodeID rs).idxOf r.nodeID
    · rw [if_pos hi, ← hi, Function.update_self, hpg i]
    · rw [if_neg hi, Function.update_of_ne (by omega), hpg i]
  · rw [hdisc, hsearch]
    by_cases hm : r.nodeID ∈ firstKeys Information.nodeID rs
    · rw [if_pos hm, if_pos hm]
      exact hcount
    · rw [if_neg hm, if_neg hm, List.length_append, List.length_singleton,
        BitVec.ofNat_add, ← hcount]
      rfl

/-- Step 3 puts a foreign record on a page other than page `0`. -/
theorem received_inv (I : Inv heap blankarray currID fix₀ gps rs node P) (hgps : gps ≠ [])
    {r : Information} (hr : r.nodeID ≠ currID) :
    ∃ node' P', step3 blankarray node (some r) = some node' ∧
      Inv heap blankarray currID fix₀ gps (rs ++ [r]) node' P' := by
  obtain ⟨book', hadd, H', hother, hdisc⟩ := I.holds.add blankarray r
  obtain ⟨head, rest, h₀, hhead⟩ := I.own_head hgps
  have hne : pageOf (searched P r.nodeID) ≠ 0 := searched_ne_zero h₀ (by rw [hhead]; exact hr)
  obtain ⟨queue₀, queue, hqueue₀, hqueue, hcalls⟩ := I.page
  have I' : Inv heap blankarray currID fix₀ gps (rs ++ [r]) { node with book := book' }
      (Function.update P (pageOf (searched P r.nodeID))
        (push numofReadings (P (pageOf (searched P r.nodeID))) r)) :=
    { lastFix := I.lastFix
      counter := I.counter
      cursor := I.cursor
      currAlt := I.currAlt
      rows := I.rows
      filled := I.filled
      holds := H'
      own := by rw [Function.update_of_ne hne.symm]; exact I.own
      page := ⟨queue₀, queue, hqueue₀, (hother 0 hne.symm).trans hqueue, hcalls⟩
      others := I.others_received hgps hr hdisc }
  exact ⟨_, _, Checked.bind_of_eq hadd _, I'⟩

end Steps

/-- **Every run of the loop keeps the invariant.** -/
theorem run_inv (heap : ℕ → ℕ → Information) (blankarray : Information) (currID : BitVec 16)
    (fix₀ : Fix) (ins : List Iteration) (hins : Foreign currID ins) :
    ∃ node P, run heap blankarray currID fix₀ ins = some node ∧
      Inv heap blankarray currID fix₀ (ins.map Iteration.gps) (heard ins) node P := by
  induction ins using List.reverseRecOn with
  | nil =>
      obtain ⟨node, P, hsetup, I⟩ := setup_inv heap blankarray currID fix₀
      exact ⟨node, P, Checked.bind_of_eq hsetup _, I⟩
  | append_singleton ins inp ih =>
      obtain ⟨node, P, hrun, I⟩ := ih fun i hi => hins i (List.mem_append_left _ hi)
      obtain ⟨node₁, hstep1, I₁⟩ := step1_inv I inp.gps
      rw [run_append, hrun, Option.bind_some, loop, Checked.bind_of_eq hstep1, List.map_append,
        List.map_singleton, heard_append]
      cases hrec : inp.received with
      | none => exact ⟨node₁, _, rfl, by simpa using I₁⟩
      | some r =>
          have hr : r.nodeID ≠ currID := hins inp (by simp) r hrec
          exact received_inv I₁ (by simp) hr

end LoRaGPS
