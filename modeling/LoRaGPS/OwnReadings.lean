/-
**The node's own readings: the page of the queue and the page of the array.**

Two properties of the runs of `Node1_rcvrTry2.5.ino` that concern the readings the node takes
itself.  Page `0` of the book holds the last of them whatever is received.  The array `manifest`
is meant to hold the same ones, but its cursor is reset one row too late: the fourth write goes to
row `NumofReadings` of `manifest[0]`, which is row `0` of `manifest[1]`.

Main definitions:

* `LoRaGPS.Iteration.deaf` — an iteration with nothing received;
* `LoRaGPS.LogsAgree`, `LoRaGPS.LogsAgreeThroughout` — the array and the queue hold the same
  readings, after every iteration of a run.

Main results:

* `LoRaGPS.own_page_isolated` — page `0` does not depend on what is received, and holds the last
  `NumofReadings` own readings;
* `LoRaGPS.logs_agree_iff` — the two logs agree throughout a run exactly when it has at most
  `NumofReadings` iterations.
-/

import LoRaGPS.ManifestLoop

set_option relaxedAutoImplicit false
set_option autoImplicit false

namespace LoRaGPS

open KeyedLog

/-! ### Page `0` of the book -/

/-- The same iteration with nothing received. -/
def Iteration.deaf (inp : Iteration) : Iteration := ⟨inp.gps, none⟩

theorem foreign_deaf (currID : BitVec 16) (ins : List Iteration) :
    Foreign currID (ins.map Iteration.deaf) := by
  intro inp hinp r hr
  obtain ⟨i, -, rfl⟩ := List.mem_map.1 hinp
  cases hr

/-- The IDs of the last readings are the last values of the counter. -/
theorem readingID_rtake (currID : BitVec 16) (fix₀ : Fix) (gps : List (Option Fix)) (D : ℕ) :
    ((ownReadings currID fix₀ gps).rtake D).map Information.readingID =
      (List.range' (gps.length - min gps.length D) (min gps.length D)).map (BitVec.ofNat 16) := by
  have hdrop : (List.range gps.length).drop (gps.length - D) =
      List.range' (gps.length - min gps.length D) (min gps.length D) := by
    rw [List.range_eq_range', List.drop_range']
    congr 1 <;> omega
  rw [List.rtake, length_ownReadings, ownReadings, ← List.map_drop, List.map_map, hdrop]
  rfl

/-- What the queue on page `0` shows after the iterations `ins`. -/
structure OwnPage (currID : BitVec 16) (fix₀ : Fix) (ins : List Iteration) (queue : Queue) :
    Prop where
  items : queue.items =
    ((ownReadings currID fix₀ (ins.map Iteration.gps)).rtake numofReadings).map some
  length : queue.items.length = min ins.length numofReadings
  nodeIDs : ∀ r, some r ∈ queue.items → r.nodeID = currID
  readingIDs : queue.items.map (Option.map Information.readingID) =
    (List.range' (ins.length - min ins.length numofReadings) (min ins.length numofReadings)).map
      fun j => some (BitVec.ofNat 16 j)

theorem Inv.ownPage {heap : ℕ → ℕ → Information} {blankarray : Information} {currID : BitVec 16}
    {fix₀ : Fix} {ins : List Iteration} {rs : List Information} {node : Node1}
    {P : ℕ → List Information}
    (I : Inv heap blankarray currID fix₀ (ins.map Iteration.gps) rs node P) {queue : Queue}
    (hqueue : node.book.aBookCalledManifest[0]? = some queue) : OwnPage currID fix₀ ins queue := by
  obtain ⟨queue', f, hqueue', V⟩ := I.holds.page 0 maxNumNodes_pos
  obtain rfl := Option.some_inj.1 (hqueue.symm.trans hqueue')
  have hitems := V.items
  rw [I.own] at hitems
  exact { items := hitems
          length := by rw [hitems, List.length_map, length_rtake, length_ownReadings,
            List.length_map]
          nodeIDs := by
            intro r hr
            rw [hitems] at hr
            obtain ⟨r', hr', e⟩ := List.mem_map.1 hr
            obtain rfl := Option.some_inj.1 e
            exact nodeID_of_mem_ownReadings (mem_of_mem_rtake hr')
          readingIDs := by
            have hids := readingID_rtake currID fix₀ (ins.map Iteration.gps) numofReadings
            rw [List.length_map] at hids
            have hsome := congrArg (List.map some) hids
            rw [List.map_map, List.map_map] at hsome
            rw [hitems, List.map_map]
            exact hsome }

/-- **The node's own page is isolated from the network**: whatever foreign records are received,
the queue on page `0` is the one of the run that receives nothing, and shows the last
`NumofReadings` own readings; the counter has not overflowed. -/
theorem own_page_isolated (heap : ℕ → ℕ → Information) (blankarray : Information)
    (currID : BitVec 16) (fix₀ : Fix) (ins : List Iteration) (hshort : ins.length < 2 ^ 31)
    (hins : Foreign currID ins) :
    ∃ node deaf queue, run heap blankarray currID fix₀ ins = some node ∧
      run heap blankarray currID fix₀ (ins.map Iteration.deaf) = some deaf ∧
      node.book.aBookCalledManifest[0]? = some queue ∧
      deaf.book.aBookCalledManifest[0]? = some queue ∧
      node.readingCounter.toInt = ins.length ∧
      OwnPage currID fix₀ ins queue := by
  obtain ⟨node, P, hrun, I⟩ := run_inv heap blankarray currID fix₀ ins hins
  obtain ⟨deaf, Q, hdeaf, J⟩ := run_inv heap blankarray currID fix₀ _ (foreign_deaf currID ins)
  obtain ⟨queue₀, queue, hqueue₀, hqueue, hcalls⟩ := I.page
  obtain ⟨queue₁, queue', hqueue₁, hqueue', hcalls'⟩ := J.page
  have hgps : (ins.map Iteration.deaf).map Iteration.gps = ins.map Iteration.gps := by
    rw [List.map_map]
    rfl
  -- both queues are the outcome of the same calls on the same fresh queue
  obtain rfl := Option.some_inj.1 (hqueue₀.symm.trans hqueue₁)
  rw [hgps, hcalls] at hcalls'
  obtain rfl := Option.some_inj.1 hcalls'
  refine ⟨node, deaf, queue, hrun, hdeaf, hqueue, hqueue', ?_, I.ownPage hqueue⟩
  rw [I.counter, List.length_map, BitVec.toInt_eq_toNat_cond, BitVec.toNat_ofNat,
    Nat.mod_eq_of_lt (by omega), if_pos (by omega)]

/-- Five iterations of the node `7`, two of which receive a record. -/
theorem own_page_isolated_five :
    ∃ node deaf queue,
      run (fun _ _ => Information.zero) Information.zero 7 ⟨0, 0⟩
        [⟨some ⟨1, 1⟩, none⟩, ⟨none, some ⟨4, 9, 0, 0, 0⟩⟩, ⟨some ⟨2, 2⟩, none⟩,
          ⟨none, some ⟨8, 3, 0, 0, 0⟩⟩, ⟨none, none⟩] = some node ∧
      run (fun _ _ => Information.zero) Information.zero 7 ⟨0, 0⟩
        ([⟨some ⟨1, 1⟩, none⟩, ⟨none, some ⟨4, 9, 0, 0, 0⟩⟩, ⟨some ⟨2, 2⟩, none⟩,
          ⟨none, some ⟨8, 3, 0, 0, 0⟩⟩, ⟨none, none⟩].map Iteration.deaf) = some deaf ∧
      node.book.aBookCalledManifest[0]? = some queue ∧
      deaf.book.aBookCalledManifest[0]? = some queue ∧
      node.readingCounter.toInt = 5 ∧
      OwnPage 7 ⟨0, 0⟩
        [⟨some ⟨1, 1⟩, none⟩, ⟨none, some ⟨4, 9, 0, 0, 0⟩⟩, ⟨some ⟨2, 2⟩, none⟩,
          ⟨none, some ⟨8, 3, 0, 0, 0⟩⟩, ⟨none, none⟩] queue :=
  own_page_isolated _ _ _ _ _ (by decide) (by simp [Foreign])

/-! ### The page of the array -/

/-- The fields the two logs are compared on. -/
def Information.compared (r : Information) : BitVec 16 × BitVec 16 × BitVec 64 × BitVec 64 :=
  (r.readingID, r.nodeID, r.currLat, r.currLon)

/-- After the iterations `ins`, `manifest[1]` is as it was at start-up, and the rows written in
`manifest[0]` are the readings of the queue on page `0`, the last own readings. -/
structure LogsAgree (currID : BitVec 16) (fix₀ : Fix) (ins : List Iteration) (node : Node1) :
    Prop where
  otherPage : node.manifest.drop numofReadings = List.replicate numofReadings Information.zero
  sameReadings : ∃ queue, node.book.aBookCalledManifest[0]? = some queue ∧
    queue.items =
      ((ownReadings currID fix₀ (ins.map Iteration.gps)).rtake numofReadings).map some ∧
    ((node.manifest.take (min ins.length numofReadings)).map fun r => some r.compared).Perm
      (queue.items.map (Option.map Information.compared))

/-- The two logs agree after every iteration of the run, and every iteration writes inside
`manifest[0]`. -/
def LogsAgreeThroughout (heap : ℕ → ℕ → Information) (blankarray : Information)
    (currID : BitVec 16) (fix₀ : Fix) (ins : List Iteration) : Prop :=
  ∀ pre, pre <+: ins → ∃ node, run heap blankarray currID fix₀ pre = some node ∧
    (pre ≠ ins → node.posofManifestDataWriter < numofReadings) ∧ LogsAgree currID fix₀ pre node

theorem Foreign.mono {currID : BitVec 16} {pre ins : List Iteration}
    (h : Foreign currID ins) (hpre : pre <+: ins) : Foreign currID pre := by
  intro inp hinp
  exact h inp (hpre.subset hinp)

/-- While the array is not full the two logs hold the same readings in the same order. -/
theorem Inv.logsAgree {heap : ℕ → ℕ → Information} {blankarray : Information}
    {currID : BitVec 16} {fix₀ : Fix} {ins : List Iteration} {rs : List Information} {node : Node1}
    {P : ℕ → List Information}
    (I : Inv heap blankarray currID fix₀ (ins.map Iteration.gps) rs node P)
    (hle : ins.length ≤ numofReadings) : LogsAgree currID fix₀ ins node := by
  have hman := I.filled (by simpa using hle)
  set own := ownReadings currID fix₀ (ins.map Iteration.gps) with hown
  have hlen : own.length = ins.length := by simp [hown]
  obtain ⟨-, queue, -, hqueue, -⟩ := I.page
  have hitems := (I.ownPage hqueue).items
  have hshort : own.rtake numofReadings = own := rtake_of_length_le (by omega)
  rw [← hown, hshort] at hitems
  refine ⟨?_, queue, hqueue, by rw [hitems, ← hown, hshort], ?_⟩
  · rw [hman, List.drop_append, List.drop_of_length_le (by omega), List.nil_append,
      List.drop_replicate, List.length_map, hlen]
    congr 1
    unfold initialNumofNodes
    omega
  · rw [Nat.min_eq_left hle, hman, ← hlen, List.take_left, hitems, List.map_map]
    exact List.Perm.refl _

/-- **The two logs agree throughout a run exactly when it has at most `NumofReadings`
iterations**: the next write is outside `manifest[0]`. -/
theorem logs_agree_iff (heap : ℕ → ℕ → Information) (blankarray : Information)
    (currID : BitVec 16) (fix₀ : Fix) (ins : List Iteration) (hins : Foreign currID ins) :
    LogsAgreeThroughout heap blankarray currID fix₀ ins ↔ ins.length ≤ numofReadings := by
  constructor
  · intro h
    by_contra hlt
    have hpre : ins.take numofReadings <+: ins := List.take_prefix _ _
    have hlen : (ins.take numofReadings).length = numofReadings := by
      rw [List.length_take]
      omega
    obtain ⟨node, hrun, hrow, -⟩ := h _ hpre
    obtain ⟨node', P, hrun', I⟩ := run_inv heap blankarray currID fix₀ _ (hins.mono hpre)
    obtain rfl := Option.some_inj.1 (hrun.symm.trans hrun')
    have hne : ins.take numofReadings ≠ ins := fun e => by rw [e] at hlen; omega
    have hcursor := I.cursor
    rw [List.length_map, hlen, Nat.mod_eq_of_lt (Nat.lt_succ_self _)] at hcursor
    exact absurd (hrow hne) (by omega)
  · intro hle pre hpre
    obtain ⟨node, P, hrun, I⟩ := run_inv heap blankarray currID fix₀ pre (hins.mono hpre)
    have hprelen := hpre.length_le
    refine ⟨node, hrun, ?_, I.logsAgree (by omega)⟩
    intro hne
    have hshort : pre.length < ins.length :=
      lt_of_le_of_ne hprelen fun e => hne (hpre.eq_of_length e)
    rw [I.cursor, List.length_map, Nat.mod_eq_of_lt (by omega)]
    omega

/-- The two logs agree through the first three iterations. -/
theorem logs_agree_iff_three :
    LogsAgreeThroughout (fun _ _ => Information.zero) Information.zero 7 ⟨0, 0⟩
        [⟨some ⟨1, 1⟩, none⟩, ⟨none, some ⟨4, 9, 0, 0, 0⟩⟩, ⟨none, none⟩] ↔
      3 ≤ numofReadings :=
  logs_agree_iff _ _ _ _ _ (by simp [Foreign])

/-- Four iterations with the GPS at `(1, 1)`: the fourth reading overwrites row `0` of
`manifest[1]`. -/
theorem fourth_reading_leaves_its_page :
    ¬ LogsAgreeThroughout (fun _ _ => Information.zero) Information.zero 7 ⟨1, 1⟩
        (List.replicate 4 ⟨none, none⟩) ∧
      (run (fun _ _ => Information.zero) Information.zero 7 ⟨1, 1⟩
        (List.replicate 4 ⟨none, none⟩)).map (fun node => node.manifest[1 * numofReadings + 0]?) =
        some (some ⟨3, 7, 1, 1, 0⟩) := by
  have hrow : (run (fun _ _ => Information.zero) Information.zero 7 ⟨1, 1⟩
      (List.replicate 4 ⟨none, none⟩)).map (fun node => node.manifest[1 * numofReadings + 0]?) =
      some (some ⟨3, 7, 1, 1, 0⟩) := by decide +kernel
  refine ⟨?_, hrow⟩
  intro h
  obtain ⟨node, hrun, -, hagree⟩ := h _ List.prefix_rfl
  have hzero : node.manifest[1 * numofReadings + 0]? = some Information.zero := by
    have := congrArg (fun l => l[0]?) hagree.otherPage
    simpa [List.getElem?_drop, numofReadings] using this
  rw [hrun, Option.map_some, hzero] at hrow
  exact absurd hrow (by decide)

end LoRaGPS
