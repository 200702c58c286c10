/-
**The book as a map from nodes to their readings.**

The book is meant to give every node heard its own page.  The search for a page runs over
`NumofReadings` pages, so it only ever sees page `0` and the first `NumofReadings - 1` pages of
other nodes: a record of a further node is put on page `1`, among the readings of the node that
owns it, and counted as a new node.

Main definitions:

* `LoRaGPS.BookIsMap` — every node heard has one page, with its last readings and no others, and
  the count of the nodes discovered is the number of pages in use;
* `LoRaGPS.BookIsMapThroughout` — this holds after every iteration of a run.

Main results:

* `LoRaGPS.Inv.bookIsMap` — the book is a map while the search reaches all the pages;
* `LoRaGPS.Inv.further_node` — what a record of a further node does;
* `LoRaGPS.book_is_map_iff` — **the book is a map throughout a run exactly when at most
  `NumofReadings` nodes are heard**, the own node included.
-/

import LoRaGPS.OwnReadings

set_option relaxedAutoImplicit false
set_option autoImplicit false

namespace LoRaGPS

open KeyedLog

/-- The book holds the records `rs` as a map from nodes to their last readings. -/
structure BookIsMap (book : Book) (rs : List Information) : Prop where
  page : ∀ d, (∃ r ∈ rs, r.nodeID = d) → ∃ p queue, book.aBookCalledManifest[p]? = some queue ∧
    queue.items = ((withKey Information.nodeID d rs).rtake numofReadings).map some ∧
    ∀ (p' : ℕ) (queue' : Queue) (g : Information), book.aBookCalledManifest[p']? = some queue' →
      some g ∈ queue'.items → g.nodeID = d → p' = p
  discovered : book.numDiscoveredNodes.toInt = book.nonEmptyPages

/-- The book is a map after every iteration of a run. -/
def BookIsMapThroughout (heap : ℕ → ℕ → Information) (blankarray : Information)
    (currID : BitVec 16) (fix₀ : Fix) (ins : List Iteration) : Prop :=
  ∀ pre, pre <+: ins → pre ≠ [] → ∃ node, run heap blankarray currID fix₀ pre = some node ∧
    BookIsMap node.book (heard pre)

/-! ### While the search reaches all the pages -/

section Reached

variable {heap : ℕ → ℕ → Information} {blankarray : Information} {currID : BitVec 16} {fix₀ : Fix}
  {gps : List (Option Fix)} {rs : List Information} {node : Node1} {P : ℕ → List Information}

/-- The pages in use are page `0` and one page for every node heard. -/
theorem Inv.page_ne_nil_iff (I : Inv heap blankarray currID fix₀ gps rs node P) (hgps : gps ≠ [])
    (hlt : (firstKeys Information.nodeID rs).length < numofReadings) (i : ℕ) :
    P i ≠ [] ↔ i < (firstKeys Information.nodeID rs).length + 1 := by
  have hlen := length_table_of_lt hlt
  cases i with
  | zero =>
      obtain ⟨head, rest, h₀, -⟩ := I.own_head hgps
      simp [h₀]
  | succ i =>
      rw [Nat.add_comm i 1, (I.others hlt).1 i, logAt]
      rcases Nat.lt_or_ge i (firstKeys Information.nodeID rs).length with h | h
      · rw [← hlen] at h
        rw [List.getElem?_eq_getElem h]
        exact iff_of_true (table_logs (List.getElem_mem h)).1 (by omega)
      · rw [List.getElem?_eq_none (by rw [hlen]; exact h)]
        exact iff_of_false (by simp) (by omega)

/-- A reading on a page of another node is in the log at the place of its ID. -/
theorem Inv.place_of_mem (I : Inv heap blankarray currID fix₀ gps rs node P)
    (hlt : (firstKeys Information.nodeID rs).length < numofReadings) {j : ℕ} {g : Information}
    (hg : g ∈ P (1 + j)) : (firstKeys Information.nodeID rs)[j]? = some g.nodeID := by
  rw [(I.others hlt).1 j, logAt] at hg
  cases hj : (recordAll Information.nodeID numofReadings (numofReadings - 1) rs)[j]? with
  | none => rw [hj] at hg; simp at hg
  | some p =>
      rw [hj] at hg
      have hkey := (table_logs (List.mem_of_getElem? hj)).2 g (by simpa using hg)
      rw [← keys_of_lt hlt, List.getElem?_map, hj, Option.map_some, hkey]

/-- The book is a map while the search reaches all the pages. -/
theorem Inv.bookIsMap (I : Inv heap blankarray currID fix₀ gps rs node P) (hgps : gps ≠ [])
    (hforeign : ∀ r ∈ rs, r.nodeID ≠ currID)
    (hlt : (firstKeys Information.nodeID rs).length < numofReadings) : BookIsMap node.book rs where
  page := by
    rintro d ⟨r, hr, rfl⟩
    have hmem : r.nodeID ∈ firstKeys Information.nodeID rs := mem_firstKeys.2 ⟨r, hr, rfl⟩
    obtain ⟨i, hi, hid⟩ := List.getElem_of_mem hmem
    have hplace : (firstKeys Information.nodeID rs)[i]? = some r.nodeID := by
      rw [List.getElem?_eq_getElem hi, hid]
    have hlog : P (1 + i) = (withKey Information.nodeID r.nodeID rs).rtake numofReadings := by
      rw [(I.others hlt).1 i, logAt, getElem?_recordAll
        (by rw [List.take_of_length_le (by omega)]; exact hplace)]
      rfl
    have hlimit : 1 + i < maxNumNodes := by
      have := numofReadings_lt
      omega
    obtain ⟨queue, f, hqueue, V⟩ := I.holds.page (1 + i) hlimit
    refine ⟨1 + i, queue, hqueue, by rw [V.items, hlog], ?_⟩
    intro p' queue' g hqueue' hg hgd
    have hp' : p' < maxNumNodes := by
      rw [← I.holds.pages]
      exact (List.getElem?_eq_some_iff.1 hqueue').1
    obtain ⟨queue'', f', hqueue'', V'⟩ := I.holds.page p' hp'
    obtain rfl := Option.some_inj.1 (hqueue'.symm.trans hqueue'')
    have hmem : g ∈ P p' := by
      rw [V'.items] at hg
      obtain ⟨g', hg', e⟩ := List.mem_map.1 hg
      rwa [← Option.some_inj.1 e]
    cases p' with
    | zero =>
        -- page `0` holds own readings only
        rw [I.own] at hmem
        exact absurd (hgd.symm.trans (nodeID_of_mem_ownReadings (mem_of_mem_rtake hmem)))
          (hforeign r hr)
    | succ j =>
        rw [Nat.add_comm j 1] at hmem ⊢
        have hj := I.place_of_mem hlt hmem
        rw [hgd] at hj
        have hij := (List.getElem?_inj hi (nodup_firstKeys rs)).1 (hplace.trans hj.symm)
        omega
  discovered := by
    have hn : (firstKeys Information.nodeID rs).length + 1 ≤ maxNumNodes := by
      unfold numofReadings at hlt
      unfold maxNumNodes
      omega
    rw [I.holds.nonEmptyPages_eq hn fun i _ => I.page_ne_nil_iff hgps hlt i, (I.others hlt).2,
      BitVec.toInt_eq_toNat_cond, BitVec.toNat_ofNat]
    unfold maxNumNodes at hn
    omega

/-- **A record of a further node** is put on page `1` and counted as a new node, while the number
of pages in use stays what it was. -/
theorem Inv.further_node (I : Inv heap blankarray currID fix₀ gps rs node P) (hgps : gps ≠ [])
    {r : Information} (hr : r.nodeID ≠ currID)
    (hlen : (firstKeys Information.nodeID rs).length = numofReadings - 1)
    (hnew : r.nodeID ∉ firstKeys Information.nodeID rs) :
    ∃ book', addIncomingCurrInfoToMyBookCalledManifest blankarray node.book r = some book' ∧
      book'.nonEmptyPages = numofReadings ∧
      book'.numDiscoveredNodes = BitVec.ofNat 32 (numofReadings + 1) := by
  have hlt : (firstKeys Information.nodeID rs).length < numofReadings := by
    rw [hlen]
    exact Nat.sub_lt numofReadings_pos Nat.one_pos
  obtain ⟨head, rest, h₀, hhead⟩ := I.own_head hgps
  have hsearch : searched P r.nodeID = .inr 1 := by
    rw [searched_of_head h₀ (by rw [hhead]; exact hr), ← hlen, ← length_table_of_lt hlt]
    exact target_full (fun _ => table_logs) (I.others hlt).1 1 (by rw [keys_of_lt hlt]; exact hnew)
  obtain ⟨book', hadd, H', -, hdisc⟩ := I.holds.add blankarray r
  rw [hsearch] at H' hdisc
  refine ⟨book', hadd, H'.nonEmptyPages_eq numofReadings_lt.le ?_, ?_⟩
  · intro i _
    by_cases hi : i = pageOf (.inr 1)
    · subst hi
      rw [Function.update_self]
      exact iff_of_true (push_ne_nil numofReadings_pos _ _) (by decide)
    · rw [Function.update_of_ne hi, I.page_ne_nil_iff hgps hlt i, hlen]
      exact Iff.rfl
  · have hcount := (I.others hlt).2
    rw [hlen] at hcount
    rw [hdisc, hcount]
    rfl

end Reached

/-! ### Runs -/

theorem nodeID_of_mem_heard {currID : BitVec 16} {ins : List Iteration} (hins : Foreign currID ins)
    {r : Information} (hr : r ∈ heard ins) : r.nodeID ≠ currID := by
  obtain ⟨inp, hinp, hrec⟩ := List.mem_filterMap.1 hr
  exact hins inp hinp r hrec

theorem heard_mono {pre ins : List Iteration} (h : pre <+: ins) : heard pre <+: heard ins := by
  obtain ⟨t, rfl⟩ := h
  simp only [heard, List.filterMap_append]
  exact List.prefix_append _ _

/-- A run that hears `NumofReadings` other nodes hears the last of them at some iteration. -/
theorem exists_further_node (ins : List Iteration)
    (h : numofReadings ≤ (firstKeys Information.nodeID (heard ins)).length) :
    ∃ pre inp r, pre ++ [inp] <+: ins ∧ inp.received = some r ∧
      (firstKeys Information.nodeID (heard pre)).length = numofReadings - 1 ∧
      r.nodeID ∉ firstKeys Information.nodeID (heard pre) := by
  induction ins using List.reverseRecOn with
  | nil => simp [heard, firstKeys, numofReadings] at h
  | append_singleton ins inp ih =>
      by_cases hins : numofReadings ≤ (firstKeys Information.nodeID (heard ins)).length
      · obtain ⟨pre, inp', r, hpre, hrec⟩ := ih hins
        exact ⟨pre, inp', r, hpre.trans (List.prefix_append _ _), hrec⟩
      · rw [heard_append] at h
        cases hrec : inp.received with
        | none =>
            rw [hrec, Option.toList_none, List.append_nil] at h
            exact absurd h hins
        | some r =>
            rw [hrec, Option.toList_some, firstKeys_append] at h
            by_cases hnew : r.nodeID ∈ firstKeys Information.nodeID (heard ins)
            · rw [if_pos hnew] at h
              exact absurd h hins
            · rw [if_neg hnew, List.length_append, List.length_singleton] at h
              exact ⟨ins, inp, r, List.prefix_rfl, hrec, by omega, hnew⟩

/-- **The book is a map throughout a run exactly when at most `NumofReadings` nodes are heard**,
the own node included. -/
theorem book_is_map_iff (heap : ℕ → ℕ → Information) (blankarray : Information)
    (currID : BitVec 16) (fix₀ : Fix) (ins : List Iteration) (hins : Foreign currID ins) :
    BookIsMapThroughout heap blankarray currID fix₀ ins ↔
      (firstKeys Information.nodeID (heard ins)).length + 1 ≤ numofReadings := by
  constructor
  · intro h
    by_contra hmany
    obtain ⟨pre, inp, r, hpre, hrec, hlen, hnew⟩ := exists_further_node ins (by omega)
    have hforeign := hins.mono hpre
    obtain ⟨node, P, hrun, I⟩ := run_inv heap blankarray currID fix₀ pre
      (hforeign.mono (List.prefix_append _ _))
    obtain ⟨node₁, hstep1, I₁⟩ := step1_inv I inp.gps
    obtain ⟨book', hadd, hpages, hdisc⟩ := I₁.further_node (by simp)
      (hforeign inp (by simp) r hrec) hlen hnew
    obtain ⟨node', hrun', hmap⟩ := h _ hpre (by simp)
    have hnode : run heap blankarray currID fix₀ (pre ++ [inp]) =
        some { node₁ with book := book' } := by
      rw [run_append, hrun, Option.bind_some, loop, Checked.bind_of_eq hstep1, hrec, step3,
        Checked.bind_of_eq hadd]
    obtain rfl : node' = { node₁ with book := book' } := by
      rw [hrun'] at hnode
      exact Option.some_inj.1 hnode
    have hcount := hmap.discovered
    rw [hpages, hdisc] at hcount
    exact absurd hcount (by decide)
  · intro hfew pre hpre hne
    have hforeign := hins.mono hpre
    obtain ⟨node, P, hrun, I⟩ := run_inv heap blankarray currID fix₀ pre hforeign
    have hlen : (firstKeys Information.nodeID (heard pre)).length ≤
        (firstKeys Information.nodeID (heard ins)).length :=
      (firstKeys_mono (heard_mono hpre)).length_le
    exact ⟨node, hrun, I.bookIsMap (by simpa using hne)
      (fun r hr => nodeID_of_mem_heard hforeign hr) (by omega)⟩

/-- Three iterations of the node `7` that hear the nodes `8`, `9` and `8`. -/
theorem book_is_map_iff_three :
    BookIsMapThroughout (fun _ _ => Information.zero) Information.zero 7 ⟨0, 0⟩
        [⟨none, some ⟨0, 8, 1, 1, 0⟩⟩, ⟨none, some ⟨0, 9, 2, 2, 0⟩⟩, ⟨none, some ⟨1, 8, 3, 3, 0⟩⟩] ↔
      (firstKeys Information.nodeID (heard
        [⟨none, some ⟨0, 8, 1, 1, 0⟩⟩, ⟨none, some ⟨0, 9, 2, 2, 0⟩⟩,
          ⟨none, some ⟨1, 8, 3, 3, 0⟩⟩])).length + 1 ≤ numofReadings :=
  book_is_map_iff _ _ _ _ _ (by simp [Foreign])

/-- The nodes `8`, `9` and `10` are heard one after the other: the record of node `10` is put on
the page of node `8`. -/
theorem third_node_shares_a_page :
    ¬ BookIsMapThroughout (fun _ _ => Information.zero) Information.zero 7 ⟨0, 0⟩
        [⟨none, some ⟨0, 8, 1, 1, 0⟩⟩, ⟨none, some ⟨0, 9, 2, 2, 0⟩⟩, ⟨none, some ⟨0, 10, 3, 3, 0⟩⟩] ∧
      (run (fun _ _ => Information.zero) Information.zero 7 ⟨0, 0⟩
        [⟨none, some ⟨0, 8, 1, 1, 0⟩⟩, ⟨none, some ⟨0, 9, 2, 2, 0⟩⟩,
          ⟨none, some ⟨0, 10, 3, 3, 0⟩⟩]).map
        (fun node => (node.book.aBookCalledManifest[1]?.map Queue.items,
          node.book.numDiscoveredNodes, node.book.nonEmptyPages)) =
        some (some [some ⟨0, 8, 1, 1, 0⟩, some ⟨0, 10, 3, 3, 0⟩], 4, 3) := by
  have hrun : (run (fun _ _ => Information.zero) Information.zero 7 ⟨0, 0⟩
      [⟨none, some ⟨0, 8, 1, 1, 0⟩⟩, ⟨none, some ⟨0, 9, 2, 2, 0⟩⟩,
        ⟨none, some ⟨0, 10, 3, 3, 0⟩⟩]).map
      (fun node => (node.book.aBookCalledManifest[1]?.map Queue.items,
        node.book.numDiscoveredNodes, node.book.nonEmptyPages)) =
      some (some [some ⟨0, 8, 1, 1, 0⟩, some ⟨0, 10, 3, 3, 0⟩], 4, 3) := by decide +kernel
  refine ⟨?_, hrun⟩
  intro h
  obtain ⟨node, hnode, hmap⟩ := h _ List.prefix_rfl (by simp)
  rw [hnode, Option.map_some] at hrun
  obtain ⟨-, hdisc, hpages⟩ := by simpa using hrun
  have hcount := hmap.discovered
  rw [hdisc, hpages] at hcount
  exact absurd hcount (by decide)

end LoRaGPS
