/-
**The book of pages and the search for a page.**

`Node1_rcvrTry2.5.ino` keeps a book of a hundred queues, page `0` for its own readings and one
page for every node it hears.  `addIncomingCurrInfoToMyBookCalledManifest` looks for the page of an
incoming record by the ID of the oldest entry of each page, stops at the first empty page, which
it then opens, and falls back to page `1` when the scan ends without either.  The scan runs over
`NumofReadings` pages, the depth of a page, and not over the pages of the book.

Main definitions:

* `LoRaGPS.Book`, `LoRaGPS.pageSearch`, `LoRaGPS.addIncomingCurrInfoToMyBookCalledManifest` — the
  code;
* `LoRaGPS.Book.Holds` — the contents of the pages;
* `LoRaGPS.target` — the page a record goes to, as a function of the contents.

Main results:

* `LoRaGPS.pageSearch_eq` — the search is decided by the contents of the pages;
* `LoRaGPS.Book.Holds.add` — **one record goes to its target page** and touches no other;
* `LoRaGPS.searched_ne_zero` — a record with another ID never goes to page `0`;
* `LoRaGPS.target_table` — where the search ends while its rounds last;
* `LoRaGPS.Book.Holds.nonEmptyPages` — counting the pages in use.
-/

import LoRaGPS.RingQueue

set_option relaxedAutoImplicit false
set_option autoImplicit false

namespace LoRaGPS

open KeyedLog

/-! ### The code -/

/-- `NumofReadings`: the capacity of a page. -/
def numofReadings : ℕ := 3

/-- `MAX_NUM_NODES`: the number of pages of the book. -/
def maxNumNodes : ℕ := 100

theorem numofReadings_pos : 0 < numofReadings := Nat.succ_pos 2

/-- The pages that the search looks at are pages of the book. -/
theorem numofReadings_lt : numofReadings < maxNumNodes := by
  unfold numofReadings maxNumNodes
  omega

theorem maxNumNodes_pos : 0 < maxNumNodes := Nat.lt_trans numofReadings_pos numofReadings_lt

/-- The book and the count of the nodes discovered so far, an `int` kept modulo `2 ^ 32`. -/
structure Book where
  aBookCalledManifest : List Queue
  numDiscoveredNodes : BitVec 32
deriving DecidableEq, Repr

/-- The search loop: `.inl` is the page found, `.inr` the page to open.  Every round raises
`counter`, so as many rounds as there are values to try are enough; finding an empty page ends the
loop by moving `counter` to its last value. -/
def pageSearch (blankarray : Information) (pages : List Queue) (nodeID : BitVec 16) :
    ℕ → ℕ → ℕ → Option (ℕ ⊕ ℕ)
  | 0, _, indexofNextQueue => some (.inr indexofNextQueue)
  | rounds + 1, counter, indexofNextQueue =>
      if counter < numofReadings then do
        let queue ← pages[counter]?
        if queue.size = 0 then
          pageSearch blankarray pages nodeID rounds (numofReadings - 1 + 1) counter
        else
          let head ← front blankarray queue
          if nodeID = head.nodeID then some (.inl counter)
          else pageSearch blankarray pages nodeID rounds (counter + 1) indexofNextQueue
      else some (.inr indexofNextQueue)

/-- `enqueue(aBookCalledManifest[page], item)`. -/
def enqueueOnPage (blankarray : Information) (pages : List Queue) (page : ℕ)
    (item : Information) : Option (List Queue) := do
  let queue ← pages[page]?
  let queue ← enqueue blankarray queue item
  Checked.store pages page queue

/-- `addIncomingCurrInfoToMyBookCalledManifest`. -/
def addIncomingCurrInfoToMyBookCalledManifest (blankarray : Information) (book : Book)
    (someNodesCurrInfo : Information) : Option Book := do
  let found ← pageSearch blankarray book.aBookCalledManifest someNodesCurrInfo.nodeID
    numofReadings 0 1
  match found with
  | .inl counter =>
      let pages ← enqueueOnPage blankarray book.aBookCalledManifest counter someNodesCurrInfo
      some { book with aBookCalledManifest := pages }
  | .inr indexofNextQueue =>
      let pages ←
        enqueueOnPage blankarray book.aBookCalledManifest indexofNextQueue someNodesCurrInfo
      some ⟨pages, book.numDiscoveredNodes + 1⟩

/-- The number of pages in use. -/
def Book.nonEmptyPages (book : Book) : ℕ :=
  book.aBookCalledManifest.countP fun queue => !isEmpty queue

/-! ### The contents of the pages -/

/-- The pages of the book hold the lists `P`. -/
structure Book.Holds (book : Book) (P : ℕ → List Information) : Prop where
  pages : book.aBookCalledManifest.length = maxNumNodes
  page : ∀ i, i < maxNumNodes → ∃ queue f,
    book.aBookCalledManifest[i]? = some queue ∧ queue.Valid numofReadings f (P i)

/-- The page search, on the contents of the pages. -/
def target (P : ℕ → List Information) (nodeID : BitVec 16) : ℕ → ℕ → ℕ → ℕ ⊕ ℕ
  | 0, _, indexofNextQueue => .inr indexofNextQueue
  | rounds + 1, counter, indexofNextQueue =>
      match P counter with
      | [] => .inr counter
      | head :: _ =>
          if nodeID = head.nodeID then .inl counter
          else target P nodeID rounds (counter + 1) indexofNextQueue

/-- The page the search ends with, found or not. -/
def pageOf (found : ℕ ⊕ ℕ) : ℕ := found.elim id id

/-- Once `counter` is out of range the loop ends with the page it has. -/
theorem pageSearch_done (blankarray : Information) (pages : List Queue) (nodeID : BitVec 16)
    (rounds counter indexofNextQueue : ℕ) (h : numofReadings ≤ counter) :
    pageSearch blankarray pages nodeID rounds counter indexofNextQueue =
      some (.inr indexofNextQueue) := by
  cases rounds with
  | zero => rfl
  | succ rounds => rw [pageSearch, if_neg (by omega)]

/-- The search is decided by the contents of the pages. -/
theorem pageSearch_eq {book : Book} {P : ℕ → List Information} (H : book.Holds P)
    (blankarray : Information) (nodeID : BitVec 16) (rounds counter indexofNextQueue : ℕ)
    (h : counter + rounds = numofReadings) :
    pageSearch blankarray book.aBookCalledManifest nodeID rounds counter indexofNextQueue =
      some (target P nodeID rounds counter indexofNextQueue) := by
  induction rounds generalizing counter with
  | zero => rfl
  | succ rounds ih =>
      have hlt : counter < numofReadings := by omega
      have hbook : counter < maxNumNodes := Nat.lt_trans hlt numofReadings_lt
      obtain ⟨queue, f, hqueue, V⟩ := H.page counter hbook
      rw [pageSearch, if_pos hlt, Checked.bind_of_eq hqueue, target]
      cases hP : P counter with
      | nil =>
          rw [hP] at V
          rw [if_pos (by rw [V.size]; rfl)]
          exact pageSearch_done _ _ _ _ _ _ (Nat.le_refl _)
      | cons head rest =>
          rw [hP] at V
          have hsize : ¬ queue.size = 0 := by rw [V.size, List.length_cons]; omega
          rw [if_neg hsize, Checked.bind_of_eq (V.front_cons blankarray)]
          dsimp only
          by_cases hid : nodeID = head.nodeID
          · rw [if_pos hid, if_pos hid]
          · rw [if_neg hid, if_neg hid, ih (counter + 1) (by omega)]

theorem pageOf_target_lt (P : ℕ → List Information) (nodeID : BitVec 16)
    (rounds counter indexofNextQueue n : ℕ) (h : counter + rounds ≤ n) (h' : indexofNextQueue < n) :
    pageOf (target P nodeID rounds counter indexofNextQueue) < n := by
  induction rounds generalizing counter with
  | zero => exact h'
  | succ rounds ih =>
      rw [target]
      split
      · exact (by omega : counter < n)
      · split
        · exact (by omega : counter < n)
        · exact ih (counter + 1) (by omega)

/-- Appending to one page of the book replaces the queue on that page. -/
theorem Book.Holds.enqueueOnPage {book : Book} {P : ℕ → List Information} (H : book.Holds P)
    (blankarray : Information) {page : ℕ} (hpage : page < maxNumNodes) (item : Information)
    (count : BitVec 32) :
    ∃ queue queue', book.aBookCalledManifest[page]? = some queue ∧
      enqueue blankarray queue item = some queue' ∧
      LoRaGPS.enqueueOnPage blankarray book.aBookCalledManifest page item =
        some (book.aBookCalledManifest.set page queue') ∧
      (⟨book.aBookCalledManifest.set page queue', count⟩ : Book).Holds
        (Function.update P page (push numofReadings (P page) item)) := by
  obtain ⟨queue, f, hqueue, V⟩ := H.page page hpage
  obtain ⟨queue', f', henq, V'⟩ := V.enqueue blankarray item
  have hlen : page < book.aBookCalledManifest.length := by rw [H.pages]; exact hpage
  refine ⟨queue, queue', hqueue, henq, ?_, ⟨by simpa using H.pages, ?_⟩⟩
  · rw [LoRaGPS.enqueueOnPage, Checked.bind_of_eq hqueue, Checked.bind_of_eq henq,
      Checked.store_eq_some queue' hlen]
  · intro i hi
    by_cases hip : i = page
    · subst hip
      exact ⟨queue', f', List.getElem?_set_self hlen, by rwa [Function.update_self]⟩
    · obtain ⟨queueᵢ, fᵢ, hqueueᵢ, Vᵢ⟩ := H.page i hi
      refine ⟨queueᵢ, fᵢ, ?_, by rwa [Function.update_of_ne hip]⟩
      rw [← hqueueᵢ]
      exact List.getElem?_set_ne (Ne.symm hip)

/-- The outcome of the search for the page of an incoming record. -/
def searched (P : ℕ → List Information) (nodeID : BitVec 16) : ℕ ⊕ ℕ :=
  target P nodeID numofReadings 0 1

/-- **One record goes to its target page** and touches no other; the count of the discovered nodes
goes up exactly when the search did not find a page. -/
theorem Book.Holds.add {book : Book} {P : ℕ → List Information} (H : book.Holds P)
    (blankarray r : Information) :
    ∃ book', addIncomingCurrInfoToMyBookCalledManifest blankarray book r = some book' ∧
      book'.Holds (Function.update P (pageOf (searched P r.nodeID))
        (push numofReadings (P (pageOf (searched P r.nodeID))) r)) ∧
      (∀ i, i ≠ pageOf (searched P r.nodeID) →
        book'.aBookCalledManifest[i]? = book.aBookCalledManifest[i]?) ∧
      book'.numDiscoveredNodes = if (searched P r.nodeID).isLeft then book.numDiscoveredNodes
        else book.numDiscoveredNodes + 1 := by
  have hsearch : pageSearch blankarray book.aBookCalledManifest r.nodeID numofReadings 0 1 =
      some (searched P r.nodeID) := pageSearch_eq H blankarray r.nodeID _ _ _ (by simp)
  have hlt : pageOf (searched P r.nodeID) < maxNumNodes :=
    pageOf_target_lt P r.nodeID _ _ _ _ (by have := numofReadings_lt; omega) (by
      have := numofReadings_lt
      have := numofReadings_pos
      omega)
  rw [addIncomingCurrInfoToMyBookCalledManifest, Checked.bind_of_eq hsearch]
  cases hfound : searched P r.nodeID with
  | inl counter =>
      rw [hfound] at hlt
      obtain ⟨_, queue', _, _, hpages, H'⟩ :=
        H.enqueueOnPage blankarray hlt r book.numDiscoveredNodes
      exact ⟨_, Checked.bind_of_eq hpages _, H', fun i hi => List.getElem?_set_ne (Ne.symm hi), rfl⟩
  | inr indexofNextQueue =>
      rw [hfound] at hlt
      obtain ⟨_, queue', _, _, hpages, H'⟩ :=
        H.enqueueOnPage blankarray hlt r (book.numDiscoveredNodes + 1)
      exact ⟨_, Checked.bind_of_eq hpages _, H', fun i hi => List.getElem?_set_ne (Ne.symm hi), rfl⟩

/-- The search passes page `0` while that page is in use and headed by another ID. -/
theorem searched_of_head {P : ℕ → List Information} {nodeID : BitVec 16} {head : Information}
    {rest : List Information} (h₀ : P 0 = head :: rest) (hid : nodeID ≠ head.nodeID) :
    searched P nodeID = target P nodeID (numofReadings - 1) 1 1 := by
  rw [searched, show numofReadings = numofReadings - 1 + 1 from rfl, target, h₀]
  exact if_neg hid

/-- A record never goes to page `0` while that page is in use and headed by another ID. -/
theorem searched_ne_zero {P : ℕ → List Information} {nodeID : BitVec 16} {head : Information}
    {rest : List Information} (h₀ : P 0 = head :: rest) (hid : nodeID ≠ head.nodeID) :
    pageOf (searched P nodeID) ≠ 0 := by
  have hpos : ∀ rounds counter, 0 < counter → 0 < pageOf (target P nodeID rounds counter 1) := by
    intro rounds
    induction rounds with
    | zero => intro counter _; exact Nat.one_pos
    | succ rounds ih =>
        intro counter hcounter
        rw [target]
        split
        · exact hcounter
        · split
          · exact hcounter
          · exact ih (counter + 1) (by omega)
  rw [searched_of_head h₀ hid]
  exact Nat.ne_of_gt (hpos _ 1 Nat.one_pos)

/-- Pages that hold the logs of a table in order, without the first one. -/
theorem pages_tail {P : ℕ → List Information} {p : BitVec 16 × List Information}
    {t : List (BitVec 16 × List Information)} {counter : ℕ}
    (hP : ∀ i, P (counter + i) = logAt (p :: t) i) (i : ℕ) : P (counter + 1 + i) = logAt t i := by
  rw [Nat.add_assoc, Nat.add_comm 1 i, hP (i + 1)]
  rfl

/-- On pages that hold the logs of a table in order, the search finds the place of the key, or the
first place past the table, as long as its rounds last. -/
theorem target_table {P : ℕ → List Information} {t : List (BitVec 16 × List Information)}
    (ht : ∀ p ∈ t, p.2 ≠ [] ∧ ∀ x ∈ p.2, x.nodeID = p.1) (nodeID : BitVec 16)
    {rounds counter : ℕ} (hP : ∀ i, P (counter + i) = logAt t i) (indexofNextQueue : ℕ)
    (h : nodeID ∈ t.map Prod.fst ∨ t.length < rounds) (hlen : t.length ≤ rounds) :
    target P nodeID rounds counter indexofNextQueue =
      if nodeID ∈ t.map Prod.fst then .inl (counter + (t.map Prod.fst).idxOf nodeID)
      else .inr (counter + (t.map Prod.fst).idxOf nodeID) := by
  induction t generalizing rounds counter with
  | nil =>
      obtain ⟨rounds, rfl⟩ : ∃ n, rounds = n + 1 := ⟨rounds - 1, by simp at h; omega⟩
      have h₀ : P counter = [] := by simpa [logAt] using hP 0
      simp [target, h₀]
  | cons p t ih =>
      obtain ⟨k, l⟩ := p
      obtain ⟨rounds, rfl⟩ : ∃ n, rounds = n + 1 := ⟨rounds - 1, by simp at hlen; omega⟩
      obtain ⟨hne, hpure⟩ := ht (k, l) (List.mem_cons_self ..)
      obtain ⟨head, rest, rfl⟩ := List.exists_cons_of_ne_nil hne
      have h₀ : P counter = head :: rest := by simpa [logAt] using hP 0
      have hk : head.nodeID = k := hpure head (List.mem_cons_self ..)
      rw [target, h₀]
      by_cases hid : nodeID = k
      · simp [hid, hk]
      · have h' : nodeID ∈ t.map Prod.fst ∨ t.length < rounds := by
          rcases h with h | h
          · exact Or.inl ((List.mem_cons.1 h).resolve_left hid)
          · exact Or.inr (by simpa using h)
        have hrec := ih (fun p hp => ht p (List.mem_cons_of_mem _ hp)) (pages_tail hP) h'
          (by simpa using hlen)
        have hidx : ((k, head :: rest) :: t).map Prod.fst = k :: t.map Prod.fst := rfl
        rw [hidx, List.idxOf_cons_ne _ (Ne.symm hid)]
        simp only [hk, hrec, List.mem_cons, hid, false_or, if_false]
        rw [Nat.add_assoc, Nat.add_comm 1]

/-- When the rounds end on pages that are all in use by other IDs, the search ends with the page
it was given. -/
theorem target_full {P : ℕ → List Information} {t : List (BitVec 16 × List Information)}
    (ht : ∀ p ∈ t, p.2 ≠ [] ∧ ∀ x ∈ p.2, x.nodeID = p.1) {nodeID : BitVec 16} {counter : ℕ}
    (hP : ∀ i, P (counter + i) = logAt t i) (indexofNextQueue : ℕ)
    (h : nodeID ∉ t.map Prod.fst) :
    target P nodeID t.length counter indexofNextQueue = .inr indexofNextQueue := by
  induction t generalizing counter with
  | nil => rfl
  | cons p t ih =>
      obtain ⟨k, l⟩ := p
      obtain ⟨hne, hpure⟩ := ht (k, l) (List.mem_cons_self ..)
      obtain ⟨head, rest, rfl⟩ := List.exists_cons_of_ne_nil hne
      have h₀ : P counter = head :: rest := by simpa [logAt] using hP 0
      have hid : nodeID ≠ head.nodeID := by
        rw [hpure head (List.mem_cons_self ..)]
        exact fun e => h (by simp [e])
      rw [List.length_cons, target, h₀]
      simp only [if_neg hid]
      exact ih (fun p hp => ht p (List.mem_cons_of_mem _ hp)) (pages_tail hP)
        fun hm => h (List.mem_cons_of_mem _ hm)

/-- The number of pages in use is read off the contents. -/
theorem Book.Holds.nonEmptyPages {book : Book} {P : ℕ → List Information} (H : book.Holds P) :
    book.nonEmptyPages = (List.range maxNumNodes).countP fun i => !(P i).isEmpty := by
  have hmap : book.aBookCalledManifest.map (fun queue => !isEmpty queue) =
      (List.range maxNumNodes).map fun i => !(P i).isEmpty := by
    refine List.ext_getElem (by simpa using H.pages) ?_
    intro i h₁ h₂
    have hi : i < maxNumNodes := by simpa using h₂
    obtain ⟨queue, f, hqueue, V⟩ := H.page i hi
    have hlen : i < book.aBookCalledManifest.length := by rw [H.pages]; exact hi
    have hget : book.aBookCalledManifest[i] = queue := by
      rw [List.getElem?_eq_getElem hlen] at hqueue
      exact Option.some_inj.1 hqueue
    rw [List.getElem_map, hget, List.getElem_map, List.getElem_range]
    congr 1
    rw [Bool.eq_iff_iff, V.isEmpty_iff, List.isEmpty_iff, List.length_eq_zero_iff]
  have hcount := congrArg (List.countP id) hmap
  rw [Book.nonEmptyPages]
  simpa only [List.countP_map, Function.id_comp] using hcount

/-- The number of pages in use, when these are the first `n` pages. -/
theorem Book.Holds.nonEmptyPages_eq {book : Book} {P : ℕ → List Information} (H : book.Holds P)
    {n : ℕ} (hn : n ≤ maxNumNodes) (hP : ∀ i, i < maxNumNodes → (P i ≠ [] ↔ i < n)) :
    book.nonEmptyPages = n := by
  have hrange : List.range maxNumNodes =
      List.range n ++ (List.range (maxNumNodes - n)).map (n + ·) := by
    rw [← List.range_add]
    congr 1
    omega
  rw [H.nonEmptyPages, hrange, List.countP_append]
  have hused : (List.range n).countP (fun i => !(P i).isEmpty) = n := by
    rw [List.countP_eq_length.2, List.length_range]
    intro i hi
    have hi := List.mem_range.1 hi
    simpa using (hP i (by omega)).2 hi
  have hfree :
      ((List.range (maxNumNodes - n)).map (n + ·)).countP (fun i => !(P i).isEmpty) = 0 := by
    rw [List.countP_eq_zero]
    intro i hi
    obtain ⟨j, hj, rfl⟩ := List.mem_map.1 hi
    have hj := List.mem_range.1 hj
    have hempty : ¬ P (n + j) ≠ [] := by rw [hP (n + j) (by omega)]; omega
    simpa using hempty
  rw [hused, hfree, Nat.add_zero]

end LoRaGPS
