/-
**The overwriting ring queue of the manifest book.**

`GlobalVarbs.h` (and `1LoRaNode_allin1file.ino` after it) keeps the readings of one node in a
queue of fixed capacity on an array, with the modification that `enqueue` on a full queue first
drops the oldest item.  The indices are `int`, the capacity is `unsigned`; every expression is
translated with the conversions the language makes, and is `none` where an `int` would overflow or
an index would leave the array.

Main definitions:

* `LoRaGPS.Queue`, `LoRaGPS.createQueue`, `LoRaGPS.isFull`, `LoRaGPS.isEmpty`, `LoRaGPS.dequeue`,
  `LoRaGPS.enqueue`, `LoRaGPS.front`, `LoRaGPS.rear` — the code;
* `LoRaGPS.fifoCall` — the list the queue is meant to be;
* `LoRaGPS.Queue.Valid` — the ring invariant, `rear = front + size - 1` modulo the capacity.

Main results:

* `LoRaGPS.Queue.Valid.dequeue`, `LoRaGPS.Queue.Valid.enqueue` — one call on a queue that satisfies
  the invariant;
* `LoRaGPS.runCalls_valid` — **every run of calls follows the list**;
* `LoRaGPS.queue_refines_fifo` — what a client of the queue can observe.
-/

import LoRaGPS.Checked
import LoRaGPS.KeyedLog
import LoRaGPS.Ring

set_option relaxedAutoImplicit false
set_option autoImplicit false

namespace LoRaGPS

open KeyedLog

/-! ### The code -/

/-- `struct information`.  The `double` fields are kept as bit patterns. -/
structure Information where
  readingID : BitVec 16
  nodeID : BitVec 16
  currLat : BitVec 64
  currLon : BitVec 64
  currAlt : BitVec 64
deriving DecidableEq, Repr

/-- The zero-initialised record. -/
def Information.zero : Information := ⟨0, 0, 0, 0, 0⟩

/-- `sizeof(information)`: two 16-bit words, four bytes of padding, three doubles. -/
def sizeofInformation : ℕ := 32

/-- `struct Queue`: `front`, `rear` and `size` are `int`, `capacity` is `unsigned`. -/
structure Queue where
  front : ℤ
  rear : ℤ
  size : ℤ
  capacity : ℕ
  array : List Information
deriving DecidableEq, Repr

/-- `createQueue`, on memory whose cells hold `heap` when they are allocated. -/
def createQueue (heap : ℕ → Information) (capacity : ℕ) : Option Queue := do
  let rear ← Checked.int (((capacity + 2 ^ 32 - 1) % 2 ^ 32 : ℕ) : ℤ)
  let bytes := capacity * sizeofInformation % 2 ^ 32
  some ⟨0, rear, 0, capacity, (List.range (bytes / sizeofInformation)).map heap⟩

/-- `isFull`: the `int` size is compared as an `unsigned`. -/
def isFull (queue : Queue) : Bool := decide (Checked.toUnsigned queue.size = queue.capacity)

/-- `isEmpty`. -/
def isEmpty (queue : Queue) : Bool := decide (queue.size = 0)

/-- `dequeue`, where `blankarray` is what an uninitialised record happens to hold. -/
def dequeue (blankarray : Information) (queue : Queue) : Option (Information × Queue) :=
  if isEmpty queue then some (blankarray, queue)
  else do
    let item ← Checked.loadInt queue.array queue.front
    let front ← Checked.modUnsigned (← Checked.addInt queue.front 1) queue.capacity
    let front ← Checked.int front
    let size ← Checked.subInt queue.size 1
    some (item, { queue with front := front, size := size })

/-- The lines of `enqueue` that write the item, after room was made for it. -/
def Queue.append (queue : Queue) (item : Information) : Option Queue := do
  let rear ← Checked.modUnsigned (← Checked.addInt queue.rear 1) queue.capacity
  let rear ← Checked.int rear
  let array ← Checked.storeInt queue.array rear item
  let size ← Checked.addInt queue.size 1
  some { queue with rear := rear, array := array, size := size }

/-- `enqueue`: a full queue drops its oldest item first. -/
def enqueue (blankarray : Information) (queue : Queue) (item : Information) : Option Queue := do
  let queue ← if isFull queue then (dequeue blankarray queue).map Prod.snd else some queue
  queue.append item

/-- `front`. -/
def front (blankarray : Information) (queue : Queue) : Option Information :=
  if isEmpty queue then some blankarray else Checked.loadInt queue.array queue.front

/-- `rear`. -/
def rear (blankarray : Information) (queue : Queue) : Option Information :=
  if isEmpty queue then some blankarray else Checked.loadInt queue.array queue.rear

/-- A call that changes the queue. -/
inductive QueueCall where
  | enqueue (item : Information)
  | dequeue
deriving DecidableEq, Repr

/-- One call, its result discarded. -/
def Queue.call (blankarray : Information) (queue : Queue) : QueueCall → Option Queue
  | .enqueue item => LoRaGPS.enqueue blankarray queue item
  | .dequeue => (LoRaGPS.dequeue blankarray queue).map Prod.snd

/-- A sequence of calls. -/
def runCalls (blankarray : Information) (queue : Queue) (calls : List QueueCall) : Option Queue :=
  calls.foldlM (Queue.call blankarray) queue

/-- Reading `size` items from index `front` around the ring. -/
def Queue.items (queue : Queue) : List (Option Information) :=
  (List.range queue.size.toNat).map fun i =>
    queue.array[(queue.front.toNat + i) % queue.capacity]?

/-! ### The list the queue is meant to be -/

/-- One call on a list of at most `c` items. -/
def fifoCall (c : ℕ) (l : List Information) : QueueCall → List Information
  | .enqueue item => (if l.length = c then l.tail else l) ++ [item]
  | .dequeue => l.tail

/-- A sequence of calls, from the empty list. -/
def fifoRun (c : ℕ) (calls : List QueueCall) : List Information := calls.foldl (fifoCall c) []

theorem fifoRun_append (c : ℕ) (calls : List QueueCall) (call : QueueCall) :
    fifoRun c (calls ++ [call]) = fifoCall c (fifoRun c calls) call := by
  rw [fifoRun, List.foldl_append]
  rfl

/-- Enqueueing is appending to a log of depth `c`. -/
theorem fifoCall_enqueue {c : ℕ} {l : List Information} (hc : 0 < c) (h : l.length ≤ c)
    (item : Information) : fifoCall c l (.enqueue item) = push c l item := by
  by_cases hfull : l.length = c
  · rw [fifoCall, if_pos hfull, push_of_full item hc hfull]
  · rw [fifoCall, if_neg hfull, push_of_lt item (by omega)]

/-! ### The ring invariant -/

/-- The queue holds the list `l` in a ring of `c` cells starting at cell `f`. -/
structure Queue.Valid (q : Queue) (c f : ℕ) (l : List Information) : Prop where
  capacity : q.capacity = c
  cells : q.array.length = c
  front : q.front = (f : ℤ)
  front_lt : f < c
  size : q.size = (l.length : ℤ)
  rear : q.rear = ((f + l.length + (c - 1)) % c : ℕ)
  holds : Ring.Holds q.array f l
  small : c < 2 ^ 27

theorem createQueue_valid {c : ℕ} (hc : 1 ≤ c) (hbytes : c * sizeofInformation < 2 ^ 32)
    (heap : ℕ → Information) :
    ∃ q, createQueue heap c = some q ∧ q.Valid c 0 [] := by
  have hsmall : c < 2 ^ 27 := by unfold sizeofInformation at hbytes; omega
  have hrear : (c + 2 ^ 32 - 1) % 2 ^ 32 = c - 1 := by omega
  have hcells : c * sizeofInformation % 2 ^ 32 / sizeofInformation = c := by
    rw [Nat.mod_eq_of_lt hbytes, Nat.mul_div_cancel _ (by decide)]
  refine ⟨⟨0, ((c - 1 : ℕ) : ℤ), 0, c, (List.range c).map heap⟩, ?_, ?_⟩
  · rw [createQueue, hrear, Checked.int_eq_some (by omega) (by omega)]
    simp only [Option.bind_eq_bind, Option.bind_some, hcells]
  · exact { capacity := rfl
            cells := by simp
            front := rfl
            front_lt := by omega
            size := rfl
            rear := by simp [Nat.mod_eq_of_lt (show c - 1 < c by omega)]
            holds := Ring.Holds.nil _ _
            small := hsmall }

namespace Queue.Valid

variable {q : Queue} {c f : ℕ} {l : List Information}

theorem length_le (V : q.Valid c f l) : l.length ≤ c := V.cells ▸ V.holds.fits

theorem isFull_iff (V : q.Valid c f l) : isFull q = true ↔ l.length = c := by
  have hle := V.length_le
  have hsmall := V.small
  rw [isFull, V.size, V.capacity, Checked.toUnsigned_of_nonneg (by omega), decide_eq_true_iff]

theorem isEmpty_iff (V : q.Valid c f l) : isEmpty q = true ↔ l.length = 0 := by
  rw [isEmpty, V.size, decide_eq_true_iff]
  omega

/-- The items read off the queue are those of the list. -/
theorem items (V : q.Valid c f l) : q.items = l.map some := by
  rw [Queue.items, V.size, V.front, V.capacity, ← V.cells]
  exact V.holds.read

/-- On an empty queue nothing is removed. -/
theorem dequeue_nil (V : q.Valid c f []) (blankarray : Information) :
    LoRaGPS.dequeue blankarray q = some (blankarray, q) := by
  rw [LoRaGPS.dequeue, if_pos (V.isEmpty_iff.2 rfl)]

/-- Removing the head of the list: the front moves one cell on. -/
theorem dequeue {x : Information} (V : q.Valid c f (x :: l)) (blankarray : Information) :
    ∃ q', LoRaGPS.dequeue blankarray q = some (x, q') ∧ q'.Valid c ((f + 1) % c) l := by
  have hf := V.front_lt
  have hle := V.length_le
  have hsmall := V.small
  have hmodlt : (f + 1) % c < c := Nat.mod_lt _ (by omega)
  rw [List.length_cons] at hle
  have hne : ¬ isEmpty q = true := by rw [V.isEmpty_iff]; simp
  have hitem : Checked.loadInt q.array q.front = some x := by
    rw [V.front, Checked.loadInt_natCast]
    exact V.holds.head (by rw [V.cells]; exact hf)
  have hnext : Checked.addInt q.front 1 = some ((f + 1 : ℕ) : ℤ) := by
    rw [V.front]
    exact Checked.addInt_natCast (a := f) (b := 1) (by omega)
  have hmod : Checked.modUnsigned ((f + 1 : ℕ) : ℤ) q.capacity = some ((f + 1) % c) := by
    rw [V.capacity, Checked.modUnsigned_natCast (by omega) (by omega)]
  have hint : Checked.int (((f + 1) % c : ℕ) : ℤ) = some (((f + 1) % c : ℕ) : ℤ) :=
    Checked.int_eq_some (by omega) (by omega)
  have hsize : Checked.subInt q.size 1 = some (l.length : ℤ) := by
    rw [V.size, List.length_cons]
    exact Checked.subInt_natCast (a := l.length + 1) (b := 1) (by omega) (by omega)
  refine ⟨{ q with front := (((f + 1) % c : ℕ) : ℤ), size := (l.length : ℤ) }, ?_, ?_⟩
  · rw [LoRaGPS.dequeue, if_neg hne, Checked.bind_of_eq hitem, Checked.bind_of_eq hnext,
      Checked.bind_of_eq hmod, Checked.bind_of_eq hint, Checked.bind_of_eq hsize]
  · have hrear : ((f + 1) % c + l.length + (c - 1)) % c = (f + (l.length + 1) + (c - 1)) % c := by
      rw [Nat.add_assoc, Nat.mod_add_mod,
        show f + 1 + (l.length + (c - 1)) = f + (l.length + 1) + (c - 1) by omega]
    exact { capacity := V.capacity
            cells := V.cells
            front := rfl
            front_lt := hmodlt
            size := rfl
            rear := by rw [hrear, ← List.length_cons (a := x)]; exact V.rear
            holds := by have := V.holds.dequeue; rwa [V.cells] at this
            small := hsmall }

/-- Writing an item where there is room: the rear moves one cell on. -/
theorem append (V : q.Valid c f l) (hroom : l.length < c) (item : Information) :
    ∃ q', q.append item = some q' ∧ q'.Valid c f (l ++ [item]) := by
  have hf := V.front_lt
  have hsmall := V.small
  have hmodlt : (f + l.length) % c < c := Nat.mod_lt _ (by omega)
  have hrearlt : (f + l.length + (c - 1)) % c < c := Nat.mod_lt _ (by omega)
  have hwrap : ((f + l.length + (c - 1)) % c + 1) % c = (f + l.length) % c := by
    rw [Nat.mod_add_mod, show f + l.length + (c - 1) + 1 = f + l.length + c by omega,
      Nat.add_mod_right]
  have hnext : Checked.addInt q.rear 1 = some (((f + l.length + (c - 1)) % c + 1 : ℕ) : ℤ) := by
    rw [V.rear]
    exact Checked.addInt_natCast (b := 1) (by omega)
  have hmod : Checked.modUnsigned (((f + l.length + (c - 1)) % c + 1 : ℕ) : ℤ) q.capacity =
      some ((f + l.length) % c) := by
    rw [V.capacity, Checked.modUnsigned_natCast (by omega) (by omega), hwrap]
  have hint : Checked.int (((f + l.length) % c : ℕ) : ℤ) = some (((f + l.length) % c : ℕ) : ℤ) :=
    Checked.int_eq_some (by omega) (by omega)
  have hstore : Checked.storeInt q.array (((f + l.length) % c : ℕ) : ℤ) item =
      some (q.array.set ((f + l.length) % c) item) := by
    rw [Checked.storeInt_natCast, Checked.store_eq_some item (by rw [V.cells]; exact hmodlt)]
  have hsize : Checked.addInt q.size 1 = some ((l.length + 1 : ℕ) : ℤ) := by
    rw [V.size]
    exact Checked.addInt_natCast (b := 1) (by omega)
  refine ⟨{ q with rear := (((f + l.length) % c : ℕ) : ℤ),
                   array := q.array.set ((f + l.length) % c) item,
                   size := ((l.length + 1 : ℕ) : ℤ) }, ?_, ?_⟩
  · rw [Queue.append, Checked.bind_of_eq hnext, Checked.bind_of_eq hmod, Checked.bind_of_eq hint,
      Checked.bind_of_eq hstore, Checked.bind_of_eq hsize]
  · exact { capacity := V.capacity
            cells := by simpa using V.cells
            front := V.front
            front_lt := hf
            size := by simp
            rear := by
              rw [List.length_append, List.length_singleton,
                show f + (l.length + 1) + (c - 1) = f + l.length + c by omega, Nat.add_mod_right]
            holds := by
              have := V.holds.enqueue (by rw [V.cells]; exact hroom) item
              rwa [V.cells] at this
            small := hsmall }

/-- **Appending to the queue** is appending to a log of depth `c`: a full queue first drops the
head, which is where a ring of capacity one meets itself. -/
theorem enqueue (V : q.Valid c f l) (blankarray item : Information) :
    ∃ q' f', LoRaGPS.enqueue blankarray q item = some q' ∧ q'.Valid c f' (push c l item) := by
  have hf := V.front_lt
  rcases Nat.lt_or_ge l.length c with hroom | hfull
  · obtain ⟨q', hq', V'⟩ := V.append hroom item
    have hnotfull : ¬ isFull q = true := by rw [V.isFull_iff]; omega
    refine ⟨q', f, ?_, by rwa [push_of_lt item hroom]⟩
    rw [LoRaGPS.enqueue, if_neg hnotfull]
    exact hq'
  · have hlen : l.length = c := le_antisymm V.length_le hfull
    cases l with
    | nil => simp at hlen; omega
    | cons x l' =>
        obtain ⟨q₁, hq₁, V₁⟩ := V.dequeue blankarray
        obtain ⟨q', hq', V'⟩ := V₁.append (by simp at hlen; omega) item
        refine ⟨q', _, ?_, by rw [push_of_full item (by omega) hlen]; exact V'⟩
        rw [LoRaGPS.enqueue, if_pos (V.isFull_iff.2 hlen), hq₁]
        exact hq'

/-- `front` returns the head of the list. -/
theorem front_cons {x : Information} (V : q.Valid c f (x :: l)) (blankarray : Information) :
    LoRaGPS.front blankarray q = some x := by
  have hne : ¬ isEmpty q = true := by rw [V.isEmpty_iff]; simp
  rw [LoRaGPS.front, if_neg hne, V.front, Checked.loadInt_natCast]
  exact V.holds.head (by rw [V.cells]; exact V.front_lt)

/-- `rear` returns the last item of the list. -/
theorem rear_concat {x : Information} (V : q.Valid c f (l ++ [x])) (blankarray : Information) :
    LoRaGPS.rear blankarray q = some x := by
  have hf := V.front_lt
  have hne : ¬ isEmpty q = true := by rw [V.isEmpty_iff]; simp
  have hwrap : (f + (l ++ [x]).length + (c - 1)) % c = (f + l.length) % c := by
    rw [List.length_append, List.length_singleton,
      show f + (l.length + 1) + (c - 1) = f + l.length + c by omega, Nat.add_mod_right]
  rw [LoRaGPS.rear, if_neg hne, V.rear, hwrap, Checked.loadInt_natCast, ← V.cells]
  exact V.holds.last

end Queue.Valid

/-- **Every run of calls follows the list.** -/
theorem runCalls_valid {c f₀ : ℕ} {q₀ : Queue} (hc : 0 < c) (V₀ : q₀.Valid c f₀ [])
    (blankarray : Information) (calls : List QueueCall) :
    ∃ q f, runCalls blankarray q₀ calls = some q ∧ q.Valid c f (fifoRun c calls) := by
  induction calls using List.reverseRecOn with
  | nil => exact ⟨q₀, f₀, rfl, V₀⟩
  | append_singleton calls call ih =>
      obtain ⟨q, f, hrun, V⟩ := ih
      have hstep : runCalls blankarray q₀ (calls ++ [call]) = q.call blankarray call := by
        rw [runCalls] at hrun ⊢
        simp [List.foldlM_append, hrun]
      rw [hstep, fifoRun_append]
      cases call with
      | enqueue item =>
          obtain ⟨q', f', hq', V'⟩ := V.enqueue blankarray item
          exact ⟨q', f', hq', by rwa [fifoCall_enqueue hc V.length_le]⟩
      | dequeue =>
          cases hl : fifoRun c calls with
          | nil =>
              rw [hl] at V
              refine ⟨q, f, ?_, V⟩
              rw [Queue.call, V.dequeue_nil]
              rfl
          | cons x l =>
              rw [hl] at V
              obtain ⟨q', hq', V'⟩ := V.dequeue blankarray
              refine ⟨q', _, ?_, V'⟩
              rw [Queue.call, hq']
              rfl

/-! ### What a client of the queue can observe -/

/-- The queue `q` of capacity `c` behaves as the list `l`. -/
structure BehavesAs (q : Queue) (c : ℕ) (l : List Information) : Prop where
  items : q.items = l.map some
  size_bounds : 0 ≤ q.size ∧ q.size ≤ c
  front_bounds : 0 ≤ q.front ∧ q.front < c
  rear_bounds : 0 ≤ q.rear ∧ q.rear < c
  full_iff : isFull q = true ↔ l.length = c
  empty_iff : isEmpty q = true ↔ l.length = 0
  dequeue_nil : l = [] → ∀ blankarray, dequeue blankarray q = some (blankarray, q)
  dequeue_cons : ∀ x l', l = x :: l' → ∀ blankarray, ∃ q', dequeue blankarray q = some (x, q')
  front_cons : ∀ x l', l = x :: l' → ∀ blankarray, front blankarray q = some x
  rear_concat : ∀ l' x, l = l' ++ [x] → ∀ blankarray, rear blankarray q = some x

theorem Queue.Valid.behavesAs {q : Queue} {c f : ℕ} {l : List Information} (V : q.Valid c f l) :
    BehavesAs q c l where
  items := V.items
  size_bounds := by have := V.length_le; rw [V.size]; omega
  front_bounds := by have := V.front_lt; rw [V.front]; omega
  rear_bounds := by
    have := V.front_lt
    have : (f + l.length + (c - 1)) % c < c := Nat.mod_lt _ (by omega)
    rw [V.rear]
    omega
  full_iff := V.isFull_iff
  empty_iff := V.isEmpty_iff
  dequeue_nil := by rintro rfl blankarray; exact V.dequeue_nil blankarray
  dequeue_cons := by
    rintro x l' rfl blankarray
    obtain ⟨q', hq', -⟩ := V.dequeue blankarray
    exact ⟨q', hq'⟩
  front_cons := by rintro x l' rfl blankarray; exact V.front_cons blankarray
  rear_concat := by rintro l' x rfl blankarray; exact V.rear_concat blankarray

/-- **The ring queue refines a bounded list**: after any sequence of calls on a fresh queue of
capacity `c`, none of which overflows an `int` or leaves the array, the queue behaves as the list
of at most `c` items that the calls describe. -/
theorem queue_refines_fifo (heap : ℕ → Information) (blankarray : Information) (c : ℕ)
    (hc : 1 ≤ c) (hbytes : c * sizeofInformation < 2 ^ 32) (calls : List QueueCall) :
    ∃ q₀ q, createQueue heap c = some q₀ ∧ runCalls blankarray q₀ calls = some q ∧
      BehavesAs q c (fifoRun c calls) := by
  obtain ⟨q₀, hq₀, V₀⟩ := createQueue_valid hc hbytes heap
  obtain ⟨q, f, hrun, V⟩ := runCalls_valid hc V₀ blankarray calls
  exact ⟨q₀, q, hq₀, hrun, V.behavesAs⟩

/-- A queue of capacity three, whose end has come round to the first cell and past it. -/
theorem queue_refines_fifo_three :
    ∃ q₀ q, createQueue (fun _ => Information.zero) 3 = some q₀ ∧
      runCalls Information.zero q₀
        [.enqueue ⟨0, 7, 0, 0, 0⟩, .enqueue ⟨1, 7, 0, 0, 0⟩, .enqueue ⟨2, 7, 0, 0, 0⟩,
          .enqueue ⟨3, 7, 0, 0, 0⟩, .dequeue, .enqueue ⟨4, 7, 0, 0, 0⟩] = some q ∧
      BehavesAs q 3 [⟨2, 7, 0, 0, 0⟩, ⟨3, 7, 0, 0, 0⟩, ⟨4, 7, 0, 0, 0⟩] :=
  queue_refines_fifo (fun _ => Information.zero) Information.zero 3 (by decide) (by decide) _

end LoRaGPS
