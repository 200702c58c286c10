/-
**A fleet of boards with the book.**

Boards that run `Node1_rcvrTry2.5.ino` within range of each other.  Each one sends a reading of its
own in every iteration and then waits for a packet, while the others go on; a packet may be lost,
or reach a board late or more than once.  No board sends on what it has received, so whatever lies
on a page of another board was taken by a board that was heard itself.

Main definitions:

* `LoRaGPS.Information.bytes` — the packet of a board;
* `LoRaGPS.ManifestFleet`, `LoRaGPS.Board`, `LoRaGPS.ManifestFleet.Step` — the boards and their
  runs;
* `LoRaGPS.FleetBook` — what the book of a board holds;
* `LoRaGPS.Board.boardsHeard`, `LoRaGPS.FleetPages` — the boards that a board has heard, in order,
  and their pages.

Main results:

* `LoRaGPS.received_information` — **a packet is received as it was sent**;
* `LoRaGPS.ManifestFleet.Step.ok` — every event keeps every board in order;
* `LoRaGPS.fleet_books` — **the books of any number of boards, in every reachable state**;
* `LoRaGPS.fleet_pages` — **the pages of up to three boards that hear each other in order**.
-/

import LoRaGPS.Flood
import LoRaGPS.ManifestPages
import LoRaGPS.ShortPackets
import Mathlib.Data.Fintype.Card

set_option relaxedAutoImplicit false
set_option autoImplicit false

namespace LoRaGPS

open Bytes KeyedLog

/-! ### The packet of a board -/

theorem half_low (m : Memory) (a : ℕ) : half m a = (m.word a).extractLsb' 0 16 := by
  have h := ofWord_word m a
  simp only [ofWord, List.cons.injEq] at h
  rw [half, ← h.1, ← h.2.1]
  exact BitVec.extractLsb'_append_extractLsb'_eq_extractLsb' (by rfl)

theorem half_high (m : Memory) (a : ℕ) : half m (a + 2) = (m.word a).extractLsb' 16 16 := by
  have h := ofWord_word m a
  simp only [ofWord, List.cons.injEq] at h
  rw [half, ← h.2.2.1, ← h.2.2.2.1]
  exact BitVec.extractLsb'_append_extractLsb'_eq_extractLsb' (by rfl)

/-- The two words of a `double`, the lower one first. -/
def doubleWords (d : BitVec 64) : List (BitVec 32) := [d.extractLsb' 0 32, d.extractLsb' 32 32]

/-- The words of a `struct information`; `pad` is what lies between the IDs and the doubles. -/
def Information.words (r : Information) (pad : BitVec 32) : List (BitVec 32) :=
  [r.nodeID ++ r.readingID, pad] ++ doubleWords r.currLat ++ doubleWords r.currLon ++
    doubleWords r.currAlt

/-- The bytes of a `struct information`. -/
def Information.bytes (r : Information) (pad : BitVec 32) : List (BitVec 8) := encode (r.words pad)

theorem Information.length_bytes (r : Information) (pad : BitVec 32) :
    (r.bytes pad).length = sizeofInformation := length_encode _

/-- The words of a record are read as the record. -/
theorem Information.load_of_words {m : Memory} {r : Information} {pad : BitVec 32}
    (h : m.words 0 8 = r.words pad) : Information.load m 0 = r := by
  simp only [Memory.words, Information.words, doubleWords, List.cons_append, List.nil_append,
    List.cons.injEq] at h
  obtain ⟨hids, -, hlat₀, hlat₁, hlon₀, hlon₁, halt₀, halt₁, -⟩ := h
  have hdouble : ∀ d : BitVec 64, d.extractLsb' 32 32 ++ d.extractLsb' 0 32 = d := by
    intro d
    rw [BitVec.extractLsb'_append_extractLsb'_eq_extractLsb' (by rfl)]
    exact BitVec.extractLsb'_eq_self
  have hreading : half m 0 = r.readingID := by
    rw [half_low, hids]
    exact BitVec.extractLsb'_append_eq_right
  have hnode : half m (0 + 2) = r.nodeID := by
    rw [half_high, hids, BitVec.extractLsb'_append_eq_of_le (by omega)]
    exact BitVec.extractLsb'_eq_self
  rw [Information.load, hreading, hnode, double, double, double, hlat₀, hlat₁, hlon₀, hlon₁, halt₀,
    halt₁, hdouble, hdouble, hdouble]

/-- **A packet is received as it was sent**, whatever the buffer held and lies in the padding. -/
theorem received_information (R : Radios) (buf : Memory) (r : Information) (pad : BitVec 32) :
    Information.load (R.rf95Recv buf sizeofInformation (R.rf95Send (r.bytes pad))) 0 = r := by
  obtain ⟨header, hlen, hsend⟩ := R.rf95Send_header (r.bytes pad)
  have hbytes := r.length_bytes pad
  have hframe : 4 ≤ (header ++ r.bytes pad).length := by
    rw [List.length_append, hlen]
    omega
  rw [hsend, R.rf95Recv_strips _ _ _ hframe, List.drop_left' hlen,
    List.take_of_length_le (Nat.le_of_eq hbytes)]
  exact Information.load_of_words (words_write buf 0 [] (r.words pad))

/-! ### The fleet -/

variable {ι : Type}

/-- Boards with distinct IDs, and what their memory holds before they are switched on. -/
structure ManifestFleet (ι : Type) where
  curr_ID : ι → BitVec 16
  distinct : Function.Injective curr_ID
  heap : ι → ℕ → ℕ → Information
  blankarray : ι → Information
  fix₀ : ι → Fix

/-- The `place`-th record that `source` has sent, which was received. -/
structure Hearing (ι : Type) where
  source : ι
  place : ℕ
  record : Information

/-- A board, with the records it has sent and received.  It is `listening` between the second and
the third step of `loop()`. -/
structure Board (ι : Type) where
  node : Node1
  sent : List Information
  heard : List (Hearing ι)
  listening : Bool

/-- What a board has received of the board `j`. -/
def Board.heardFrom [DecidableEq ι] (b : Board ι) (j : ι) : List (Hearing ι) :=
  b.heard.filter fun x => x.source = j

/-- A packet on its way: the record, the padding it was sent with, and what the buffer of the
receiver holds before. -/
structure Arrival (ι : Type) where
  hearing : Hearing ι
  pad : BitVec 32
  buf : Memory

/-- The record that is copied to `incoming_curr_info`. -/
def Arrival.incoming (R : Radios) (d : Arrival ι) : Information :=
  Information.load
    (R.rf95Recv d.buf sizeofInformation (R.rf95Send (d.hearing.record.bytes d.pad))) 0

/-- The readings on a page of the book. -/
def Book.page (book : Book) (k : ℕ) : List (Option Information) :=
  book.aBookCalledManifest[k]?.elim [] Queue.items

namespace ManifestFleet

variable (F : ManifestFleet ι) (R : Radios)

/-- The first two steps of `loop()`: the board takes a reading, and sends the bytes of
`curr_info`. -/
def send (i : ι) (b : Board ι) (gps : Option Fix) : Option (Board ι) :=
  (step1 (F.blankarray i) (F.curr_ID i) b.node gps).map fun node =>
    { b with node := node, sent := b.sent ++ [node.currInfo], listening := true }

/-- The third step of `loop()`: the board waits for a packet. -/
def listen (i : ι) (b : Board ι) (d : Option (Arrival ι)) : Option (Board ι) :=
  (step3 (F.blankarray i) b.node (d.map (Arrival.incoming R))).map fun node =>
    { b with node := node, heard := b.heard ++ (d.map Arrival.hearing).toList, listening := false }

/-- All the boards have just been switched on. -/
def Start (t : ι → Board ι) : Prop :=
  ∀ i, setup (F.heap i) (F.fix₀ i) = some (t i).node ∧ (t i).sent = [] ∧ (t i).heard = [] ∧
    (t i).listening = false

variable [DecidableEq ι] (channel : List ℕ → ℕ → Prop)

/-- The board `i` may receive `d` now. -/
def Delivers (t : ι → Board ι) (i : ι) (d : Arrival ι) : Prop :=
  d.hearing.source ≠ i ∧ (t d.hearing.source).sent[d.hearing.place]? = some d.hearing.record ∧
    channel (((t i).heardFrom d.hearing.source).map Hearing.place) d.hearing.place

/-- One event at one board. -/
inductive Step (t : ι → Board ι) : (ι → Board ι) → Prop
  | send {i : ι} {gps : Option Fix} {b : Board ι} (hi : (t i).listening = false)
      (hb : F.send i (t i) gps = some b) : Step t (Function.update t i b)
  | listen {i : ι} {d : Option (Arrival ι)} {b : Board ι} (hi : (t i).listening = true)
      (hd : ∀ e ∈ d, Delivers channel t i e) (hb : F.listen R i (t i) d = some b) :
      Step t (Function.update t i b)

/-- The states that some order of events leads to. -/
def Reachable (t : ι → Board ι) : Prop :=
  ∃ t₀, F.Start t₀ ∧ Relation.ReflTransGen (Step F R channel) t₀ t

end ManifestFleet

/-! ### Every event keeps the boards in order -/

/-- A page of the book shows what it holds. -/
theorem Book.Holds.page_items {book : Book} {P : ℕ → List Information} (H : book.Holds P) {k : ℕ}
    (hk : k < maxNumNodes) : book.page k = (P k).map some := by
  obtain ⟨queue, f, hqueue, V⟩ := H.page k hk
  rw [Book.page, hqueue]
  exact V.items

theorem Book.Holds.page_of_ge {book : Book} {P : ℕ → List Information} (H : book.Holds P) {k : ℕ}
    (hk : maxNumNodes ≤ k) : book.page k = [] := by
  rw [Book.page, List.getElem?_eq_none (by rw [H.pages]; exact hk)]
  rfl

/-- The record that is sent is the own reading that was taken. -/
theorem step1_currInfo {heap : ℕ → ℕ → Information} {blankarray : Information}
    {currID : BitVec 16} {fix₀ : Fix} {gps : List (Option Fix)} {rs : List Information}
    {node node' : Node1} {P : ℕ → List Information}
    (I : Inv heap blankarray currID fix₀ gps rs node P) {g : Option Fix}
    (h : step1 blankarray currID node g = some node') :
    node'.currInfo = ownReading currID gps.length (fixAfter fix₀ (gps ++ [g])) := by
  rw [step1] at h
  obtain ⟨pages, -, h⟩ := Option.bind_eq_some_iff.1 h
  obtain ⟨manifest, -, h⟩ := Option.bind_eq_some_iff.1 h
  obtain rfl := Option.some_inj.1 h
  have hfix : g.getD node.fix = fixAfter fix₀ (gps ++ [g]) := by rw [fixAfter_append, I.lastFix]
  exact (congrArg₂ (fun n f => fillIn node.currInfo n currID f) I.counter hfix).trans
    (fillIn_eq I.currAlt currID gps.length _)

/-- The board `i` of the fleet is in order: what it has sent are the readings it has taken, what it
has received was sent by another board, and the pages of the other boards hold nothing but what it
has received. -/
structure Board.Ok (F : ManifestFleet ι) (t : ι → Board ι) (i : ι) (b : Board ι) : Prop where
  inv : ∃ gps P, Inv (F.heap i) (F.blankarray i) (F.curr_ID i) (F.fix₀ i) gps
      (b.heard.map Hearing.record) b.node P ∧
    b.sent = ownReadings (F.curr_ID i) (F.fix₀ i) gps ∧
    ∀ k < maxNumNodes, k ≠ 0 → ∀ r ∈ P k, r ∈ b.heard.map Hearing.record
  heard : ∀ x ∈ b.heard, x.source ≠ i ∧ (t x.source).sent[x.place]? = some x.record
  started : b.listening = true → b.sent ≠ []

section Events

variable {F : ManifestFleet ι} {R : Radios} {t t' : ι → Board ι} {i : ι} {b : Board ι}

theorem Board.Ok.mono (h : b.Ok F t i) (hmono : ∀ j, (t j).sent <+: (t' j).sent) :
    b.Ok F t' i := by
  refine { h with heard := ?_ }
  intro x hx
  obtain ⟨hsource, hrecord⟩ := h.heard x hx
  obtain ⟨hlt, -⟩ := List.getElem?_eq_some_iff.1 hrecord
  obtain ⟨l, hl⟩ := hmono x.source
  exact ⟨hsource, by rw [← hl, List.getElem?_append_left hlt, hrecord]⟩

/-- What a board has sent carries its ID. -/
theorem Board.Ok.nodeID (h : b.Ok F t i) {r : Information} (hr : r ∈ b.sent) :
    r.nodeID = F.curr_ID i := by
  obtain ⟨gps, P, -, hsent, -⟩ := h.inv
  rw [hsent] at hr
  exact nodeID_of_mem_ownReadings hr

/-- **A board can always send**, and stays in order. -/
theorem Board.Ok.send (h : b.Ok F t i) (g : Option Fix) :
    ∃ b', F.send i b g = some b' ∧ b'.Ok F t i ∧ b.sent <+: b'.sent ∧ b'.heard = b.heard := by
  obtain ⟨gps, P, I, hsent, hpages⟩ := h.inv
  obtain ⟨node', hstep, I'⟩ := step1_inv I g
  refine ⟨{ b with node := node', sent := b.sent ++ [node'.currInfo], listening := true },
    by rw [ManifestFleet.send, hstep]; rfl, ?_, List.prefix_append _ _, rfl⟩
  refine ⟨⟨gps ++ [g], _, I', ?_, ?_⟩, h.heard, ?_⟩
  · rw [hsent, step1_currInfo I hstep, ownReadings_append]
  · intro k hk hne r hr
    rw [Function.update_of_ne hne] at hr
    exact hpages k hk hne r hr
  · intro _
    exact List.concat_ne_nil _ _

/-- **A board that listens can receive any packet of another board**, and stays in order. -/
theorem Board.Ok.listen (h : b.Ok F t i) (hb : b.listening = true) {d : Option (Arrival ι)}
    (hd : ∀ e ∈ d, e.hearing.source ≠ i ∧
      (t e.hearing.source).sent[e.hearing.place]? = some e.hearing.record)
    (hid : ∀ e ∈ d, e.hearing.record.nodeID ≠ F.curr_ID i) :
    ∃ b', F.listen R i b d = some b' ∧ b'.Ok F t i ∧ b'.sent = b.sent := by
  obtain ⟨gps, P, I, hsent, hpages⟩ := h.inv
  have hgps : gps ≠ [] := by
    rintro rfl
    exact h.started hb hsent
  cases d with
  | none =>
      refine ⟨_, rfl, ⟨⟨gps, P, ?_, hsent, ?_⟩, ?_, fun hf => by cases hf⟩, rfl⟩
      · simpa using I
      · simpa using hpages
      · simpa using h.heard
  | some e =>
      have hincoming : e.incoming R = e.hearing.record :=
        received_information R e.buf e.hearing.record e.pad
      obtain ⟨node', P', hstep, I'⟩ := received_inv I hgps (hid e rfl)
      -- the record went to one page, which is not page `0`
      obtain ⟨book', hadd, H', -⟩ := I.holds.add (F.blankarray i) e.hearing.record
      have hbook : node'.book = book' := by
        rw [step3, hadd] at hstep
        exact congrArg Node1.book (Option.some_inj.1 hstep).symm
      refine ⟨⟨node', b.sent, b.heard ++ [e.hearing], false⟩, ?_, ⟨⟨gps, P', ?_, hsent, ?_⟩, ?_,
        fun hf => by cases hf⟩, rfl⟩
      · simp only [ManifestFleet.listen, Option.map_some, hincoming, hstep]
        rfl
      · rw [List.map_append]
        exact I'
      · intro k hk hne r hr
        rw [List.map_append, List.mem_append]
        have hsame := I'.holds.page_eq (hbook ▸ H') hk
        rw [hsame] at hr
        by_cases hpage : k = pageOf (searched P e.hearing.record.nodeID)
        · rw [hpage, Function.update_self] at hr
          rcases mem_push hr with hold | rfl
          · exact Or.inl (hpages _ (hpage ▸ hk) (hpage ▸ hne) r hold)
          · exact Or.inr (by simp)
        · rw [Function.update_of_ne hpage] at hr
          exact Or.inl (hpages k hk hne r hr)
      · intro x hx
        rcases List.mem_append.1 hx with hold | hnew
        · exact h.heard x hold
        · obtain rfl := List.mem_singleton.1 hnew
          exact hd e rfl

variable [DecidableEq ι] {channel : List ℕ → ℕ → Prop}

theorem ManifestFleet.Reachable.tail (h : F.Reachable R channel t) (hstep : F.Step R channel t t') :
    F.Reachable R channel t' := by
  obtain ⟨t₀, hstart, hsteps⟩ := h
  exact ⟨t₀, hstart, hsteps.tail hstep⟩

/-- What is delivered to a board carries another ID. -/
theorem ManifestFleet.Delivers.nodeID_ne (K : ∀ j, (t j).Ok F t j) {e : Arrival ι}
    (he : ManifestFleet.Delivers channel t i e) : e.hearing.record.nodeID ≠ F.curr_ID i := by
  rw [(K e.hearing.source).nodeID (List.mem_of_getElem? he.2.1)]
  intro hid
  exact he.1 (F.distinct hid)

/-- Replacing one board by a later state of it. -/
theorem ok_update (K : ∀ j, (t j).Ok F t j) (hb : b.Ok F t i) (hsent : (t i).sent <+: b.sent) :
    ∀ j, (Function.update t i b j).Ok F (Function.update t i b) j := by
  have hmono : ∀ j, (t j).sent <+: (Function.update t i b j).sent := by
    intro j
    rcases eq_or_ne j i with rfl | hj
    · rwa [Function.update_self]
    · rw [Function.update_of_ne hj]
  intro j
  rcases eq_or_ne j i with rfl | hj
  · rw [Function.update_self]
    exact hb.mono hmono
  · rw [Function.update_of_ne hj]
    exact (K j).mono hmono

/-- **Every event keeps every board in order.** -/
theorem ManifestFleet.Step.ok (K : ∀ j, (t j).Ok F t j) (h : F.Step R channel t t') :
    ∀ j, (t' j).Ok F t' j := by
  cases h with
  | @send i gps b hi hb =>
      obtain ⟨b', hb', hok, hsent, -⟩ := (K i).send gps
      obtain rfl := Option.some_inj.1 (hb.symm.trans hb')
      exact ok_update K hok hsent
  | @listen i d b hi hd hb =>
      obtain ⟨b', hb', hok, hsent⟩ := (K i).listen hi (fun e he => ⟨(hd e he).1, (hd e he).2.1⟩)
        fun e he => (hd e he).nodeID_ne K
      obtain rfl := Option.some_inj.1 (hb.symm.trans hb')
      exact ok_update K hok (hsent ▸ List.prefix_rfl)

/-- All the boards are in order in every reachable state. -/
theorem ManifestFleet.Reachable.ok (h : F.Reachable R channel t) : ∀ i, (t i).Ok F t i := by
  obtain ⟨t₀, hstart, hsteps⟩ := h
  induction hsteps with
  | refl =>
      intro i
      obtain ⟨hsetup, hsent, hheard, hlistening⟩ := hstart i
      obtain ⟨node, P, hnode, I⟩ :=
        setup_inv (F.heap i) (F.blankarray i) (F.curr_ID i) (F.fix₀ i)
      obtain rfl := Option.some_inj.1 (hnode.symm.trans hsetup)
      refine ⟨⟨[], P, by rwa [hheard], hsent, ?_⟩, by simp [hheard], ?_⟩
      · -- no page of another node is in use
        intro k hk hne r hr
        obtain ⟨l, rfl⟩ : ∃ l, k = 1 + l := ⟨k - 1, by omega⟩
        rw [(I.others numofReadings_pos).1 l] at hr
        simp [recordAll, logAt] at hr
      · rw [hlistening]
        intro hf
        cases hf
  | tail _ hstep ih => exact ManifestFleet.Step.ok ih hstep

end Events

/-! ### The books -/

/-- The book of the board `i`: page `0` shows the last readings of its own, every other page
readings that other boards have taken, under their IDs.  No event fails, which it would if an index
left the book, one of its queues or the array `manifest` as a whole. -/
structure FleetBook [DecidableEq ι] (F : ManifestFleet ι) (R : Radios)
    (channel : List ℕ → ℕ → Prop) (t : ι → Board ι) (i : ι) : Prop where
  own : (t i).node.book.page 0 = ((t i).sent.rtake numofReadings).map some
  others : ∀ k, k ≠ 0 → ∀ x ∈ (t i).node.book.page k,
    ∃ j, j ≠ i ∧ ∃ r ∈ (t j).sent, x = some r ∧ r.nodeID = F.curr_ID j
  sends : ∀ gps, ∃ b, F.send i (t i) gps = some b
  listens : (t i).listening = true → ∀ d, (∀ e ∈ d, ManifestFleet.Delivers channel t i e) →
    ∃ b, F.listen R i (t i) d = some b

section Books

variable [DecidableEq ι] {F : ManifestFleet ι} {R : Radios} {t t' : ι → Board ι}

/-- **The books of any number of boards, in every reachable state**, whatever the channel does. -/
theorem fleet_books (F : ManifestFleet ι) (R : Radios) (channel : List ℕ → ℕ → Prop)
    (t : ι → Board ι) (ht : F.Reachable R channel t) (i : ι) : FleetBook F R channel t i := by
  have K := ht.ok
  obtain ⟨gps, P, I, hsent, hpages⟩ := (K i).inv
  constructor
  · rw [I.holds.page_items maxNumNodes_pos, I.own, hsent]
  · intro k hk x hx
    have hlt : k < maxNumNodes := by
      by_contra hge
      rw [I.holds.page_of_ge (Nat.le_of_not_lt hge)] at hx
      cases hx
    rw [I.holds.page_items hlt] at hx
    obtain ⟨r, hr, rfl⟩ := List.mem_map.1 hx
    obtain ⟨y, hy, rfl⟩ := List.mem_map.1 (hpages k hlt hk r hr)
    obtain ⟨hsource, hrecord⟩ := (K i).heard y hy
    have hmem := List.mem_of_getElem? hrecord
    exact ⟨y.source, hsource, y.record, hmem, rfl, (K y.source).nodeID hmem⟩
  · intro g
    obtain ⟨b, hb, -⟩ := (K i).send g
    exact ⟨b, hb⟩
  · intro hlistening d hd
    obtain ⟨b, hb, -⟩ := (K i).listen (R := R) hlistening
      (fun e he => ⟨(hd e he).1, (hd e he).2.1⟩) fun e he => (hd e he).nodeID_ne K
    exact ⟨b, hb⟩

/-! ### The pages of up to three boards -/

/-- The records received under the ID of `j` are those received of `j`. -/
theorem withKey_heard (K : ∀ j, (t j).Ok F t j) (i j : ι) :
    withKey Information.nodeID (F.curr_ID j) ((t i).heard.map Hearing.record) =
      ((t i).heardFrom j).map Hearing.record := by
  rw [withKey, List.filter_map, Board.heardFrom]
  congr 1
  refine List.filter_congr ?_
  intro x hx
  have hid := (K x.source).nodeID (List.mem_of_getElem? ((K i).heard x hx).2)
  simp only [Function.comp_apply, hid, F.distinct.eq_iff]

/-- A board that hears the others in order has received their records in the order in which they
were taken. -/
theorem ManifestFleet.Reachable.pairwise_heard (ht : F.Reachable R Flood.InOrder t) (i j : ι) :
    (((t i).heardFrom j).map Hearing.place).Pairwise (· < ·) := by
  obtain ⟨t₀, hstart, hsteps⟩ := ht
  induction hsteps generalizing i with
  | refl => simp [Board.heardFrom, (hstart i).2.2.1]
  | @tail t t' _ hstep ih =>
      cases hstep with
      | @send i' gps b hi hb =>
          rcases eq_or_ne i i' with rfl | hne
          · obtain ⟨node, -, rfl⟩ := Option.map_eq_some_iff.1 hb
            rw [Function.update_self]
            exact ih i
          · rw [Function.update_of_ne hne]
            exact ih i
      | @listen i' d b hi hd hb =>
          rcases eq_or_ne i i' with rfl | hne
          · obtain ⟨node, -, rfl⟩ := Option.map_eq_some_iff.1 hb
            rw [Function.update_self]
            cases d with
            | none => simpa [Board.heardFrom] using ih i
            | some e =>
                by_cases hj : e.hearing.source = j
                · have hlater := (hd e rfl).2.2
                  rw [hj] at hlater
                  have hheard : Board.heardFrom ⟨node, (t i).sent,
                      (t i).heard ++ [e.hearing], false⟩ j =
                      (t i).heardFrom j ++ [e.hearing] := by
                    simp [Board.heardFrom, hj]
                  refine (congrArg (fun l => (l.map Hearing.place).Pairwise (· < ·))
                    hheard).mpr ?_
                  rw [List.map_append, List.pairwise_append]
                  refine ⟨ih i, List.pairwise_singleton _ _, ?_⟩
                  intro k hk k' hk'
                  obtain rfl := List.mem_singleton.1 hk'
                  exact hlater k hk
                · have hheard : Board.heardFrom ⟨node, (t i).sent,
                      (t i).heard ++ [e.hearing], false⟩ j = (t i).heardFrom j := by
                    simp [Board.heardFrom, hj]
                  exact (congrArg (fun l => (l.map Hearing.place).Pairwise (· < ·))
                    hheard).mpr (ih i)
          · rw [Function.update_of_ne hne]
            exact ih i

/-- The boards that a board has heard, in the order in which it heard them first. -/
def Board.boardsHeard (b : Board ι) : List ι := firstKeys Hearing.source b.heard

theorem Board.mem_boardsHeard {b : Board ι} {j : ι} : j ∈ b.boardsHeard ↔ b.heardFrom j ≠ [] := by
  rw [Board.boardsHeard, mem_firstKeys, ne_eq, List.eq_nil_iff_forall_not_mem]
  simp [Board.heardFrom]

/-- The keys of the records received are the IDs of the boards heard. -/
theorem firstKeys_heard (K : ∀ j, (t j).Ok F t j) (i : ι) :
    firstKeys Information.nodeID ((t i).heard.map Hearing.record) =
      (t i).boardsHeard.map F.curr_ID := by
  refine (map_firstKeys F.distinct ?_).symm
  intro x hx
  exact (K x.source).nodeID (List.mem_of_getElem? ((K i).heard x hx).2)

/-- A board does not hear itself. -/
theorem not_mem_boardsHeard (K : ∀ j, (t j).Ok F t j) (i : ι) : i ∉ (t i).boardsHeard := by
  intro hi
  obtain ⟨x, hx, hself⟩ := mem_firstKeys.1 hi
  exact ((K i).heard x hx).1 hself

/-- Of up to three boards, each one hears fewer than three. -/
theorem length_boardsHeard_lt [Fintype ι] (hcard : Fintype.card ι ≤ 3) (K : ∀ j, (t j).Ok F t j)
    (i : ι) : (t i).boardsHeard.length < numofReadings := by
  have hothers : (t i).boardsHeard.toFinset ⊆ Finset.univ.erase i := by
    intro j hj
    refine Finset.mem_erase.2 ⟨?_, Finset.mem_univ j⟩
    rintro rfl
    exact not_mem_boardsHeard K j (List.mem_toFinset.1 hj)
  have hnodup : (t i).boardsHeard.Nodup := nodup_firstKeys _
  have hle := Finset.card_le_card hothers
  rw [List.toFinset_card_of_nodup hnodup, Finset.card_erase_of_mem (Finset.mem_univ i),
    Finset.card_univ] at hle
  unfold numofReadings
  omega

/-- The log at the `k`-th place of the table of a board that has heard fewer than three others is
what it keeps of the `k`-th one. -/
theorem logAt_heard (K : ∀ j, (t j).Ok F t j) (i : ι)
    (hlt : (t i).boardsHeard.length < numofReadings) (k : ℕ) :
    logAt (recordAll Information.nodeID numofReadings (numofReadings - 1)
        ((t i).heard.map Hearing.record)) k =
      (t i).boardsHeard[k]?.elim [] fun j =>
        (((t i).heardFrom j).map Hearing.record).rtake numofReadings := by
  have hkeys := firstKeys_heard K i
  rcases Nat.lt_or_ge k (t i).boardsHeard.length with hk | hk
  · have hkey : ((firstKeys Information.nodeID ((t i).heard.map Hearing.record)).take
        (numofReadings - 1))[k]? = some (F.curr_ID (t i).boardsHeard[k]) := by
      rw [hkeys, List.take_of_length_le (by rw [List.length_map]; omega), List.getElem?_map,
        List.getElem?_eq_getElem hk, Option.map_some]
    rw [logAt, getElem?_recordAll hkey, withKey_heard K, List.getElem?_eq_getElem hk]
    rfl
  · have htable : (firstKeys Information.nodeID ((t i).heard.map Hearing.record)).length <
        numofReadings := by rwa [hkeys, List.length_map]
    rw [List.getElem?_eq_none hk, logAt, List.getElem?_eq_none]
    · rfl
    · rw [length_table_of_lt htable, hkeys, List.length_map]
      exact hk

/-- The board `i` has a page for each board it has heard, in the order in which it heard them first,
with the last records it has received of it, which are among those that this board has sent, in
order. -/
structure FleetPages (t : ι → Board ι) (i : ι) : Prop where
  nodup : (t i).boardsHeard.Nodup
  heard : ∀ j, j ∈ (t i).boardsHeard ↔ (t i).heardFrom j ≠ []
  pages : ∀ k, (t i).node.book.page (k + 1) = (t i).boardsHeard[k]?.elim [] fun j =>
    ((((t i).heardFrom j).map Hearing.record).rtake numofReadings).map some
  inOrder : ∀ j, (((t i).heardFrom j).map Hearing.record).Sublist (t j).sent

/-- **The pages of up to three boards that hear each other in order.** -/
theorem fleet_pages [Fintype ι] (hcard : Fintype.card ι ≤ 3) (F : ManifestFleet ι) (R : Radios)
    (t : ι → Board ι) (ht : F.Reachable R Flood.InOrder t) (i : ι) : FleetPages t i := by
  have K := ht.ok
  obtain ⟨gps, P, I, -, -⟩ := (K i).inv
  have hlt := length_boardsHeard_lt hcard K i
  have htable : (firstKeys Information.nodeID ((t i).heard.map Hearing.record)).length <
      numofReadings := by rwa [firstKeys_heard K, List.length_map]
  refine ⟨nodup_firstKeys _, fun j => Board.mem_boardsHeard, ?_, ?_⟩
  · intro k
    have hlog := logAt_heard K i hlt k
    rw [← (I.others htable).1 k, Nat.add_comm 1 k] at hlog
    rcases Nat.lt_or_ge (k + 1) maxNumNodes with hbook | hbook
    · rw [I.holds.page_items hbook, hlog]
      cases (t i).boardsHeard[k]? <;> rfl
    · have hnone : (t i).boardsHeard[k]? = none := by
        have := numofReadings_lt
        exact List.getElem?_eq_none (by omega)
      rw [I.holds.page_of_ge hbook, hnone]
      rfl
  · intro j
    refine map_sublist_of_getElem? (p := Hearing.place)
      (List.pairwise_map.1 (ht.pairwise_heard i j)) ?_
    intro x hx
    obtain ⟨hx, hj⟩ := List.mem_filter.1 hx
    rw [← of_decide_eq_true hj]
    exact ((K i).heard x hx).2

end Books

/-! ### Three boards -/

theorem ManifestFleet.exists_start (F : ManifestFleet ι) : ∃ t, F.Start t := by
  choose node P hnode I using fun i =>
    setup_inv (F.heap i) (F.blankarray i) (F.curr_ID i) (F.fix₀ i)
  exact ⟨fun i => ⟨node i, [], [], false⟩, fun i => ⟨hnode i, rfl, rfl, rfl⟩⟩

/-- A board that does not listen can send. -/
theorem ManifestFleet.Reachable.exists_send [DecidableEq ι] {F : ManifestFleet ι} {R : Radios}
    {channel : List ℕ → ℕ → Prop} {t : ι → Board ι} (h : F.Reachable R channel t) {i : ι}
    (hi : (t i).listening = false) :
    ∃ t', F.Reachable R channel t' ∧ (∃ r, (t' i).sent = (t i).sent ++ [r]) ∧
      (t' i).heard = (t i).heard ∧ (t' i).listening = true ∧ ∀ j, j ≠ i → t' j = t j := by
  obtain ⟨b, hb, -⟩ := (h.ok i).send none
  refine ⟨_, h.tail (.send hi hb), ?_⟩
  obtain ⟨node, -, rfl⟩ := Option.map_eq_some_iff.1 hb
  rw [Function.update_self]
  exact ⟨⟨_, rfl⟩, rfl, rfl, fun j hj => Function.update_of_ne hj _ _⟩

/-- A board that listens can receive what another board has sent. -/
theorem ManifestFleet.Reachable.exists_listen [DecidableEq ι] {F : ManifestFleet ι} {R : Radios}
    {channel : List ℕ → ℕ → Prop} {t : ι → Board ι} (h : F.Reachable R channel t) {i : ι}
    (hi : (t i).listening = true) {x : Hearing ι} (hne : x.source ≠ i)
    (hsent : (t x.source).sent[x.place]? = some x.record)
    (hc : channel (((t i).heardFrom x.source).map Hearing.place) x.place) :
    ∃ t', F.Reachable R channel t' ∧ (t' i).heard = (t i).heard ++ [x] ∧
      (t' i).listening = false ∧ ∀ j, j ≠ i → t' j = t j := by
  have hd : ∀ e ∈ some (⟨x, 0, fun _ => 0⟩ : Arrival ι), ManifestFleet.Delivers channel t i e := by
    intro e he
    obtain rfl := Option.mem_some_iff.1 he
    exact ⟨hne, hsent, hc⟩
  obtain ⟨b, hb, -⟩ := (h.ok i).listen (R := R) hi
    (fun e he => ⟨(hd e he).1, (hd e he).2.1⟩) fun e he => (hd e he).nodeID_ne h.ok
  refine ⟨_, h.tail (.listen hi hd hb), ?_⟩
  obtain ⟨node, -, rfl⟩ := Option.map_eq_some_iff.1 hb
  rw [Function.update_self]
  exact ⟨rfl, rfl, fun j hj => Function.update_of_ne hj _ _⟩

theorem three_distinct : Function.Injective fun i : Fin 3 => BitVec.ofNat 16 (i.val + 1) := by
  decide

/-- Three boards with the IDs 1, 2 and 3. -/
def ManifestFleet.three : ManifestFleet (Fin 3) where
  curr_ID i := BitVec.ofNat 16 (i.val + 1)
  distinct := three_distinct
  heap _ _ _ := Information.zero
  blankarray _ := Information.zero
  fix₀ _ := ⟨0, 0⟩

/-- Three boards send, and the second one receives what the third one has sent, and then what the
first one has sent. -/
theorem ManifestFleet.three_heard :
    ∃ t, ManifestFleet.three.Reachable Radios.broadcast Flood.InOrder t ∧
      (t 1).boardsHeard = [2, 0] := by
  obtain ⟨t₀, hstart⟩ := ManifestFleet.three.exists_start
  have h₀ : ManifestFleet.three.Reachable Radios.broadcast Flood.InOrder t₀ := ⟨t₀, hstart, .refl⟩
  obtain ⟨-, hsent₂, -, hidle₂⟩ := hstart 2
  obtain ⟨-, hsent₀, -, hidle₀⟩ := hstart 0
  obtain ⟨-, -, hheard₁, hidle₁⟩ := hstart 1
  -- each board sends
  obtain ⟨t₁, h₁, ⟨r, hr⟩, -, -, hsame₁⟩ := h₀.exists_send hidle₂
  rw [hsent₂] at hr
  obtain ⟨t₂, h₂, ⟨r', hr'⟩, -, -, hsame₂⟩ :=
    h₁.exists_send (i := 0) (by rw [hsame₁ 0 (by decide), hidle₀])
  rw [hsame₁ 0 (by decide), hsent₀] at hr'
  obtain ⟨t₃, h₃, -, hheard₃, hlistens₃, hsame₃⟩ := h₂.exists_send (i := 1)
    (by rw [hsame₂ 1 (by decide), hsame₁ 1 (by decide), hidle₁])
  rw [hsame₂ 1 (by decide), hsame₁ 1 (by decide), hheard₁] at hheard₃
  -- the second one receives twice
  obtain ⟨t₄, h₄, hheard₄, hidle₄, hsame₄⟩ :=
    h₃.exists_listen hlistens₃ (x := ⟨2, 0, r⟩) (show (2 : Fin 3) ≠ 1 by decide)
      (by rw [hsame₃ 2 (by decide), hsame₂ 2 (by decide), hr]; rfl)
      (by simp [Flood.InOrder, Board.heardFrom, hheard₃])
  rw [hheard₃] at hheard₄
  obtain ⟨t₅, h₅, -, hheard₅, hlistens₅, hsame₅⟩ := h₄.exists_send hidle₄
  rw [hheard₄] at hheard₅
  obtain ⟨t₆, h₆, hheard₆, -⟩ :=
    h₅.exists_listen hlistens₅ (x := ⟨0, 0, r'⟩) (show (0 : Fin 3) ≠ 1 by decide)
      (by rw [hsame₅ 0 (by decide), hsame₄ 0 (by decide), hsame₃ 0 (by decide), hr']; rfl)
      (by simp [Flood.InOrder, Board.heardFrom, hheard₅])
  rw [hheard₅] at hheard₆
  refine ⟨t₆, h₆, ?_⟩
  rw [Board.boardsHeard, hheard₆]
  rfl

theorem fleet_books_three : ∃ t, (t 1).boardsHeard = [2, 0] ∧
    FleetBook ManifestFleet.three Radios.broadcast Flood.InOrder t 1 := by
  obtain ⟨t, ht, hheard⟩ := ManifestFleet.three_heard
  exact ⟨t, hheard, fleet_books _ _ _ t ht 1⟩

theorem fleet_pages_three : ∃ t, (t 1).boardsHeard = [2, 0] ∧
    ManifestFleet.three.Reachable Radios.broadcast Flood.InOrder t ∧ FleetPages t 1 := by
  obtain ⟨t, ht, hheard⟩ := ManifestFleet.three_heard
  exact ⟨t, hheard, ht, fleet_pages (by decide) _ _ t ht 1⟩

end LoRaGPS
