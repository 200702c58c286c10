/-
**When a mesh node broadcasts, and what.**

`loop()` of `1LoRaNode.ino` compares readings of the 32-bit `millis()`, which wraps every seven
weeks.  It reads the clock up to six times in an iteration, and an attempt to broadcast that is
skipped resets the timer like one that is not.  In this module the clock is read at true times,
which only grow, and the schedule of the node is stated in true time.

Main definitions:

* `LoRaGPS.Timed`, `LoRaGPS.Timed.input` — an iteration with the true times of its clock readings;
* `LoRaGPS.LoRaNode.run` — the iterations of a run, with how the sending half of each ended;
* `LoRaGPS.InTime` — the runs in which the clock does not wrap unnoticed;
* `LoRaGPS.Schedule` — the schedule, in true time.

Main results:

* `LoRaGPS.LoRaNode.broadcast_spec` — what the sending half does, by its three tests;
* `LoRaGPS.InTime.run` — the timers and the history after a run;
* `LoRaGPS.broadcast_schedule` — **every run keeps the schedule**.
-/

import LoRaGPS.LoRaNode
import LoRaGPS.WrappingClock

set_option relaxedAutoImplicit false
set_option autoImplicit false

namespace LoRaGPS

open WrappingClock

/-! ### Iterations in true time -/

/-- The true times, in milliseconds since boot, at which an iteration reads the clock, in the order
of the code. -/
structure Times where
  first : ℕ
  valid : ℕ
  check : ℕ
  send : ℕ
  grace : ℕ
  stamp : ℕ
deriving DecidableEq, Repr

/-- Time does not run backwards. -/
structure Times.Ordered (t : Times) : Prop where
  first_le : t.first ≤ t.valid
  valid_le : t.valid ≤ t.check
  check_le : t.check ≤ t.send
  send_le : t.send ≤ t.grace
  grace_le : t.grace ≤ t.stamp

/-- An iteration: when it reads the clock, what it reads otherwise, and what it would receive. -/
structure Timed where
  times : Times
  gps : Gps
  batteryLevel : BitVec 32
  received : Option GPSData
deriving DecidableEq, Repr

namespace Timed

/-- What the iteration reads, with the clock wrapped. -/
def input (e : Timed) : LoopInput :=
  { millisFirst := shown 32 e.times.first
    millisValid := shown 32 e.times.valid
    millisCheck := shown 32 e.times.check
    millisSend := shown 32 e.times.send
    millisGrace := shown 32 e.times.grace
    millisStamp := shown 32 e.times.stamp
    gps := e.gps
    batteryLevel := e.batteryLevel }

/-- The GPS is valid in the iteration. -/
def gpsValid (e : Timed) : Bool := e.gps.locationValid && e.gps.altitudeValid

/-- The record with the real coordinates. -/
def real (e : Timed) (curr_ID : BitVec 16) : GPSData :=
  { senderID := intID curr_ID
    nodeID := intID curr_ID
    batteryLevel := e.batteryLevel
    latitude := e.gps.lat
    longitude := e.gps.lng
    altitude := e.gps.meters
    timestamp := convertToUnixTimestamp e.gps }

/-- The record with the coordinates `-10`, `-10`. -/
def fake (e : Timed) (curr_ID : BitVec 16) : GPSData :=
  { senderID := intID curr_ID
    nodeID := intID curr_ID
    batteryLevel := e.batteryLevel
    latitude := 0xC1200000
    longitude := 0xC1200000
    altitude := 0
    timestamp := shown 32 e.times.stamp / 1000 }

end Timed

namespace LoRaNode

/-- One more iteration of a run, with how its sending half ended. -/
def next (curr_ID : BitVec 16) (s : LoRaNode × List (Timed × Sending)) (e : Timed) :
    Option (LoRaNode × List (Timed × Sending)) :=
  (loop curr_ID s.1 e.input e.received).map fun out =>
    (out.node, s.2 ++ [(e, out.sending)])

/-- A run of `loop()`, from when the node is switched on. -/
def run (curr_ID : BitVec 16) (es : List Timed) : Option (LoRaNode × List (Timed × Sending)) :=
  es.foldlM (next curr_ID) (boot, [])

theorem run_append (curr_ID : BitVec 16) (es : List Timed) (e : Timed) :
    run curr_ID (es ++ [e]) = (run curr_ID es).bind fun s => next curr_ID s e := by
  rw [run, List.foldlM_append]
  cases h : run curr_ID es <;> rw [run] at h <;> simp [h]

end LoRaNode

/-! ### The schedule -/

/-- The check has found that it is time to broadcast, whether or not something was sent then. -/
def LoRaNode.Sending.Attempt (s : LoRaNode.Sending) : Prop := s ≠ .notDue

instance (s : LoRaNode.Sending) : Decidable s.Attempt := inferInstanceAs (Decidable (s ≠ .notDue))

/-- The time of the last attempt; boot counts as one. -/
def lastAttempt (h : List (Timed × LoRaNode.Sending)) : ℕ :=
  h.foldl (fun t x => if x.2.Attempt then x.1.times.send else t) 0

/-- The time of the last iteration with a valid GPS; the first iteration counts as one. -/
def lastValid (es : List Timed) : ℕ :=
  es.foldl (fun t e => if e.gpsValid then e.times.valid else t) (es.head?.elim 0 (·.times.first))

/-- The time of the last check; boot counts as one. -/
def lastCheck (es : List Timed) : ℕ := es.getLast?.elim 0 (·.times.check)

/-- The time at which the iterations are over. -/
def endTime (es : List Timed) : ℕ := es.getLast?.elim 0 (·.times.stamp)

/-- Runs in which less than `2 ^ 32 - 5000` milliseconds pass from one check to the next, with boot
for the first one, and the GPS is never lost for `2 ^ 32` milliseconds. -/
inductive InTime : List Timed → Prop
  | boot : InTime []
  | next {es : List Timed} {e : Timed} (h : InTime es) (ordered : e.times.Ordered)
      (later : endTime es ≤ e.times.first)
      (check : e.times.check < lastCheck es + (2 ^ 32 - 5000))
      (outage : e.gpsValid = false → e.times.grace < lastValid (es ++ [e]) + 2 ^ 32) :
      InTime (es ++ [e])

/-- The schedule: attempts are at least five seconds apart, a check that comes five seconds after
the last attempt makes one, and an attempt sends the real coordinates if the GPS is valid, the fake
ones if it has not been for ten seconds, and nothing otherwise. -/
structure Schedule (curr_ID : BitVec 16) (h : List (Timed × LoRaNode.Sending)) : Prop where
  apart : h.Pairwise fun a b =>
    a.2.Attempt → b.2.Attempt → a.1.times.send + 5000 ≤ b.1.times.check
  prompt : ∀ pre x post, h = pre ++ x :: post →
    lastAttempt pre + 5000 ≤ x.1.times.check → x.2.Attempt
  content : ∀ pre x post, h = pre ++ x :: post → x.2.Attempt →
    x.2 = if x.1.gpsValid then .sent (x.1.real curr_ID)
      else if lastValid (pre.map Prod.fst ++ [x.1]) + 10000 ≤ x.1.times.grace then
        .sent (x.1.fake curr_ID)
      else .skipped

theorem lastAttempt_append (h : List (Timed × LoRaNode.Sending)) (x : Timed × LoRaNode.Sending) :
    lastAttempt (h ++ [x]) = if x.2.Attempt then x.1.times.send else lastAttempt h := by
  rw [lastAttempt, List.foldl_append]
  rfl

theorem lastValid_append {es : List Timed} {e : Timed} : lastValid (es ++ [e]) =
    if e.gpsValid then e.times.valid else if es = [] then e.times.first else lastValid es := by
  cases es with
  | nil => rfl
  | cons e' es =>
      rw [lastValid, List.foldl_append, if_neg (List.cons_ne_nil e' es)]
      rfl

@[simp] theorem lastCheck_append (es : List Timed) (e : Timed) :
    lastCheck (es ++ [e]) = e.times.check := by
  simp [lastCheck]

@[simp] theorem endTime_append (es : List Timed) (e : Timed) :
    endTime (es ++ [e]) = e.times.stamp := by
  simp [endTime]

/-- An entry of a history that has grown by one is the new one, or an old one. -/
theorem snoc_eq_append_cons {α : Type} {h pre post : List α} {x y : α}
    (heq : h ++ [y] = pre ++ x :: post) : (pre = h ∧ x = y) ∨ ∃ post', h = pre ++ x :: post' := by
  rcases List.eq_nil_or_concat post with rfl | ⟨post', z, rfl⟩
  · obtain ⟨rfl, hxy⟩ := List.append_inj' heq rfl
    exact Or.inl ⟨rfl, (List.singleton_inj.1 hxy).symm⟩
  · have heq' : h ++ [y] = (pre ++ x :: post') ++ [z] := by simpa using heq
    exact Or.inr ⟨post', (List.append_inj' heq' rfl).1⟩

/-! ### One iteration -/

namespace LoRaNode

/-- What the sending half does, by its three tests. -/
theorem broadcast_spec (curr_ID : BitVec 16) (node : LoRaNode) (e : Timed) :
    let since := if e.gpsValid then shown 32 e.times.valid
      else node.gpsLastValidTime.getD (shown 32 e.times.first)
    (broadcast curr_ID node e.input).1.gpsLastValidTime = some since ∧
    (broadcast curr_ID node e.input).1.lastBroadcast =
      (if Due 5000 node.lastBroadcast e.times.check then shown 32 e.times.send
        else node.lastBroadcast) ∧
    (broadcast curr_ID node e.input).2 =
      if Due 5000 node.lastBroadcast e.times.check then
        if e.gpsValid then .sent (e.real curr_ID)
        else if Due 10000 since e.times.grace then .sent (e.fake curr_ID)
        else .skipped
      else .notDue := by
  intro since
  have hcheck : e.input.millisCheck - node.lastBroadcast ≥ 5000 ↔
      Due 5000 node.lastBroadcast e.times.check := Iff.rfl
  have hgrace : e.input.millisGrace - since ≥ 10000 ↔ Due 10000 since e.times.grace := Iff.rfl
  have hvalid : (e.input.gps.locationValid && e.input.gps.altitudeValid) = e.gpsValid := rfl
  have hsince : (if e.gpsValid then e.input.millisValid
      else node.gpsLastValidTime.getD e.input.millisFirst) = since := rfl
  simp only [broadcast, hvalid, hsince, hcheck, hgrace]
  split_ifs <;> exact ⟨rfl, rfl, rfl⟩

/-- Only the sending half works on the timers. -/
theorem loop_timers {curr_ID : BitVec 16} {node : LoRaNode} {inp : LoopInput}
    {received : Option GPSData} {out : LoopOut} (h : loop curr_ID node inp received = some out) :
    out.node.lastBroadcast = (broadcast curr_ID node inp).1.lastBroadcast ∧
      out.node.gpsLastValidTime = (broadcast curr_ID node inp).1.gpsLastValidTime := by
  have hreceive : ∀ {node' : LoRaNode} {r : LoRaNode × Option GPSData},
      receive curr_ID node' received = some r →
        r.1.lastBroadcast = node'.lastBroadcast ∧
          r.1.gpsLastValidTime = node'.gpsLastValidTime := by
    intro node' r hr
    cases received with
    | none =>
        obtain rfl := Option.some_inj.1 hr
        exact ⟨rfl, rfl⟩
    | some g =>
        rw [receive] at hr
        split at hr
        · obtain ⟨hs, -, rfl⟩ := Option.map_eq_some_iff.1 hr
          exact ⟨rfl, rfl⟩
        · obtain rfl := Option.some_inj.1 hr
          exact ⟨rfl, rfl⟩
  rw [loop] at h
  generalize broadcast curr_ID node inp = b at h ⊢
  obtain ⟨node', sending⟩ := b
  cases sending with
  | skipped =>
      obtain rfl := Option.some_inj.1 h
      exact ⟨rfl, rfl⟩
  | notDue =>
      obtain ⟨r, hr, rfl⟩ := Option.map_eq_some_iff.1 h
      exact hreceive hr
  | sent gpsData =>
      obtain ⟨r, hr, rfl⟩ := Option.map_eq_some_iff.1 h
      exact hreceive hr

/-- The history goes on representing a table of logs. -/
theorem Heard.represents {curr_ID : BitVec 16} {hs hs' : List NodeHistory}
    {received relayed : Option GPSData} (h : Heard curr_ID hs received hs' relayed)
    (H : ∃ t, Represents hs t) : ∃ t, Represents hs' t := by
  have hstored : ∀ {g : GPSData}, storePosition hs g = some hs' → ∃ t, Represents hs' t := by
    intro g hstore
    obtain ⟨t, ht⟩ := H
    obtain ⟨hs'', hstore', -, ht'⟩ := storePosition_represents ht g
    obtain rfl := Option.some_inj.1 (hstore.symm.trans hstore')
    exact ⟨_, ht'⟩
  cases h with
  | nothing => exact H
  | own hg => exact H
  | stored hg hstore hsender => exact hstored hstore
  | relayed hg hstore hsender => exact hstored hstore

end LoRaNode

/-! ### Every run keeps the schedule -/

/-- The node after the iterations `es`, which ended as `h` says. -/
structure Clocked (es : List Timed) (h : List (Timed × LoRaNode.Sending)) (node : LoRaNode) :
    Prop where
  entries : h.map Prod.fst = es
  timer : Armed 5000 node.lastBroadcast (lastAttempt h) (lastCheck es)
  attempt_le : lastAttempt h ≤ endTime es
  send_le : ∀ x ∈ h, x.2.Attempt → x.1.times.send ≤ lastAttempt h
  gps : node.gpsLastValidTime = if es = [] then none else some (shown 32 (lastValid es))
  valid_le : lastValid es ≤ endTime es
  history : ∃ t, Represents node.nodeHistories t

theorem clocked_boot : Clocked [] [] LoRaNode.boot where
  entries := rfl
  timer := ⟨rfl, by decide⟩
  attempt_le := le_rfl
  send_le := by simp
  gps := rfl
  valid_le := le_rfl
  history := ⟨[], represents_nodeHistories⟩

section Runs

variable {curr_ID : BitVec 16} {es : List Timed} {h : List (Timed × LoRaNode.Sending)}
  {node : LoRaNode} {e : Timed}

/-- An iteration in true time: the timers, and how the sending half ends. -/
theorem Clocked.broadcast (C : Clocked es h node) (curr_ID : BitVec 16) (ordered : e.times.Ordered)
    (later : endTime es ≤ e.times.first) (check : e.times.check < lastCheck es + (2 ^ 32 - 5000))
    (outage : e.gpsValid = false → e.times.grace < lastValid (es ++ [e]) + 2 ^ 32) :
    (LoRaNode.broadcast curr_ID node e.input).1.gpsLastValidTime =
        some (shown 32 (lastValid (es ++ [e]))) ∧
      (LoRaNode.broadcast curr_ID node e.input).1.lastBroadcast =
        (if lastAttempt h + 5000 ≤ e.times.check then shown 32 e.times.send
          else node.lastBroadcast) ∧
      (LoRaNode.broadcast curr_ID node e.input).2 =
        if lastAttempt h + 5000 ≤ e.times.check then
          if e.gpsValid then .sent (e.real curr_ID)
          else if lastValid (es ++ [e]) + 10000 ≤ e.times.grace then .sent (e.fake curr_ID)
          else .skipped
        else .notDue := by
  obtain ⟨hfirst, hvalid, hcheck, hsend, hgrace⟩ := ordered
  have hattempt := C.attempt_le
  have hlast := C.valid_le
  have hsince : (if e.gpsValid then shown 32 e.times.valid
      else node.gpsLastValidTime.getD (shown 32 e.times.first)) =
        shown 32 (lastValid (es ++ [e])) := by
    rw [lastValid_append, C.gps]
    split_ifs <;> rfl
  have hle : lastValid (es ++ [e]) ≤ e.times.grace := by
    rw [lastValid_append]
    split_ifs <;> omega
  have hdue : Due 5000 node.lastBroadcast e.times.check ↔
      lastAttempt h + 5000 ≤ e.times.check := C.timer.due_iff (by omega) check
  have hspec := LoRaNode.broadcast_spec curr_ID node e
  simp only [hsince, hdue] at hspec
  refine ⟨hspec.1, hspec.2.1, hspec.2.2.trans ?_⟩
  cases hv : e.gpsValid with
  | true => simp only [if_true]
  | false =>
      have hlost : Due 10000 (shown 32 (lastValid (es ++ [e]))) e.times.grace ↔
          lastValid (es ++ [e]) + 10000 ≤ e.times.grace := due_iff hle (outage hv)
      simp only [hlost]

/-- An iteration keeps the schedule if it attempts to broadcast when five seconds have passed since
the last attempt, and an attempt sends what it should. -/
theorem Schedule.snoc {sending : LoRaNode.Sending} (S : Schedule curr_ID h)
    (hattempt : sending.Attempt ↔ lastAttempt h + 5000 ≤ e.times.check)
    (hcontent : sending.Attempt → sending = if e.gpsValid then .sent (e.real curr_ID)
      else if lastValid (h.map Prod.fst ++ [e]) + 10000 ≤ e.times.grace then
        .sent (e.fake curr_ID)
      else .skipped)
    (hsend : ∀ x ∈ h, x.2.Attempt → x.1.times.send ≤ lastAttempt h) :
    Schedule curr_ID (h ++ [(e, sending)]) where
  apart := by
    rw [List.pairwise_append]
    refine ⟨S.apart, List.pairwise_singleton _ _, ?_⟩
    intro x hx y hy hxa hya
    obtain rfl := List.mem_singleton.1 hy
    exact (Nat.add_le_add_right (hsend x hx hxa) 5000).trans (hattempt.1 hya)
  prompt := by
    intro pre x post heq hdue
    rcases snoc_eq_append_cons heq with ⟨rfl, rfl⟩ | ⟨post', rfl⟩
    · exact hattempt.2 hdue
    · exact S.prompt pre x post' rfl hdue
  content := by
    intro pre x post heq hxa
    rcases snoc_eq_append_cons heq with ⟨rfl, rfl⟩ | ⟨post', rfl⟩
    · exact hcontent hxa
    · exact S.content pre x post' rfl hxa

/-- **One more iteration keeps the clock in step and the schedule kept.** -/
theorem Clocked.next (C : Clocked es h node) (S : Schedule curr_ID h) (ordered : e.times.Ordered)
    (later : endTime es ≤ e.times.first) (check : e.times.check < lastCheck es + (2 ^ 32 - 5000))
    (outage : e.gpsValid = false → e.times.grace < lastValid (es ++ [e]) + 2 ^ 32) :
    ∃ node' h', LoRaNode.next curr_ID (node, h) e = some (node', h') ∧
      Clocked (es ++ [e]) h' node' ∧ Schedule curr_ID h' := by
  obtain ⟨hgps, hlast, hsending⟩ := C.broadcast curr_ID ordered later check outage
  obtain ⟨t, ht⟩ := C.history
  obtain ⟨out, hout⟩ := LoRaNode.loop_total ht curr_ID e.input e.received
  obtain ⟨houtlast, houtgps⟩ := LoRaNode.loop_timers hout
  obtain ⟨sending, hs⟩ : ∃ sending, sending = (LoRaNode.broadcast curr_ID node e.input).2 :=
    ⟨_, rfl⟩
  rw [← hs] at hsending
  have hattempt : sending.Attempt ↔ lastAttempt h + 5000 ≤ e.times.check := by
    rw [hsending, LoRaNode.Sending.Attempt]
    split_ifs <;> simp_all
  obtain ⟨hfirst, hvalid, hcheck, hsend, hgrace⟩ := ordered
  have hold := C.attempt_le
  have hnew : lastAttempt (h ++ [(e, sending)]) =
      if lastAttempt h + 5000 ≤ e.times.check then e.times.send else lastAttempt h := by
    rw [lastAttempt_append]
    simp only [hattempt]
  refine ⟨out.node, h ++ [(e, sending)], ?_, ?_, ?_⟩
  · rw [LoRaNode.next, hout, hs, ← LoRaNode.loop_sending hout]
    rfl
  · refine ⟨by simp [C.entries], ?_, ?_, ?_, ?_, ?_, ?_⟩
    · rw [houtlast, hlast, hnew, lastCheck_append]
      split
      · exact Armed.fired (by decide) hcheck
      · rename_i hnot
        exact C.timer.not_fired hnot
    · rw [hnew, endTime_append]
      split <;> omega
    · intro x hx hxa
      rw [hnew]
      rcases List.mem_append.1 hx with hx | hx
      · have := C.send_le x hx hxa
        split <;> omega
      · obtain rfl := List.mem_singleton.1 hx
        rw [if_pos (hattempt.1 hxa)]
    · rw [houtgps, hgps, if_neg (by simp)]
    · have := C.valid_le
      rw [lastValid_append, endTime_append]
      split_ifs <;> omega
    · exact (LoRaNode.loop_spec hout).2.represents ⟨t, ht⟩
  · refine S.snoc hattempt (fun hsa => ?_) C.send_le
    rw [C.entries]
    exact hsending.trans (if_pos (hattempt.1 hsa))

theorem schedule_boot (curr_ID : BitVec 16) : Schedule curr_ID [] where
  apart := List.Pairwise.nil
  prompt := by simp
  content := by simp

/-- The clock is in step, and the schedule kept, after every run in time. -/
theorem InTime.run (curr_ID : BitVec 16) (H : InTime es) :
    ∃ node h, LoRaNode.run curr_ID es = some (node, h) ∧ Clocked es h node ∧
      Schedule curr_ID h := by
  induction H with
  | boot => exact ⟨_, _, rfl, clocked_boot, schedule_boot curr_ID⟩
  | next _ ordered later check outage ih =>
      obtain ⟨node, h, hrun, C, S⟩ := ih
      obtain ⟨node', h', hnext, C', S'⟩ := C.next S ordered later check outage
      exact ⟨node', h', by rw [LoRaNode.run_append, hrun, Option.bind_some, hnext], C', S'⟩

/-- **Every run keeps the schedule**, whatever is received in it and however often the clock
wraps. -/
theorem broadcast_schedule (curr_ID : BitVec 16) (es : List Timed) (H : InTime es) :
    ∃ node h, LoRaNode.run curr_ID es = some (node, h) ∧ h.map Prod.fst = es ∧
      Schedule curr_ID h := by
  obtain ⟨node, h, hrun, C, S⟩ := H.run curr_ID
  exact ⟨node, h, hrun, C.entries, S⟩

end Runs

/-- An iteration at the time `t`, all its clock readings in the same millisecond. -/
def Timed.at (t : ℕ) (gpsValid : Bool) : Timed where
  times := ⟨t, t, t, t, t, t⟩
  gps := ⟨gpsValid, gpsValid, 0, 0, 0, false, false, 0, 0, 0, 0, 0, 0⟩
  batteryLevel := 0
  received := none

/-- The GPS is valid in the first iteration only.  The clock wraps between the second one and the
third one, five seconds later, and both send the fake coordinates. -/
theorem broadcast_schedule_wrap : ∃ node h,
    LoRaNode.run 1 [.at 5000 true, .at 4294965000 false, .at 4294970000 false] = some (node, h) ∧
      h.map Prod.fst = [.at 5000 true, .at 4294965000 false, .at 4294970000 false] ∧
      Schedule 1 h := by
  have hordered : ∀ t valid, (Timed.at t valid).times.Ordered := fun t valid =>
    ⟨le_rfl, le_rfl, le_rfl, le_rfl, le_rfl⟩
  have h₁ : InTime ([] ++ [.at 5000 true]) :=
    .next .boot (hordered _ _) (by decide) (by decide) (by simp [Timed.gpsValid, Timed.at])
  have h₂ : InTime ([] ++ [.at 5000 true] ++ [.at 4294965000 false]) :=
    .next h₁ (hordered _ _) (by decide) (by decide) fun _ => by decide
  exact broadcast_schedule 1 _
    (.next h₂ (hordered _ _) (by decide) (by decide) fun _ => by decide)

end LoRaGPS
