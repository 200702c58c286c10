/-
**Looking for the baud rate of a GPS.**

`NMEAdiagnostic.ino` opens the port of the GPS at one baud rate after the other, until it receives a
sentence or has tried them all.  Whatever arrives, and whatever is made of it: the rates are tried
in a fixed order, each at most once; a rate is reported only if a sentence was received at it, and
as long as no sentence ends in the millisecond in which the clock shows zero, no other rate is tried
after a sentence.

Main definitions:

* `LoRaGPS.Diagnostic.GPSloop`, `LoRaGPS.Diagnostic.listenForSomething`,
  `LoRaGPS.Diagnostic.tryAnotherBaudRate` — the code;
* `LoRaGPS.Diagnostic.Event` — what the sketch does at its two ports;
* `LoRaGPS.Diagnostic.Event.Justified` — what an event says about those before it.

Main results:

* `LoRaGPS.Diagnostic.triple_GPSloop` — one call of `loop` keeps the state in order;
* `LoRaGPS.Diagnostic.diagnosis_sound` — **every event of every run is justified**.
-/

import LoRaGPS.Checked
import LoRaGPS.Program
import Mathlib.Data.List.DropRight

set_option relaxedAutoImplicit false
set_option autoImplicit false

namespace LoRaGPS.Diagnostic

open Program

/-! ### The code -/

def baud_table : List ℕ :=
  [1200, 2400, 4800, 9600, 14400, 19200, 28800, 31250, 38400, 57600, 115200]

def num_bauds : ℕ := baud_table.length

def INITIAL_BAUD_INDEX : ℕ := 3

def MAX_SAMPLE : ℕ := 256

/-- What the sketch does at the port of the GPS and prints: `checking` opens the port at a rate,
`read` takes a character from it, and `received` reports a sentence that ended when the clock showed
the given time. -/
inductive Event
  | noFieldsEnabled
  | noMessagesEnabled
  | checking (baud : ℕ)
  | read (c : BitVec 8)
  | received (time : BitVec 32)
  | noDataReceived
  | noValidSentences
  | validSentencesAgo (s ms : BitVec 8)
  | sentencesDetected
  | receivedData (cs : List (BitVec 8))
  | deviceBaudRate (baud : ℕ)
  | lastNeverReceived
  | allBaudRatesTried
  | completed (warnings errors : BitVec 8)
deriving DecidableEq, Repr

/-- The globals and the statics of the sketch. -/
structure State where
  last_rx : BitVec 32
  valid_sentence_received : BitVec 32
  last_sentence_received : Bool
  baudStartTime : BitVec 32
  warnings : BitVec 8
  errors : BitVec 8
  baud_index : ℕ
  someChars : List (BitVec 8)
  someCharsIndex : ℕ
  tries : BitVec 8
  sentences_printed : BitVec 8

/-- The state at boot. -/
def State.boot : State where
  last_rx := 0
  valid_sentence_received := 0
  last_sentence_received := false
  baudStartTime := 0
  warnings := 0
  errors := 0
  baud_index := INITIAL_BAUD_INDEX
  someChars := List.replicate MAX_SAMPLE 0
  someCharsIndex := 0
  tries := 1
  sentences_printed := 0

/-- A character that `GPSloop` reads: the clock before it is read, whether it ends a sentence for
`gps.decode`, and then whether this is the last one of an interval, and the clock after that. -/
structure Char where
  last_rx : BitVec 32
  c : BitVec 8
  completed : Option Bool
  now : BitVec 32

/-- What a call of `loop` meets: the characters that have arrived, and the clock behind them, in
`listenForSomething`, and in `tryBaud`. -/
structure Pass where
  chars : List Char
  now : BitVec 32
  current_ms : BitVec 32
  begun : BitVec 32

/-- `hang`. -/
def hang : Program State Event Unit := do
  let d ← get
  emit (.completed d.warnings d.errors)
  halt

/-- `tryBaud`. -/
def tryBaud (begun : BitVec 32) : Program State Event Unit := do
  let d ← get
  let baud ← access baud_table[d.baud_index]?
  emit (.checking baud)
  modify fun d => { d with baudStartTime := begun }

/-- The index that `tryAnotherBaudRate` goes on to. -/
def nextBaudIndex (baud_index : ℕ) : ℕ :=
  if baud_index = INITIAL_BAUD_INDEX then 0
  else
    let baud_index := (baud_index + 1) % 2 ^ 8
    -- the first rate that was tried is not tried again
    if baud_index = INITIAL_BAUD_INDEX then (baud_index + 1) % 2 ^ 8 else baud_index

/-- `tryAnotherBaudRate`.  What is still in the port is thrown away. -/
def tryAnotherBaudRate (begun : BitVec 32) : Program State Event Unit := do
  let d ← get
  if nextBaudIndex d.baud_index ≥ num_bauds then
    modify fun d => { d with baud_index := INITIAL_BAUD_INDEX }
    emit .allBaudRatesTried
    hang
  else
    modify fun d => { d with baud_index := nextBaudIndex d.baud_index }
    tryBaud begun

/-- The cells that `dumpSomeChars` reads. -/
def readCells (someChars : List (BitVec 8)) (someCharsIndex : ℕ) : Option (List (BitVec 8)) :=
  (List.range someCharsIndex).mapM fun i => someChars[i]?

/-- `dumpSomeChars`. -/
def dumpSomeChars : Program State Event Unit := do
  let d ← get
  if d.someCharsIndex > 0 then
    let cs ← access (readCells d.someChars d.someCharsIndex)
    emit (.receivedData cs)
    modify fun d => { d with someCharsIndex := 0 }
  else pure ()

/-- `displaySentences`. -/
def displaySentences : Program State Event Unit := do
  emit .sentencesDetected
  dumpSomeChars
  let d ← get
  let baud ← access baud_table[d.baud_index]?
  emit (.deviceBaudRate baud)
  if d.last_sentence_received then pure ()
  else
    modify fun d => { d with warnings := d.warnings + 1 }
    emit .lastNeverReceived

/-- `if (tryNext) { .. }` -/
def tryNext (begun : BitVec 32) : Program State Event Unit := do
  modify fun d => { d with tries := 1 }
  tryAnotherBaudRate begun
  modify fun d => { d with valid_sentence_received := 0 }

/-- `listenForSomething`. -/
def listenForSomething (current_ms begun : BitVec 32) : Program State Event Unit := do
  let d ← get
  if current_ms - d.last_rx > 5 ∧ current_ms - d.baudStartTime > 1000 then
    if d.someCharsIndex = 0 then
      modify fun d => { d with tries := d.tries + 1 }
      if d.tries ≥ 3 then
        modify fun d => { d with errors := d.errors + 1 }
        emit .noDataReceived
        tryNext begun
      else pure ()
    else if d.valid_sentence_received ≠ 0 then
      let s := (d.valid_sentence_received / 1000).setWidth 8
      emit (.validSentencesAgo s ((d.valid_sentence_received - s.setWidth 32 * 1000).setWidth 8))
      displaySentences
      hang
    else
      emit .noValidSentences
      dumpSomeChars
      tryNext begun
  else pure ()

/-- `if (someCharsIndex < MAX_SAMPLE) someChars[ someCharsIndex++ ] = c;` -/
def storeChar (c : BitVec 8) : Program State Event Unit := do
  let d ← get
  if d.someCharsIndex < MAX_SAMPLE then
    let someChars ← access (Checked.store d.someChars d.someCharsIndex c)
    modify fun d => { d with someChars := someChars, someCharsIndex := d.someCharsIndex + 1 }
  else pure ()

/-- What `GPSloop` does at the end of a sentence. -/
def sentence (last_rx : BitVec 32) (last : Bool) (now : BitVec 32) : Program State Event Unit := do
  modify fun d => { d with
    valid_sentence_received := last_rx
    last_sentence_received := d.last_sentence_received || last }
  emit (.received last_rx)
  let d ← get
  if now - d.baudStartTime > 3000 then
    displaySentences
    hang
  else
    modify fun d => { d with sentences_printed := d.sentences_printed + 1 }
    if d.sentences_printed ≥ 20 ∧ d.someCharsIndex ≥ MAX_SAMPLE then
      displaySentences
      hang
    else pure ()

/-- One character of the loop in `GPSloop`. -/
def readChar (x : Char) : Program State Event Unit := do
  modify fun d => { d with last_rx := x.last_rx }
  emit (.read x.c)
  storeChar x.c
  match x.completed with
  | none => pure ()
  | some last => sentence x.last_rx last x.now

/-- `GPSloop`, which is all of `loop`. -/
def GPSloop (p : Pass) : Program State Event Unit := do
  forEach readChar p.chars
  let d ← get
  if d.valid_sentence_received = 0 ∨ p.now - d.valid_sentence_received > 3000 then
    listenForSomething p.current_ms p.begun
  else pure ()

/-- A warning of `setup` about how the sketch was compiled. -/
def warn (given : Bool) (x : Event) : Program State Event Unit :=
  if given then do
    modify fun d => { d with warnings := d.warnings + 1 }
    emit x
  else pure ()

/-- `setup`. -/
def setup (noFields noMessages : Bool) (begun : BitVec 32) : Program State Event Unit := do
  warn noFields .noFieldsEnabled
  warn noMessages .noMessagesEnabled
  tryBaud begun

/-- The sketch, in the calls `ps` of `loop`. -/
def run (noFields noMessages : Bool) (begun : BitVec 32) (ps : List Pass) :
    Program State Event Unit := do
  setup noFields noMessages begun
  forEach GPSloop ps

/-! ### What an event says -/

/-- The rates in the order in which they are tried. -/
def rates : List ℕ := [9600, 1200, 2400, 4800, 14400, 19200, 28800, 31250, 38400, 57600, 115200]

/-- The rate that an event opens the port at. -/
def Event.rate : Event → Option ℕ
  | .checking baud => some baud
  | _ => none

/-- The character that an event reads. -/
def Event.char : Event → Option (BitVec 8)
  | .read c => some c
  | _ => none

/-- The warnings. -/
def Event.isWarning : Event → Bool
  | .noFieldsEnabled | .noMessagesEnabled | .lastNeverReceived => true
  | _ => false

/-- The rates that were tried. -/
def tried (h : List Event) : List ℕ := h.filterMap Event.rate

/-- What has happened since the port was opened last. -/
def sinceOpened (h : List Event) : List Event := h.rtakeWhile fun x => x.rate.isNone

/-- The characters that were read since then. -/
def readSince (h : List Event) : List (BitVec 8) := (sinceOpened h).filterMap Event.char

/-- A sentence was received. -/
def Heard (h : List Event) : Prop := ∃ time, .received time ∈ h

/-- No sentence has ended when the clock showed zero. -/
def NeverAtZero (h : List Event) : Prop := .received 0 ∉ h

/-- An event is justified by those before it: another rate is tried in its turn, and the end of the
rates reported at their end, and both, if no sentence has ended at zero, only if no sentence was
received at all; what was received is shown from the start, up to the size of the buffer; a rate is
reported if it is the one that the port was opened at last and a sentence was received since;
nothing was read since, or no sentence received, if that is what is printed; and the warnings and
errors are counted. -/
def Event.Justified (pre : List Event) : Event → Prop
  | .checking baud => tried pre ++ [baud] <+: rates ∧ (NeverAtZero pre → ¬ Heard pre)
  | .noDataReceived => readSince pre = []
  | .noValidSentences => readSince pre ≠ [] ∧ (NeverAtZero pre → ¬ Heard pre)
  | .receivedData cs => cs = (readSince pre).take MAX_SAMPLE
  | .deviceBaudRate baud => (tried pre).getLast? = some baud ∧ Heard (sinceOpened pre)
  | .allBaudRatesTried => tried pre = rates ∧ (NeverAtZero pre → ¬ Heard pre)
  | .completed warnings errors =>
      warnings.toNat = pre.countP Event.isWarning ∧ errors.toNat = pre.count .noDataReceived
  | _ => True

/-! ### The state -/

/-- The index of each rate, in the order in which they are tried. -/
def order : List ℕ := [3, 0, 1, 2, 4, 5, 6, 7, 8, 9, 10]

/-- The warnings and errors are counted. -/
structure Counted (h : List Event) (d : State) : Prop where
  warnings : d.warnings.toNat = h.countP Event.isWarning
  errors : d.errors.toNat = h.count .noDataReceived

/-- The rate at the place `k` of the order is open, and there are at most `e` errors. -/
structure Opened (k e : ℕ) (h : List Event) (d : State) : Prop extends Counted h d where
  index : order[k]? = some d.baud_index
  tried : tried h = rates.take (k + 1)
  warnings_le : h.countP Event.isWarning ≤ 2
  errors_le : h.count .noDataReceived ≤ e
  cells : d.someChars.length = MAX_SAMPLE

/-- What the time of the last sentence says. -/
structure Timed (h : List Event) (d : State) : Prop where
  heard : d.valid_sentence_received ≠ 0 → Heard (sinceOpened h)
  quiet : NeverAtZero h → d.valid_sentence_received = 0 → ¬ Heard h
  read : Heard (sinceOpened h) → readSince h ≠ []

/-- The buffer holds the characters that were read since the port was opened. -/
structure Sampled (h : List Event) (d : State) : Prop where
  index : d.someCharsIndex = min (readSince h).length MAX_SAMPLE
  data : d.someChars.take d.someCharsIndex = (readSince h).take MAX_SAMPLE

/-- The state is in order. -/
structure Ok (h : List Event) (d : State) : Prop where
  opened : ∃ k, Opened k k h d
  timed : Timed h d
  sampled : Sampled h d

/-- The state is in order also where the timers and the counters that it does not speak of are
others. -/
theorem Ok.timers {h : List Event} {d : State} (K : Ok h d) (last_rx baudStartTime : BitVec 32)
    (last_sentence_received : Bool) (tries sentences_printed : BitVec 8) :
    Ok h { d with
      last_rx := last_rx
      baudStartTime := baudStartTime
      last_sentence_received := last_sentence_received
      tries := tries
      sentences_printed := sentences_printed } := by
  obtain ⟨⟨k, O⟩, T, S⟩ := K
  exact ⟨⟨k, ⟨⟨O.warnings, O.errors⟩, O.index, O.tried, O.warnings_le, O.errors_le, O.cells⟩⟩,
    ⟨T.heard, T.quiet, T.read⟩, ⟨S.index, S.data⟩⟩

/-! ### Logs that grow -/

section Logs

variable {h : List Event} {x : Event} {d : State} {k e : ℕ}

theorem tried_concat (hx : x.rate = none) : tried (h ++ [x]) = tried h := by
  simp [tried, hx]

theorem tried_checking (h : List Event) (baud : ℕ) :
    tried (h ++ [.checking baud]) = tried h ++ [baud] := by
  simp [tried, Event.rate]

theorem sinceOpened_concat (hx : x.rate = none) :
    sinceOpened (h ++ [x]) = sinceOpened h ++ [x] := by
  simp [sinceOpened, hx]

theorem sinceOpened_checking (h : List Event) (baud : ℕ) :
    sinceOpened (h ++ [.checking baud]) = [] := by
  simp [sinceOpened, Event.rate]

theorem readSince_concat (hx : x.rate = none) :
    readSince (h ++ [x]) = readSince h ++ x.char.toList := by
  rw [readSince, sinceOpened_concat hx, List.filterMap_append]
  cases hc : x.char <;> simp [readSince, hc]

theorem heard_concat (hx : ∀ time, x ≠ .received time) : Heard (h ++ [x]) ↔ Heard h := by
  have hne : ∀ time, Event.received time ≠ x := fun time heq => hx time heq.symm
  simp [Heard, hne]

theorem neverAtZero_concat (hx : x ≠ .received 0) : NeverAtZero (h ++ [x]) ↔ NeverAtZero h := by
  simp only [NeverAtZero, List.mem_append, List.mem_singleton, hx.symm, or_false]

/-- An event that only prints something: no rate, no character, no sentence, nothing to count. -/
structure Event.Plain (x : Event) : Prop where
  rate : x.rate = none
  char : x.char = none
  warning : x.isWarning = false
  error : x ≠ .noDataReceived
  received : ∀ time, x ≠ .received time

theorem Counted.plain (C : Counted h d) (hx : x.Plain) : Counted (h ++ [x]) d where
  warnings := by simp [C.warnings, hx.warning]
  errors := by simp [C.errors, hx.error]

theorem Opened.plain (O : Opened k e h d) (hx : x.Plain) : Opened k e (h ++ [x]) d where
  toCounted := O.toCounted.plain hx
  index := O.index
  tried := by rw [tried_concat hx.rate, O.tried]
  warnings_le := by simpa [hx.warning] using O.warnings_le
  errors_le := by simpa [hx.error] using O.errors_le
  cells := O.cells

theorem Timed.plain (T : Timed h d) (hx : x.Plain) : Timed (h ++ [x]) d := by
  have hsince : Heard (sinceOpened (h ++ [x])) ↔ Heard (sinceOpened h) := by
    rw [sinceOpened_concat hx.rate, heard_concat hx.received]
  constructor
  · rw [hsince]
    exact T.heard
  · rw [neverAtZero_concat (hx.received 0), heard_concat hx.received]
    exact T.quiet
  · rw [hsince, readSince_concat hx.rate, hx.char]
    simpa using T.read

theorem Sampled.plain (S : Sampled h d) (hx : x.Plain) : Sampled (h ++ [x]) d := by
  have hread : readSince (h ++ [x]) = readSince h := by
    rw [readSince_concat hx.rate, hx.char]
    simp
  exact ⟨by rw [hread, S.index], by rw [hread, S.data]⟩

theorem Ok.plain (K : Ok h d) (hx : x.Plain) : Ok (h ++ [x]) d where
  opened := by
    obtain ⟨k, O⟩ := K.opened
    exact ⟨k, O.plain hx⟩
  timed := K.timed.plain hx
  sampled := K.sampled.plain hx

end Logs

/-! ### The functions -/

section Functions

variable {k e : ℕ} {begun : BitVec 32}

theorem baud_order : ∀ k < 11, (order[k]?).bind (baud_table[·]?) = rates[k]? := by decide

theorem nextBaudIndex_order : ∀ k < 10, (order[k]?).map nextBaudIndex = order[k + 1]? := by decide

theorem lt_of_order {i : ℕ} (h : order[k]? = some i) : k < 11 := by
  obtain ⟨hlt, -⟩ := List.getElem?_eq_some_iff.1 h
  exact hlt

theorem rates_take {baud : ℕ} (h : rates[k]? = some baud) :
    rates.take k ++ [baud] = rates.take (k + 1) := by
  obtain ⟨hlt, rfl⟩ := List.getElem?_eq_some_iff.1 h
  exact (List.take_succ_eq_append_getElem hlt).symm

/-- The port is about to be opened at the rate at the place `k`. -/
structure Before (k : ℕ) (h : List Event) (d : State) : Prop extends Counted h d where
  index : order[k]? = some d.baud_index
  tried : tried h = rates.take k
  warnings_le : h.countP Event.isWarning ≤ 2
  errors_le : h.count .noDataReceived ≤ k
  cells : d.someChars.length = MAX_SAMPLE
  empty : d.someCharsIndex = 0
  none : d.valid_sentence_received = 0
  quiet : NeverAtZero h → ¬ Heard h

/-- **A rate is tried in its turn.** -/
theorem triple_tryBaud : Triple Event.Justified (Before k) (tryBaud begun)
    fun _ h d => Ok h d ∧ d.valid_sentence_received = 0 := by
  refine .get fun d => ?_
  have hrate : ∀ h s, s = d ∧ Before k h s →
      ∃ baud, baud_table[d.baud_index]? = some baud ∧ rates[k]? = some baud ∧ Before k h s := by
    rintro h s ⟨rfl, B⟩
    have hlt := lt_of_order B.index
    have hk := baud_order k hlt
    rw [B.index, Option.bind_some, List.getElem?_eq_getElem (l := rates) hlt] at hk
    exact ⟨_, hk, List.getElem?_eq_getElem hlt, B⟩
  refine .bind (.access hrate) fun baud => .bind (Q := fun _ h s => Ok h s ∧
    s.valid_sentence_received = 0) (.emit ?_) fun _ => .modify ?_
  · rintro h s ⟨hbaud, B⟩
    have htried : tried (h ++ [.checking baud]) = rates.take (k + 1) := by
      rw [tried_checking, B.tried, rates_take hbaud]
    refine ⟨⟨?_, B.quiet⟩, ⟨⟨k, ?_⟩, ?_, ?_⟩, B.none⟩
    · rw [← tried_checking, htried]
      exact List.take_prefix _ _
    · exact ⟨⟨by simpa [Event.isWarning] using B.warnings, by simpa using B.errors⟩, B.index, htried,
        by simpa [Event.isWarning] using B.warnings_le, by simpa using B.errors_le, B.cells⟩
    · refine ⟨fun hne => absurd B.none hne, ?_, ?_⟩
      · rw [neverAtZero_concat (by simp), heard_concat (by simp)]
        exact fun hzero _ => B.quiet hzero
      · rw [sinceOpened_checking]
        rintro ⟨time, htime⟩
        simp at htime
    · have hread : readSince (h ++ [.checking baud]) = [] := by
        rw [readSince, sinceOpened_checking]
        rfl
      exact ⟨by rw [hread, B.empty]; rfl, by rw [hread, B.empty]; rfl⟩
  · rintro h s ⟨K, hnone⟩
    exact ⟨K.timers _ _ _ _ _, hnone⟩

/-- The sketch goes on to the next rate of the order, or has come to its end. -/
theorem nextBaudIndex_spec {i : ℕ} (h : order[k]? = some i) :
    (order[k + 1]? = some (nextBaudIndex i) ∧ nextBaudIndex i < num_bauds) ∨
      k = 10 ∧ num_bauds ≤ nextBaudIndex i := by
  have hlt := lt_of_order h
  rcases Nat.lt_or_ge k 10 with hk | hk
  · have hnext := nextBaudIndex_order k hk
    rw [h, Option.map_some] at hnext
    have hmem : ∀ i ∈ order, i < num_bauds := by decide
    exact Or.inl ⟨hnext.symm, hmem _ (List.mem_of_getElem? hnext.symm)⟩
  · obtain rfl : k = 10 := by omega
    obtain rfl : 10 = i := by simpa [order] using h
    exact Or.inr ⟨rfl, by decide⟩

theorem triple_hang {P : List Event → State → Prop} {Q : Unit → List Event → State → Prop}
    (hP : ∀ h d, P h d → Counted h d) : Triple Event.Justified P hang Q := by
  refine .get fun d => .bind (Q := fun _ _ _ => True) (.emit ?_) fun _ => .halt
  rintro h s ⟨rfl, hs⟩
  have C := hP h s hs
  exact ⟨⟨C.warnings, C.errors⟩, trivial⟩

/-- The rate at the place `k` is given up: no sentence was received, and nothing is in the buffer. -/
structure Given (k : ℕ) (h : List Event) (d : State) : Prop extends Opened k (k + 1) h d where
  empty : d.someCharsIndex = 0
  none : d.valid_sentence_received = 0
  quiet : NeverAtZero h → ¬ Heard h

/-- **Another rate is tried, or the sketch halts after the last one.** -/
theorem triple_tryAnotherBaudRate : Triple Event.Justified (Given k) (tryAnotherBaudRate begun)
    fun _ h d => Ok h d ∧ d.valid_sentence_received = 0 := by
  refine .get fun d => .ite (fun hlast => ?_) fun hnext => ?_
  · refine .bind (Q := fun _ h s => Counted h s ∧ tried h = rates ∧ (NeverAtZero h → ¬ Heard h))
        (.modify ?_) fun _ =>
      .bind (Q := fun _ => Counted) (.emit ?_) fun _ => triple_hang fun _ _ C => C
    · rintro h s ⟨rfl, G⟩
      rcases nextBaudIndex_spec G.index with ⟨-, hlt⟩ | ⟨rfl, -⟩
      · exact absurd hlast (Nat.not_le.2 hlt)
      · exact ⟨⟨G.warnings, G.errors⟩, G.tried, G.quiet⟩
    · rintro h s ⟨C, hall⟩
      exact ⟨hall, C.plain ⟨rfl, rfl, rfl, by simp, by simp⟩⟩
  · refine .bind (Q := fun _ => Before (k + 1)) (.modify ?_) fun _ => triple_tryBaud
    rintro h s ⟨rfl, G⟩
    rcases nextBaudIndex_spec G.index with ⟨hindex, -⟩ | ⟨-, hge⟩
    · exact ⟨⟨G.warnings, G.errors⟩, hindex, G.tried, G.warnings_le, G.errors_le, G.cells, G.empty,
        G.none, G.quiet⟩
    · exact absurd hge hnext

theorem triple_tryNext : Triple Event.Justified (Given k) (tryNext begun) fun _ => Ok := by
  refine .bind (Q := fun _ => Given k) (.modify ?_) fun _ =>
    .bind triple_tryAnotherBaudRate fun _ => .modify ?_
  · intro h s G
    exact ⟨⟨⟨G.warnings, G.errors⟩, G.index, G.tried, G.warnings_le, G.errors_le, G.cells⟩, G.empty,
      G.none, G.quiet⟩
  · rintro h s ⟨K, hnone⟩
    rw [← hnone]
    exact K

theorem readCells_eq {cs : List (BitVec 8)} {n : ℕ} (h : n ≤ cs.length) :
    readCells cs n = some (cs.take n) := by
  induction n with
  | zero => rfl
  | succ n ih =>
      have hcell : cs[n]? = some cs[n] := List.getElem?_eq_getElem h
      have hn : (List.range n).mapM (fun i => cs[i]?) = some (cs.take n) := ih (by omega)
      rw [readCells, List.range_succ, List.mapM_append, hn, List.take_succ_eq_append_getElem h]
      simp [hcell]

/-- The buffer was emptied. -/
structure Dumped (h : List Event) (d : State) : Prop where
  opened : ∃ k, Opened k k h d
  timed : Timed h d
  empty : d.someCharsIndex = 0

/-- **What was received is shown**, and the buffer is empty.  Whatever else is known of the time of
the last sentence, and does not depend on what is printed, is still known. -/
theorem triple_dumpSomeChars {F : List Event → BitVec 32 → Prop}
    (hF : ∀ h x v, x.Plain → F h v → F (h ++ [x]) v) : Triple Event.Justified
      (fun h d => Ok h d ∧ F h d.valid_sentence_received) dumpSomeChars
      fun _ h d => Dumped h d ∧ F h d.valid_sentence_received := by
  refine .get fun d => .ite (fun hsome => ?_) fun hnone => .pure ?_
  · refine .bind (Q := fun cs h s => cs = (readSince h).take MAX_SAMPLE ∧ Ok h s ∧
        F h s.valid_sentence_received) (.access ?_) fun cs =>
      .bind (Q := fun _ h s => Ok h s ∧ F h s.valid_sentence_received) (.emit ?_) fun _ =>
        .modify ?_
    · rintro h s ⟨rfl, K, hv⟩
      obtain ⟨k, O⟩ := K.opened
      have hle : s.someCharsIndex ≤ s.someChars.length := by
        rw [O.cells, K.sampled.index]
        exact min_le_right _ _
      exact ⟨_, readCells_eq hle, K.sampled.data, K, hv⟩
    · rintro h s ⟨rfl, K, hv⟩
      have hplain : (Event.receivedData ((readSince h).take MAX_SAMPLE)).Plain :=
        ⟨rfl, rfl, rfl, by simp, by simp⟩
      exact ⟨rfl, K.plain hplain, hF _ _ _ hplain hv⟩
    · rintro h s ⟨K, hv⟩
      obtain ⟨⟨k, O⟩, T, -⟩ := K
      exact ⟨⟨⟨k, ⟨O.warnings, O.errors⟩, O.index, O.tried, O.warnings_le, O.errors_le, O.cells⟩,
        ⟨T.heard, T.quiet, T.read⟩, rfl⟩, hv⟩
  · rintro h s ⟨rfl, K, hv⟩
    exact ⟨⟨K.opened, K.timed, Nat.eq_zero_of_not_pos hnone⟩, hv⟩

theorem heard_plain (h : List Event) (x : Event) (hx : x.Plain) (H : Heard (sinceOpened h)) :
    Heard (sinceOpened (h ++ [x])) := by
  rwa [sinceOpened_concat hx.rate, heard_concat hx.received]

/-- **The rate that is reported is one at which a sentence was received.** -/
theorem triple_displaySentences : Triple Event.Justified
    (fun h d => Ok h d ∧ Heard (sinceOpened h)) displaySentences fun _ => Counted := by
  refine .bind (Q := fun _ h d => Ok h d ∧ Heard (sinceOpened h)) (.emit ?_) fun _ =>
    .bind (triple_dumpSomeChars (F := fun h _ => Heard (sinceOpened h))
      fun h x _ hx H => heard_plain h x hx H) fun _ => .get fun d =>
    .bind (Q := fun baud h s => (tried h).getLast? = some baud ∧ Dumped h s ∧
      Heard (sinceOpened h)) (.access ?_) fun baud =>
    .bind (Q := fun _ h s => Counted h s ∧ h.countP Event.isWarning ≤ 2) (.emit ?_) fun _ =>
    .ite (fun _ => .pure fun _ _ C => C.1) fun _ =>
    .bind (Q := fun _ h s => s.warnings.toNat = h.countP Event.isWarning + 1 ∧
      s.errors.toNat = h.count .noDataReceived) (.modify ?_) fun _ => .emit ?_
  · rintro h s ⟨K, H⟩
    have hplain : Event.sentencesDetected.Plain := ⟨rfl, rfl, rfl, by simp, by simp⟩
    exact ⟨trivial, K.plain hplain, heard_plain _ _ hplain H⟩
  · rintro h s ⟨rfl, D, H⟩
    obtain ⟨k, O⟩ := D.opened
    have hlt := lt_of_order O.index
    have hk := baud_order k hlt
    rw [O.index, Option.bind_some, List.getElem?_eq_getElem (l := rates) hlt] at hk
    refine ⟨_, hk, ?_, D, H⟩
    rw [O.tried, ← rates_take (List.getElem?_eq_getElem (l := rates) hlt), List.getLast?_concat]
  · rintro h s ⟨hbaud, D, H⟩
    obtain ⟨k, O⟩ := D.opened
    have hplain : (Event.deviceBaudRate baud).Plain := ⟨rfl, rfl, rfl, by simp, by simp⟩
    exact ⟨⟨hbaud, H⟩, O.toCounted.plain hplain, (O.plain hplain).warnings_le⟩
  · rintro h s ⟨C, hle⟩
    refine ⟨?_, C.errors⟩
    have hw := C.warnings
    rw [BitVec.toNat_add, hw]
    simp
    omega
  · rintro h s ⟨hw, he⟩
    exact ⟨trivial, by simpa [Event.isWarning] using hw, by simpa using he⟩

/-- An empty buffer: nothing was read since the port was opened, and so no sentence received. -/
theorem Ok.readSince_eq_nil {h : List Event} {d : State} (K : Ok h d)
    (hempty : d.someCharsIndex = 0) : readSince h = [] ∧ d.valid_sentence_received = 0 := by
  have hread : readSince h = [] := by
    have hindex := K.sampled.index
    rw [hempty] at hindex
    have hlen : (readSince h).length = 0 := by
      unfold MAX_SAMPLE at hindex
      omega
    exact List.length_eq_zero_iff.1 hlen
  refine ⟨hread, ?_⟩
  by_contra hne
  exact K.timed.read (K.timed.heard hne) hread

/-- **Where nothing arrives for long enough**, the state stays in order. -/
theorem triple_listenForSomething (current_ms begun : BitVec 32) :
    Triple Event.Justified Ok (listenForSomething current_ms begun) fun _ => Ok := by
  refine .get fun d => .ite (fun _ => .ite (fun hempty => ?_) fun hsome =>
    .ite (fun hvalid => ?_) fun hvalid => ?_) fun _ => .pure fun h s hs => hs.2
  · -- no data
    refine .bind (Q := fun _ h s => Ok h s ∧ s.someCharsIndex = 0) (.modify ?_) fun _ =>
      .ite (fun _ => ?_) fun _ => .pure fun h s hs => hs.1
    · rintro h s ⟨rfl, K⟩
      exact ⟨K.timers _ _ _ _ _, hempty⟩
    · refine .bind (Q := fun _ h s => readSince h = [] ∧ ∀ h', h' = h ++ [.noDataReceived] →
          ∃ k, Given k h' s) (.modify ?_) fun _ =>
        .bind (Q := fun _ h s => ∃ k, Given k h s) (.emit ?_) fun _ =>
        .of_exists fun k => triple_tryNext
      · rintro h s ⟨K, hindex⟩
        obtain ⟨hread, hnone⟩ := K.readSince_eq_nil hindex
        obtain ⟨⟨k, O⟩, T, S⟩ := K
        refine ⟨hread, ?_⟩
        rintro h' rfl
        have herrors : (s.errors + 1).toNat = (h ++ [Event.noDataReceived]).count
            .noDataReceived := by
          have hle := O.errors_le
          have hlt := lt_of_order O.index
          rw [BitVec.toNat_add, O.errors]
          simp
          omega
        refine ⟨k, ⟨⟨⟨?_, herrors⟩, O.index, ?_, ?_, ?_, O.cells⟩, hindex, hnone, ?_⟩⟩
        · simpa [Event.isWarning] using O.warnings
        · rw [tried_concat rfl, O.tried]
        · simpa [Event.isWarning] using O.warnings_le
        · simpa using O.errors_le
        · rw [neverAtZero_concat (by simp), heard_concat (by simp)]
          exact fun hzero => T.quiet hzero hnone
      · rintro h s ⟨hread, hgiven⟩
        exact ⟨hread, hgiven _ rfl⟩
  · -- sentences, but not for three seconds
    refine .bind (Q := fun _ h d => Ok h d ∧ Heard (sinceOpened h)) (.emit ?_) fun _ =>
      .bind triple_displaySentences fun _ => triple_hang fun _ _ C => C
    rintro h s ⟨rfl, K⟩
    have hplain : ∀ a b, (Event.validSentencesAgo a b).Plain := fun a b =>
      ⟨rfl, rfl, rfl, by simp, by simp⟩
    exact ⟨trivial, K.plain (hplain _ _), heard_plain _ _ (hplain _ _) (K.timed.heard hvalid)⟩
  · -- characters, but no sentence
    have hzero : d.valid_sentence_received = 0 := not_not.1 hvalid
    refine .bind (Q := fun _ h s => Ok h s ∧ (s.valid_sentence_received = 0 ∧
        (NeverAtZero h → ¬ Heard h))) (.emit ?_) fun _ =>
      .bind (triple_dumpSomeChars (F := fun h v => v = 0 ∧ (NeverAtZero h → ¬ Heard h)) ?_) fun _ =>
      .weaken (P := fun h s => ∃ k, Given k h s) (.of_exists fun k => triple_tryNext) ?_
        fun _ _ _ K => K
    · rintro h s ⟨rfl, K⟩
      have hplain : Event.noValidSentences.Plain := ⟨rfl, rfl, rfl, by simp, by simp⟩
      have hquiet : NeverAtZero h → ¬ Heard h := fun hnever => K.timed.quiet hnever hzero
      refine ⟨⟨?_, hquiet⟩, K.plain hplain, hzero, ?_⟩
      · intro hread
        have hindex := K.sampled.index
        rw [hread] at hindex
        exact hsome hindex
      · rwa [neverAtZero_concat (by simp), heard_concat (by simp)]
    · rintro h x v hx ⟨hv, hquiet⟩
      exact ⟨hv, by rwa [neverAtZero_concat (hx.received 0), heard_concat hx.received]⟩
    · rintro h s ⟨D, hv, hquiet⟩
      obtain ⟨k, O⟩ := D.opened
      exact ⟨k, ⟨⟨⟨O.warnings, O.errors⟩, O.index, O.tried, O.warnings_le,
        O.errors_le.trans (Nat.le_succ k), O.cells⟩, D.empty, hv, hquiet⟩⟩

/-- A character was read, and is not yet in the buffer. -/
def Pending (c : BitVec 8) (h : List Event) (d : State) : Prop :=
  ∃ h₀, h = h₀ ++ [.read c] ∧ Ok h₀ d

theorem readSince_read {c : BitVec 8} {h₀ : List Event} :
    readSince (h₀ ++ [.read c]) = readSince h₀ ++ [c] := by
  rw [readSince_concat rfl]
  rfl

theorem Ok.read {h₀ : List Event} {d : State} {c : BitVec 8} (K : Ok h₀ d)
    {someChars : List (BitVec 8)} {someCharsIndex : ℕ} (hcells : someChars.length = MAX_SAMPLE)
    (hindex : someCharsIndex = min ((readSince h₀).length + 1) MAX_SAMPLE)
    (hdata : someChars.take someCharsIndex = (readSince h₀ ++ [c]).take MAX_SAMPLE) :
    Ok (h₀ ++ [.read c])
      { d with someChars := someChars, someCharsIndex := someCharsIndex } := by
  obtain ⟨⟨k, O⟩, T, -⟩ := K
  refine ⟨⟨k, ⟨⟨?_, ?_⟩, O.index, ?_, ?_, ?_, hcells⟩⟩, ⟨?_, ?_, ?_⟩, ⟨?_, ?_⟩⟩
  · simpa [Event.isWarning] using O.warnings
  · simpa using O.errors
  · rw [tried_concat rfl, O.tried]
  · simpa [Event.isWarning] using O.warnings_le
  · simpa using O.errors_le
  · rw [sinceOpened_concat rfl, heard_concat (by simp)]
    exact T.heard
  · rw [neverAtZero_concat (by simp), heard_concat (by simp)]
    exact T.quiet
  · rw [readSince_read]
    simp
  · rw [readSince_read, List.length_append]
    exact hindex
  · rw [readSince_read]
    exact hdata

/-- **A character goes to the buffer while there is room.** -/
theorem triple_storeChar (c : BitVec 8) : Triple Event.Justified (Pending c) (storeChar c)
    fun _ h d => Ok h d ∧ readSince h ≠ [] := by
  refine .get fun d => .ite (fun hroom => ?_) fun hfull => .pure ?_
  · refine .bind (Q := fun someChars h s => s = d ∧ Pending c h s ∧
      someChars = d.someChars.set d.someCharsIndex c) (.access ?_) fun someChars => .modify ?_
    · rintro h s ⟨rfl, h₀, hh, K⟩
      obtain ⟨k, O⟩ := K.opened
      exact ⟨_, Checked.store_eq_some c (by rw [O.cells]; exact hroom), rfl, ⟨h₀, hh, K⟩, rfl⟩
    · rintro h s ⟨rfl, ⟨h₀, rfl, K⟩, rfl⟩
      obtain ⟨k, O⟩ := K.opened
      obtain ⟨hindex, hdata⟩ := K.sampled
      have hlen : (readSince h₀).length = s.someCharsIndex := by omega
      refine ⟨K.read (by rw [List.length_set, O.cells]) (by omega) ?_, ?_⟩
      · have hcell : s.someCharsIndex < (s.someChars.set s.someCharsIndex c).length := by
          rw [List.length_set, O.cells]
          exact hroom
        rw [List.take_succ_eq_append_getElem hcell, List.getElem_set_self,
          List.take_set_of_le le_rfl, hdata, List.take_of_length_le (by omega),
          List.take_of_length_le (by rw [List.length_append, List.length_singleton]; omega)]
      · rw [readSince_read]
        simp
  · rintro h s ⟨rfl, h₀, rfl, K⟩
    obtain ⟨k, O⟩ := K.opened
    obtain ⟨hindex, hdata⟩ := K.sampled
    refine ⟨K.read (d := s) O.cells (by omega) ?_, ?_⟩
    · rw [hdata, List.take_append_of_le_length (by omega)]
    · rw [readSince_read]
      simp

/-- The state with the time of a sentence in it is in order once the sentence is reported. -/
theorem Ok.received {h : List Event} {d : State} (K : Ok h d) (hread : readSince h ≠ [])
    (time : BitVec 32) (last : Bool) :
    Ok (h ++ [.received time])
        { d with valid_sentence_received := time, last_sentence_received := last } ∧
      Heard (sinceOpened (h ++ [.received time])) := by
  have hsince : Heard (sinceOpened (h ++ [.received time])) :=
    ⟨time, by rw [sinceOpened_concat rfl]; simp⟩
  have hreads : readSince (h ++ [.received time]) = readSince h := by
    rw [readSince_concat rfl]
    simp [Event.char]
  obtain ⟨⟨k, O⟩, T, S⟩ := K
  refine ⟨⟨⟨k, ⟨⟨?_, ?_⟩, O.index, ?_, ?_, ?_, O.cells⟩⟩, ⟨?_, ?_, ?_⟩, ⟨?_, ?_⟩⟩, hsince⟩
  · simpa [Event.isWarning] using O.warnings
  · simpa using O.errors
  · rw [tried_concat rfl, O.tried]
  · simpa [Event.isWarning] using O.warnings_le
  · simpa using O.errors_le
  · exact fun _ => hsince
  · intro hnever hzero
    have htime : time = 0 := hzero
    exact absurd (by simp [htime]) hnever
  · exact fun _ => hreads ▸ hread
  · rw [hreads]
    exact S.index
  · rw [hreads]
    exact S.data

/-- **A sentence ends**: it is reported, and perhaps the rate with it. -/
theorem triple_sentence (last_rx : BitVec 32) (last : Bool) (now : BitVec 32) :
    Triple Event.Justified (fun h d => Ok h d ∧ readSince h ≠ []) (sentence last_rx last now)
      fun _ => Ok := by
  refine .bind (Q := fun _ h s => ∃ d, s = { d with
      valid_sentence_received := last_rx
      last_sentence_received := d.last_sentence_received || last } ∧ Ok h d ∧ readSince h ≠ [])
    (.modify fun h s hs => ⟨s, rfl, hs⟩) fun _ =>
    .bind (Q := fun _ h d => Ok h d ∧ Heard (sinceOpened h)) (.emit ?_) fun _ => .get fun d =>
    .ite (fun _ => ?_) fun _ => ?_
  · rintro h s ⟨d, rfl, K, hread⟩
    exact ⟨trivial, K.received hread _ _⟩
  · refine .bind (.weaken triple_displaySentences ?_ fun _ _ _ C => C) fun _ =>
      triple_hang fun _ _ C => C
    exact fun h s hs => hs.2
  · refine .bind (Q := fun _ h d => Ok h d ∧ Heard (sinceOpened h)) (.modify ?_) fun _ =>
      .ite (fun _ => ?_) fun _ => .pure fun h s hs => hs.1
    · rintro h s ⟨rfl, K, H⟩
      exact ⟨K.timers _ _ _ _ _, H⟩
    · exact .bind triple_displaySentences fun _ => triple_hang fun _ _ C => C

theorem triple_readChar (x : Char) : Triple Event.Justified Ok (readChar x) fun _ => Ok := by
  refine .bind (Q := fun _ => Ok) (.modify fun h s K => K.timers _ _ _ _ _) fun _ =>
    .bind (Q := fun _ => Pending x.c) (.emit fun h s K => ⟨trivial, h, rfl, K⟩) fun _ =>
    .bind (triple_storeChar x.c) fun _ => ?_
  cases x.completed with
  | none => exact .pure fun h s hs => hs.1
  | some last => exact triple_sentence x.last_rx last x.now

/-- **One call of `loop` keeps the state in order.** -/
theorem triple_GPSloop (p : Pass) : Triple Event.Justified Ok (GPSloop p) fun _ => Ok := by
  refine .bind (.forEach fun x _ => triple_readChar x) fun _ => .get fun d =>
    .ite (fun _ => ?_) fun _ => .pure fun h s hs => hs.2
  exact .weaken (triple_listenForSomething p.current_ms p.begun) (fun h s hs => hs.2)
    fun _ _ _ K => K

/-- Before the port was opened, with at most `w` warnings. -/
structure Setup (w : ℕ) (h : List Event) (d : State) : Prop extends Before 0 h d where
  warned : h.countP Event.isWarning ≤ w

theorem triple_warn {w : ℕ} (hw : w < 2) (given : Bool) {x : Event} (hx : x.isWarning = true)
    (hrate : x.rate = none) (herror : x ≠ .noDataReceived) (hreceived : ∀ time, x ≠ .received time)
    (hJ : ∀ h, x.Justified h) :
    Triple Event.Justified (Setup w) (warn given x) fun _ => Setup (w + 1) := by
  refine .ite (fun _ => ?_) fun _ => .pure fun h s S => ⟨S.toBefore, S.warned.trans (Nat.le_succ w)⟩
  refine .bind (Q := fun _ h s => ∀ h', h' = h ++ [x] → Setup (w + 1) h' s) (.modify ?_) fun _ =>
    .emit fun h s hs => ⟨hJ h, hs _ rfl⟩
  rintro h s S h' rfl
  have hcount : (h ++ [x]).countP Event.isWarning = h.countP Event.isWarning + 1 := by simp [hx]
  have hwarned := S.warned
  have hwarnings : (s.warnings + 1).toNat = (h ++ [x]).countP Event.isWarning := by
    rw [hcount, BitVec.toNat_add, S.warnings]
    simp
    omega
  refine ⟨⟨⟨hwarnings, ?_⟩, S.index, ?_, ?_, ?_, S.cells, S.empty, S.none, ?_⟩, ?_⟩
  · simpa [herror] using S.errors
  · rw [tried_concat hrate, S.tried]
  · omega
  · simpa [herror] using S.errors_le
  · rw [neverAtZero_concat (hreceived 0), heard_concat hreceived]
    exact S.quiet
  · omega

theorem triple_setup (noFields noMessages : Bool) (begun : BitVec 32) :
    Triple Event.Justified (Setup 0) (setup noFields noMessages begun) fun _ => Ok := by
  refine .bind (triple_warn (by omega) _ rfl rfl (by simp) (by simp) fun _ => trivial) fun _ =>
    .bind (triple_warn (by omega) _ rfl rfl (by simp) (by simp) fun _ => trivial) fun _ => ?_
  exact .weaken (triple_tryBaud (k := 0)) (fun h s S => S.toBefore) fun _ _ _ K => K.1

theorem triple_run (noFields noMessages : Bool) (begun : BitVec 32) (ps : List Pass) :
    Triple Event.Justified (Setup 0) (run noFields noMessages begun ps) fun _ => Ok :=
  .bind (triple_setup noFields noMessages begun) fun _ => .forEach fun p _ => triple_GPSloop p

theorem setup_boot : Setup 0 [] State.boot where
  warnings := rfl
  errors := rfl
  index := rfl
  tried := rfl
  warnings_le := by simp
  errors_le := by simp
  cells := by simp [State.boot]
  empty := rfl
  none := rfl
  quiet := by simp [Heard]
  warned := by simp

end Functions

/-! ### Every run -/

/-- What is known of the events of a run: each is justified by those before it, the rates were tried
in order, and after a sentence the port stays as it is, if no sentence has ended at zero. -/
structure Sound (h : List Event) : Prop where
  justified : ∀ pre x post, h = pre ++ x :: post → x.Justified pre
  inOrder : tried h <+: rates
  stays : NeverAtZero h → ∀ pre time post, h = pre ++ .received time :: post →
    tried post = [] ∧ .allBaudRatesTried ∉ post

/-- Justified events are sound as a whole. -/
theorem sound_of_justified {h : List Event} (H : Program.Justified Event.Justified h) :
    Sound h := by
  refine ⟨H, ?_, ?_⟩
  · induction h using List.reverseRecOn with
    | nil => exact List.nil_prefix
    | append_singleton h x ih =>
        obtain ⟨hjustified, hx⟩ := H.of_concat
        cases hrate : x.rate with
        | none =>
            rw [tried_concat hrate]
            exact ih hjustified
        | some baud =>
            obtain rfl : x = .checking baud := by
              cases x <;> simp_all [Event.rate]
            rw [tried_checking]
            exact hx.1
  · rintro hnever pre time post rfl
    have hpost : ∀ x ∈ post, (∀ h, x.Justified h → NeverAtZero h → ¬ Heard h) → False := by
      intro x hx hquiet
      obtain ⟨p, q, rfl⟩ := List.append_of_mem hx
      have hJ := H (pre ++ .received time :: p) x q (by simp)
      refine hquiet _ hJ ?_ ⟨time, by simp⟩
      intro hmem
      have hmem' := List.mem_append_left (x :: q) hmem
      rw [List.append_assoc] at hmem'
      exact hnever hmem'
    constructor
    · rw [tried, List.filterMap_eq_nil_iff]
      intro x hx
      cases x with
      | checking baud => exact (hpost _ hx fun h hJ => hJ.2).elim
      | _ => rfl
    · exact fun hx => hpost _ hx fun h hJ => hJ.2

/-- **Every run of the sketch is sound**, and defined: whatever characters arrive and when, whatever
the decoder makes of them, and however the clock goes. -/
theorem diagnosis_sound (noFields noMessages : Bool) (begun : BitVec 32) (ps : List Pass) :
    ∃ h r, run noFields noMessages begun ps State.boot = some (h, r) ∧ Sound h := by
  obtain ⟨h, r, hrun, H, -⟩ :=
    triple_run noFields noMessages begun ps [] State.boot justified_nil setup_boot
  exact ⟨h, r, hrun, sound_of_justified H⟩

end LoRaGPS.Diagnostic
