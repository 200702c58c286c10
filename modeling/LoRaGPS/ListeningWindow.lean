/-
**The listening window that is always open.**

The loop of `Node0_rcvrTry3.0.ino` opens a window of ten seconds, listens for a packet while it is
open, and listens once more at the end of every pass.  The window is closed by the first pass that
comes ten seconds after it was opened, and by then ten seconds have also passed for the test that
opens it: the next pass opens it again.  So from ten seconds after boot on, every pass listens
twice, and before that, once.

Main definitions:

* `LoRaGPS.TextNode.loop` — one pass of the loop, with what it sends and prints;
* `LoRaGPS.TextNode.run` — the passes since boot;
* `LoRaGPS.TextNode.Windows` — when the windows are open.

Main results:

* `LoRaGPS.TextNode.loop_spec` — what one pass does, by its two timers;
* `LoRaGPS.TextNode.listening_windows` — **the windows of every run**, however often the clock wraps.
-/

import LoRaGPS.Schedule
import LoRaGPS.TextMessage

set_option relaxedAutoImplicit false
set_option autoImplicit false

namespace LoRaGPS.TextNode

open Bytes WrappingClock

/-! ### The code -/

/-- `debugInterval`, as an `unsigned long`. -/
def debugInterval : BitVec 32 := 5000

/-- `listenInterval`, as an `unsigned long`. -/
def listenInterval : BitVec 32 := 10000

@[simp] theorem toNat_debugInterval : debugInterval.toNat = 5000 := rfl

@[simp] theorem toNat_listenInterval : listenInterval.toNat = 10000 := rfl

/-- What `gps` shows once a byte was encoded. -/
structure Reading where
  latitude : BitVec 32
  longitude : BitVec 32
  hour : BitVec 32
  minute : BitVec 32
  second : BitVec 32
deriving DecidableEq, Repr

/-- What `loop` prints: `position` is the position and the time, `added` the line of
`addToManifest`. -/
inductive Line
  | enteringLoop
  | listeningFor10Seconds
  | listeningForOthers
  | nothingHeard
  | added (args : Arguments)
  | finishedListening
  | position (r : Reading)
  | locationSent
deriving DecidableEq, Repr

/-- The globals that `loop` works on. -/
structure Node extends Listener where
  previousMillis : BitVec 32
  listening : Bool
  listenStartMillis : BitVec 32
deriving DecidableEq, Repr

/-- The globals at boot. -/
def boot : Node where
  manifest := List.replicate 50 ⟨0, 0, 0, 0, 0⟩
  nodeCount := 0
  previousMillis := 0
  listening := false
  listenStartMillis := 0

/-- A packet that waits in the radio, and what the local variables of the call of `listenForNodes`
hold that receives it. -/
structure Packet where
  buf : LocalBuffer
  unset : Arguments
  frame : List (BitVec 8)

/-- What one pass meets: the packets at its two calls of `listenForNodes`, and what `gps` shows
after each byte of `Serial1`. -/
structure Arrivals where
  inWindow : Option Packet
  readings : List Reading
  atEnd : Option Packet

/-- What one pass leaves. -/
structure LoopOut where
  node : Node
  lines : List Line
  sent : List (List (BitVec 8))

section Code

-- `print` is `String(float)`, and `toFloat` the value of a number read by `%f`
variable (R : Radios) (print : BitVec 32 → TwoDecimals) (toFloat : List Char → BitVec 32)

/-- `listenForNodes`, also where there is no packet, with what it prints. -/
def listen (s : Listener) : Option Packet → Option (Listener × List Line)
  | none => some (s, [.listeningForOthers, .nothingHeard])
  | some p => do
      match ← heard R toFloat p.unset p.buf p.frame with
      | none => some (s, [.listeningForOthers])
      | some args => do
          let s ← addToManifest s args
          some (s, [.listeningForOthers, .added args])

/-- The debug message every five seconds. -/
def debugMessage (currentMillis : BitVec 32) (n : Node) : Node × List Line :=
  if currentMillis - n.previousMillis ≥ debugInterval then
    ({ n with previousMillis := currentMillis }, [.enteringLoop])
  else (n, [])

/-- `// Start listening for nodes for 10 seconds` -/
def startListening (currentMillis : BitVec 32) (n : Node) : Node × List Line :=
  if !n.listening && currentMillis - n.listenStartMillis ≥ listenInterval then
    ({ n with listening := true, listenStartMillis := currentMillis }, [.listeningFor10Seconds])
  else (n, [])

/-- `if (listening) { .. }` -/
def listenInWindow (currentMillis : BitVec 32) (inWindow : Option Packet) (n : Node) :
    Option (Node × List Line) :=
  if n.listening then do
    let (s, lines) ← listen R toFloat n.toListener inWindow
    if currentMillis - n.listenStartMillis ≥ listenInterval then
      some ({ n with toListener := s, listening := false }, lines ++ [.finishedListening])
    else some ({ n with toListener := s }, lines)
  else some (n, [])

/-- One call of `sendLocation`. -/
def Reading.packet (nodeUID : BitVec 32) (r : Reading) : List (BitVec 8) :=
  sendLocation R print nodeUID r.latitude r.longitude r.hour r.minute r.second

/-- What is printed for one byte of `Serial1`. -/
def Reading.lines (r : Reading) : List Line := [.position r, .locationSent]

/-- One pass of `loop`. -/
def loop (nodeUID : BitVec 32) (n : Node) (currentMillis : BitVec 32) (e : Arrivals) :
    Option LoopOut := do
  let (n, debug) := debugMessage currentMillis n
  let (n, start) := startListening currentMillis n
  let (n, window) ← listenInWindow R toFloat currentMillis e.inWindow n
  let (s, atEnd) ← listen R toFloat n.toListener e.atEnd
  some
    { node := { n with toListener := s }
      lines := debug ++ start ++ window ++ e.readings.flatMap Reading.lines ++ atEnd
      sent := e.readings.map (Reading.packet R print nodeUID) }

/-- The node after some passes, with what each of them has printed and when. -/
abbrev History := List (ℕ × List Line)

/-- One more pass, at a time in milliseconds since boot. -/
def next (nodeUID : BitVec 32) (st : Node × History) (e : ℕ × Arrivals) : Option (Node × History) :=
  (loop R print toFloat nodeUID st.1 (shown 32 e.1) e.2).map fun out =>
    (out.node, st.2 ++ [(e.1, out.lines)])

/-- The passes since boot. -/
def run (nodeUID : BitVec 32) (es : List (ℕ × Arrivals)) : Option (Node × History) :=
  es.foldlM (next R print toFloat nodeUID) (boot, [])

/-- Every number that `sscanf` reads of the packet fits its type.  What it leaves of one that does
not is undefined. -/
def Packet.Readable (q : Packet) : Prop := heard R toFloat q.unset q.buf q.frame ≠ none

/-- The packets that a pass may receive are readable. -/
structure Arrivals.Readable (e : Arrivals) : Prop where
  inWindow : ∀ q ∈ e.inWindow, q.Readable R toFloat
  atEnd : ∀ q ∈ e.atEnd, q.Readable R toFloat

end Code

/-! ### The property -/

/-- The time of the last pass. -/
def lastTime (ts : List ℕ) : ℕ := ts.getLast?.getD 0

/-- The times of passes that come less than `2 ^ 31 - 5000` milliseconds after each other, which is
about 24 days, with boot for the first one. -/
inductive InStep : List ℕ → Prop
  | boot : InStep []
  | next {ts : List ℕ} {t : ℕ} (h : InStep ts) (later : lastTime ts ≤ t)
      (soon : t < lastTime ts + (2 ^ 31 - 5000)) : InStep (ts ++ [t])

/-- The time at which a line was printed last, with boot for none. -/
def lastPrinted (l : Line) (h : History) : ℕ := h.foldl (fun t x => if l ∈ x.2 then x.1 else t) 0

/-- The windows: a pass opens one if ten seconds have passed since boot and the pass before it has
not left one open, and closes it if ten seconds have passed since it was opened, and it has not just
been.  A pass listens twice from ten seconds after boot on, and once before.  The debug message
comes with the first pass five seconds after the last one. -/
structure Windows (h : History) : Prop where
  opens : ∀ pre x post, h = pre ++ x :: post →
    (.listeningFor10Seconds ∈ x.2 ↔
      10000 ≤ x.1 ∧ ∀ y ∈ pre.getLast?, 10000 ≤ y.1 → .finishedListening ∈ y.2)
  closes : ∀ pre x post, h = pre ++ x :: post →
    (.finishedListening ∈ x.2 ↔ lastPrinted .listeningFor10Seconds pre + 10000 ≤ x.1 ∧
      .listeningFor10Seconds ∉ x.2)
  listens : ∀ x ∈ h, x.2.count .listeningForOthers = if 10000 ≤ x.1 then 2 else 1
  debug : ∀ pre x post, h = pre ++ x :: post →
    (.enteringLoop ∈ x.2 ↔ lastPrinted .enteringLoop pre + 5000 ≤ x.1)

/-! ### One pass -/

section Pass

variable {R : Radios} {print : BitVec 32 → TwoDecimals} {toFloat : List Char → BitVec 32}
  {nodeUID : BitVec 32} {n : Node} {t : ℕ}

/-- What is sent is readable if no digits follow it in the buffer. -/
theorem readable_packet (r : Reading) {q : Packet} (hq : q.frame = r.packet R print nodeUID)
    (hdigits : q.buf.digitsFrom (message print nodeUID r.latitude r.longitude r.hour r.minute
      r.second).length = []) : q.Readable R toFloat := by
  have hsecond : Scanf.int (Decimal.continued r.second.toInt []) = some r.second :=
    Scanf.int_eq_some_iff.2 ((Decimal.continued_eq_iff _ (by simp)).2 (Or.inl rfl))
  rw [Packet.Readable, hq, Reading.packet, heard_sendLocation, hdigits, hsecond]
  simp

/-- `addToManifest` stays inside the manifest. -/
theorem addToManifest_total {s : Listener} (hcells : s.manifest.length = 50) (args : Arguments) :
    ∃ s', addToManifest s args = some s' ∧ s'.manifest.length = 50 := by
  rcases Nat.lt_or_ge s.nodeCount 50 with hroom | hfull
  · exact ⟨_, addToManifest_of_lt hcells hroom args, by rw [List.length_set, hcells]⟩
  · refine ⟨_, addToManifest_of_full hcells hfull args, ?_⟩
    rw [List.length_append, List.length_tail, hcells]
    rfl

/-- A call of `listenForNodes` goes through, whatever readable packet it receives. -/
theorem listen_total {s : Listener} (hcells : s.manifest.length = 50) {p : Option Packet}
    (hp : ∀ q ∈ p, q.Readable R toFloat) :
    ∃ s' lines, listen R toFloat s p = some (s', lines) ∧ s'.manifest.length = 50 := by
  cases p with
  | none => exact ⟨s, _, rfl, hcells⟩
  | some q =>
      obtain ⟨call, hcall⟩ := Option.ne_none_iff_exists'.1 (hp q rfl)
      cases call with
      | none => exact ⟨s, _, by rw [listen, hcall]; rfl, hcells⟩
      | some args =>
          obtain ⟨s', hadd, hcells'⟩ := addToManifest_total hcells args
          refine ⟨s', [.listeningForOthers, .added args], ?_, hcells'⟩
          rw [listen, hcall]
          simp only [Option.bind_eq_bind, Option.bind_some, hadd]

/-- What a call of `listenForNodes` does. -/
theorem listen_cases {s s' : Listener} {p : Option Packet} {lines : List Line}
    (h : listen R toFloat s p = some (s', lines)) :
    (s' = s ∧ (lines = [.listeningForOthers, .nothingHeard] ∨ lines = [.listeningForOthers])) ∨
      ∃ q args, p = some q ∧ heard R toFloat q.unset q.buf q.frame = some (some args) ∧
        addToManifest s args = some s' ∧ lines = [.listeningForOthers, .added args] := by
  cases p with
  | none =>
      cases h
      exact Or.inl ⟨rfl, Or.inl rfl⟩
  | some q =>
      obtain ⟨call, hcall, h⟩ := Option.bind_eq_some_iff.1 h
      cases call with
      | none =>
          cases h
          exact Or.inl ⟨rfl, Or.inr rfl⟩
      | some args =>
          obtain ⟨s'', hadd, h⟩ := Option.bind_eq_some_iff.1 h
          cases h
          exact Or.inr ⟨q, args, rfl, hcall, hadd, rfl⟩

/-- Every call prints that it listens, and none of the lines of the timers. -/
theorem listen_lines {s s' : Listener} {p : Option Packet} {lines : List Line}
    (h : listen R toFloat s p = some (s', lines)) :
    lines.count .listeningForOthers = 1 ∧ .enteringLoop ∉ lines ∧
      .listeningFor10Seconds ∉ lines ∧ .finishedListening ∉ lines := by
  rcases listen_cases h with ⟨-, rfl | rfl⟩ | ⟨-, args, -, -, -, rfl⟩ <;> simp

/-- The bytes of `Serial1` print positions only. -/
theorem not_mem_readings {l : Line} (hposition : ∀ r, l ≠ .position r) (hsent : l ≠ .locationSent)
    (rs : List Reading) : l ∉ rs.flatMap Reading.lines := by
  intro h
  obtain ⟨r, -, hl⟩ := List.mem_flatMap.1 h
  rcases List.mem_cons.1 hl with rfl | hl
  · exact hposition r rfl
  · exact hsent (List.mem_singleton.1 hl)

/-- What one pass does about the window, with the listening in it. -/
inductive InWindow (R : Radios) (toFloat : List Char → BitVec 32) (t : ℕ) (p : Option Packet)
    (n : Node) : Node → List Line → Prop
  | closed (hn : n.listening = false) (hdue : ¬ Due listenInterval n.listenStartMillis t) :
      InWindow R toFloat t p n n []
  | opened (hn : n.listening = false) (hdue : Due listenInterval n.listenStartMillis t) {s : Listener}
      {lines : List Line} (h : listen R toFloat n.toListener p = some (s, lines)) :
      InWindow R toFloat t p n
        { n with toListener := s, listening := true, listenStartMillis := shown 32 t }
        (.listeningFor10Seconds :: lines)
  | goesOn (hn : n.listening = true) (hdue : ¬ Due listenInterval n.listenStartMillis t) {s : Listener}
      {lines : List Line} (h : listen R toFloat n.toListener p = some (s, lines)) :
      InWindow R toFloat t p n { n with toListener := s } lines
  | finished (hn : n.listening = true) (hdue : Due listenInterval n.listenStartMillis t) {s : Listener}
      {lines : List Line} (h : listen R toFloat n.toListener p = some (s, lines)) :
      InWindow R toFloat t p n { n with toListener := s, listening := false }
        (lines ++ [.finishedListening])

/-- A window opens if none is open and its timer is due. -/
theorem startListening_spec (n : Node) (t : ℕ) :
    startListening (shown 32 t) n =
      if n.listening = false ∧ Due listenInterval n.listenStartMillis t then
        ({ n with listening := true, listenStartMillis := shown 32 t }, [.listeningFor10Seconds])
      else (n, []) := by
  have hdue : shown 32 t - n.listenStartMillis ≥ listenInterval ↔
      Due listenInterval n.listenStartMillis t := Iff.rfl
  simp only [startListening, hdue, Bool.and_eq_true, Bool.not_eq_true', decide_eq_true_iff]

/-- In an open window there is a call of `listenForNodes`. -/
theorem listenInWindow_of_listening {p : Option Packet} {n' : Node} {window : List Line}
    (hn : n.listening = true)
    (h : listenInWindow R toFloat (shown 32 t) p n = some (n', window)) :
    ∃ s lines, listen R toFloat n.toListener p = some (s, lines) ∧
      (if Due listenInterval n.listenStartMillis t then
        ({ n with toListener := s, listening := false }, lines ++ [.finishedListening])
      else ({ n with toListener := s }, lines)) = (n', window) := by
  have hdue : shown 32 t - n.listenStartMillis ≥ listenInterval ↔
      Due listenInterval n.listenStartMillis t := Iff.rfl
  rw [listenInWindow, if_pos hn] at h
  obtain ⟨⟨s, lines⟩, hlisten, h⟩ := Option.bind_eq_some_iff.1 h
  refine ⟨s, lines, hlisten, Option.some_inj.1 ?_⟩
  rw [← h, apply_ite some]
  simp only [hdue]

theorem listenInWindow_spec {p : Option Packet} {n' : Node} {window : List Line}
    (h : listenInWindow R toFloat (shown 32 t) p (startListening (shown 32 t) n).1 =
      some (n', window)) :
    InWindow R toFloat t p n n' ((startListening (shown 32 t) n).2 ++ window) := by
  rw [startListening_spec] at h ⊢
  cases hn : n.listening with
  | false =>
      by_cases hdue : Due listenInterval n.listenStartMillis t
      · -- the window that has just been opened is not closed
        rw [if_pos ⟨hn, hdue⟩] at h
        obtain ⟨s, lines, hlisten, h⟩ := listenInWindow_of_listening rfl h
        have hself : ¬ Due listenInterval (shown 32 t) t := fun H =>
          absurd (H.elapsed le_rfl) (by simp)
        rw [if_neg hself] at h
        cases h
        rw [if_pos ⟨rfl, hdue⟩]
        exact .opened hn hdue hlisten
      · rw [if_neg fun H => hdue H.2, listenInWindow, hn, if_neg Bool.false_ne_true] at h
        cases h
        rw [if_neg fun H => hdue H.2]
        exact .closed hn hdue
  | true =>
      have hstart : ¬ (n.listening = false ∧ Due listenInterval n.listenStartMillis t) := by simp [hn]
      rw [if_neg hstart] at h
      rw [if_neg (by simp)]
      obtain ⟨s, lines, hlisten, h⟩ := listenInWindow_of_listening hn h
      by_cases hdue : Due listenInterval n.listenStartMillis t
      · rw [if_pos hdue] at h
        cases h
        exact .finished hn hdue hlisten
      · rw [if_neg hdue] at h
        cases h
        exact .goesOn hn hdue hlisten

/-- What the window does to its timer. -/
theorem InWindow.node {p : Option Packet} {n' : Node} {window : List Line}
    (h : InWindow R toFloat t p n n' window) :
    n'.previousMillis = n.previousMillis ∧
      n'.listening = (n.listening ^^ decide (Due listenInterval n.listenStartMillis t)) ∧
      n'.listenStartMillis = if n.listening = false ∧ Due listenInterval n.listenStartMillis t
        then shown 32 t else n.listenStartMillis := by
  cases h <;> simp [*]

/-- What is printed of the window, and how often the node listens in it. -/
theorem InWindow.lines {p : Option Packet} {n' : Node} {window : List Line}
    (h : InWindow R toFloat t p n n' window) :
    .enteringLoop ∉ window ∧
      (.listeningFor10Seconds ∈ window ↔
        n.listening = false ∧ Due listenInterval n.listenStartMillis t) ∧
      (.finishedListening ∈ window ↔ n.listening = true ∧ Due listenInterval n.listenStartMillis t) ∧
      window.count .listeningForOthers =
        if n.listening = true ∨ Due listenInterval n.listenStartMillis t then 1 else 0 := by
  cases h with
  | closed hn hdue => simp [hn, hdue]
  | opened hn hdue hlisten =>
      obtain ⟨hcount, henter, hopen, hfinish⟩ := listen_lines hlisten
      simp [hn, hdue, hcount, henter, hfinish]
  | goesOn hn hdue hlisten =>
      obtain ⟨hcount, henter, hopen, hfinish⟩ := listen_lines hlisten
      simp [hn, hdue, hcount, henter, hopen, hfinish]
  | finished hn hdue hlisten =>
      obtain ⟨hcount, henter, hopen, hfinish⟩ := listen_lines hlisten
      simp [hn, hdue, hcount, henter, hopen]

/-- The window goes through. -/
theorem listenInWindow_total {n : Node} (hcells : n.manifest.length = 50) {p : Option Packet}
    (hp : ∀ q ∈ p, q.Readable R toFloat) (currentMillis : BitVec 32) :
    ∃ n' lines, listenInWindow R toFloat currentMillis p n = some (n', lines) ∧
      n'.manifest.length = 50 := by
  rw [listenInWindow]
  split
  · obtain ⟨s, lines, hlisten, hcells'⟩ := listen_total hcells hp
    rw [hlisten, Option.bind_eq_bind, Option.bind_some]
    dsimp only
    split
    · exact ⟨_, _, rfl, hcells'⟩
    · exact ⟨_, _, rfl, hcells'⟩
  · exact ⟨n, [], rfl, hcells⟩

/-- The debug message works on its own timer. -/
theorem debugMessage_spec (n : Node) (t : ℕ) :
    debugMessage (shown 32 t) n =
      ({ n with previousMillis :=
          if Due debugInterval n.previousMillis t then shown 32 t else n.previousMillis },
        if Due debugInterval n.previousMillis t then [.enteringLoop] else []) := by
  have hdue : shown 32 t - n.previousMillis ≥ debugInterval ↔
      Due debugInterval n.previousMillis t := Iff.rfl
  simp only [debugMessage, hdue]
  split <;> rfl

/-- A pass, step by step. -/
theorem loop_eq (n : Node) (currentMillis : BitVec 32) (e : Arrivals) :
    loop R print toFloat nodeUID n currentMillis e =
      (listenInWindow R toFloat currentMillis e.inWindow
        (startListening currentMillis (debugMessage currentMillis n).1).1).bind fun w =>
          (listen R toFloat w.1.toListener e.atEnd).bind fun r =>
            some ⟨{ w.1 with toListener := r.1 },
              (debugMessage currentMillis n).2 ++
                (startListening currentMillis (debugMessage currentMillis n).1).2 ++ w.2 ++
                e.readings.flatMap Reading.lines ++ r.2,
              e.readings.map (Reading.packet R print nodeUID)⟩ := rfl

variable (print nodeUID) in
/-- **A pass goes through**, whatever readable packets it receives. -/
theorem loop_total (hcells : n.manifest.length = 50) (currentMillis : BitVec 32) {e : Arrivals}
    (he : e.Readable R toFloat) :
    ∃ out, loop R print toFloat nodeUID n currentMillis e = some out ∧
      out.node.manifest.length = 50 := by
  have hmanifest : (startListening currentMillis (debugMessage currentMillis n).1).1.manifest =
      n.manifest := by
    rw [startListening, debugMessage]
    split_ifs <;> rfl
  obtain ⟨n', window, hwindow, hcells'⟩ :=
    listenInWindow_total (by rw [hmanifest, hcells]) he.inWindow currentMillis
  obtain ⟨s, lines, hend, hcells''⟩ := listen_total hcells' he.atEnd
  rw [loop_eq, hwindow, Option.bind_some, hend, Option.bind_some]
  exact ⟨_, rfl, hcells''⟩

/-- One pass is the debug message, the window, the GPS, and the listening at its end. -/
theorem loop_cases {e : Arrivals} {out : LoopOut}
    (h : loop R print toFloat nodeUID n (shown 32 t) e = some out) :
    ∃ n' window s atEnd,
      InWindow R toFloat t e.inWindow (debugMessage (shown 32 t) n).1 n' window ∧
      listen R toFloat n'.toListener e.atEnd = some (s, atEnd) ∧
      out = ⟨{ n' with toListener := s },
        (debugMessage (shown 32 t) n).2 ++ window ++ e.readings.flatMap Reading.lines ++ atEnd,
        e.readings.map (Reading.packet R print nodeUID)⟩ := by
  rw [loop_eq] at h
  obtain ⟨⟨n', window⟩, hwindow, h⟩ := Option.bind_eq_some_iff.1 h
  obtain ⟨⟨s, atEnd⟩, hend, h⟩ := Option.bind_eq_some_iff.1 h
  refine ⟨n', _, s, atEnd, listenInWindow_spec hwindow, hend, ?_⟩
  rw [← Option.some_inj.1 h, ← List.append_assoc]

/-- What one pass does, by its two timers.  The second one opens a window and closes it. -/
structure Pass (n : Node) (t : ℕ) (out : LoopOut) : Prop where
  previousMillis : out.node.previousMillis =
    if Due debugInterval n.previousMillis t then shown 32 t else n.previousMillis
  listening : out.node.listening = (n.listening ^^ decide (Due listenInterval n.listenStartMillis t))
  listenStartMillis : out.node.listenStartMillis =
    if n.listening = false ∧ Due listenInterval n.listenStartMillis t then shown 32 t
    else n.listenStartMillis
  debug : .enteringLoop ∈ out.lines ↔ Due debugInterval n.previousMillis t
  opens : .listeningFor10Seconds ∈ out.lines ↔
    n.listening = false ∧ Due listenInterval n.listenStartMillis t
  closes : .finishedListening ∈ out.lines ↔
    n.listening = true ∧ Due listenInterval n.listenStartMillis t
  listens : out.lines.count .listeningForOthers =
    if n.listening = true ∨ Due listenInterval n.listenStartMillis t then 2 else 1

theorem loop_spec {e : Arrivals} {out : LoopOut}
    (h : loop R print toFloat nodeUID n (shown 32 t) e = some out) : Pass n t out := by
  obtain ⟨n', window, s, atEnd, hwindow, hend, rfl⟩ := loop_cases h
  rw [debugMessage_spec] at hwindow ⊢
  dsimp only at hwindow
  obtain ⟨hprevious, hlistening, hstart⟩ := hwindow.node
  obtain ⟨henter', hopen', hfinish', hcount'⟩ := hwindow.lines
  obtain ⟨hcount, henter, hopen, hfinish⟩ := listen_lines hend
  have hreadings : (e.readings.flatMap Reading.lines).count .listeningForOthers = 0 :=
    List.count_eq_zero.2 (not_mem_readings (by simp) (by simp) e.readings)
  constructor
  · exact hprevious
  · exact hlistening
  · exact hstart
  · simp [henter, henter', Reading.lines]
  · simp [hopen, hopen', Reading.lines]
  · simp [hfinish, hfinish', Reading.lines]
  · have hmessage : (if Due debugInterval n.previousMillis t then [Line.enteringLoop] else []).count
        .listeningForOthers = 0 := by split <;> rfl
    simp only [List.count_append, hmessage, hcount', hreadings, hcount]
    split <;> rfl

end Pass

/-! ### Every run -/

section Run

variable {R : Radios} {print : BitVec 32 → TwoDecimals} {toFloat : List Char → BitVec 32}
  {nodeUID : BitVec 32} {n : Node} {h : History} {t : ℕ}

@[simp] theorem lastTime_append (ts : List ℕ) (t : ℕ) : lastTime (ts ++ [t]) = t := by
  simp [lastTime]

theorem lastPrinted_append (l : Line) (h : History) (x : ℕ × List Line) :
    lastPrinted l (h ++ [x]) = if l ∈ x.2 then x.1 else lastPrinted l h := by
  rw [lastPrinted, List.foldl_append]
  rfl

/-- The node after some passes, the last one at the time `T` and the last window opened at the time
`opened`: the window is open for less than ten seconds, or it was closed in time. -/
structure Kept (h : History) (n : Node) (T opened : ℕ) : Prop where
  time : lastTime (h.map Prod.fst) = T
  last : lastPrinted .listeningFor10Seconds h = opened
  debug : Armed debugInterval n.previousMillis (lastPrinted .enteringLoop h) T
  debug_le : lastPrinted .enteringLoop h ≤ T
  stored : n.listenStartMillis = shown 32 opened
  opened_le : opened ≤ T
  isOpen : n.listening = true → 10000 ≤ T ∧ T < opened + 10000
  isClosed : n.listening = false →
    (T < 10000 ∧ opened = 0) ∨ opened + 10000 ≤ T ∧ T < opened + 10000 + (2 ^ 31 - 5000)
  finished : ∀ y ∈ h.getLast?, y.1 = T ∧
    (10000 ≤ T → (.finishedListening ∈ y.2 ↔ n.listening = false))

theorem kept_boot : Kept [] boot 0 0 where
  time := rfl
  last := rfl
  debug := ⟨rfl, by simp⟩
  debug_le := le_rfl
  stored := rfl
  opened_le := le_rfl
  isOpen := by simp [boot]
  isClosed := fun _ => Or.inl ⟨by simp, rfl⟩
  finished := by simp

variable {T opened : ℕ}

/-- The timer of the window is exact. -/
theorem Kept.due_iff (K : Kept h n T opened) (later : T ≤ t) (soon : t < T + (2 ^ 31 - 5000)) :
    Due listenInterval n.listenStartMillis t ↔ opened + 10000 ≤ t := by
  have hle := K.opened_le
  have hlt : t < opened + 2 ^ 32 := by
    cases hn : n.listening with
    | true =>
        have := (K.isOpen hn).2
        omega
    | false =>
        rcases K.isClosed hn with h | h <;> omega
  rw [K.stored, WrappingClock.due_iff (hle.trans later) hlt, toNat_listenInterval]

/-- The window is open or opened by a pass exactly from ten seconds after boot on. -/
theorem Kept.open_iff (K : Kept h n T opened) (later : T ≤ t) (soon : t < T + (2 ^ 31 - 5000)) :
    n.listening = true ∨ opened + 10000 ≤ t ↔ 10000 ≤ t := by
  have hle := K.opened_le
  constructor
  · rintro (hn | hdue)
    · exact (K.isOpen hn).1.trans later
    · omega
  · intro ht
    cases hn : n.listening with
    | true => exact Or.inl rfl
    | false =>
        refine Or.inr ?_
        rcases K.isClosed hn with h | h <;> omega

/-- The timer of the debug message is exact. -/
theorem Kept.debug_iff (K : Kept h n T opened) (later : T ≤ t) (soon : t < T + (2 ^ 31 - 5000)) :
    Due debugInterval n.previousMillis t ↔ lastPrinted .enteringLoop h + 5000 ≤ t := by
  have hmessage := K.debug_le
  refine K.debug.due_iff (by omega) ?_
  rw [toNat_debugInterval]
  omega

section NextPass

variable {out : LoopOut}

theorem Kept.listening_next (K : Kept h n T opened) (later : T ≤ t)
    (soon : t < T + (2 ^ 31 - 5000)) (P : Pass n t out) :
    out.node.listening = (n.listening ^^ decide (opened + 10000 ≤ t)) := by
  rw [P.listening]
  simp only [K.due_iff later soon]

/-- A window that is open after the pass was opened less than ten seconds ago. -/
theorem Kept.isOpen_next (K : Kept h n T opened) (later : T ≤ t) (soon : t < T + (2 ^ 31 - 5000))
    (P : Pass n t out) (hout : out.node.listening = true) :
    10000 ≤ t ∧ t < (if n.listening = false ∧ opened + 10000 ≤ t then t else opened) + 10000 := by
  rw [K.listening_next later soon P] at hout
  cases hn : n.listening with
  | true =>
      have := K.isOpen hn
      have hnot : ¬ opened + 10000 ≤ t := by simpa [hn] using hout
      rw [if_neg (by simp)]
      omega
  | false =>
      have hdue : opened + 10000 ≤ t := by simpa [hn] using hout
      rw [if_pos ⟨rfl, hdue⟩]
      omega

/-- If no window is open after the pass, none was opened so far or the last one is over. -/
theorem Kept.isClosed_next (K : Kept h n T opened) (later : T ≤ t)
    (soon : t < T + (2 ^ 31 - 5000)) (P : Pass n t out) (hout : out.node.listening = false) :
    (t < 10000 ∧ (if n.listening = false ∧ opened + 10000 ≤ t then t else opened) = 0) ∨
      (if n.listening = false ∧ opened + 10000 ≤ t then t else opened) + 10000 ≤ t ∧
        t < (if n.listening = false ∧ opened + 10000 ≤ t then t else opened) + 10000 +
          (2 ^ 31 - 5000) := by
  rw [K.listening_next later soon P] at hout
  cases hn : n.listening with
  | true =>
      have := K.isOpen hn
      have hdue : opened + 10000 ≤ t := by simpa [hn] using hout
      rw [if_neg (by simp)]
      omega
  | false =>
      have hnot : ¬ opened + 10000 ≤ t := by simpa [hn] using hout
      rw [if_neg fun h => hnot h.2]
      rcases K.isClosed hn with h | h <;> omega

/-- From ten seconds after boot on, a pass leaves no window open exactly if it closes one. -/
theorem Kept.finished_next (K : Kept h n T opened) (later : T ≤ t)
    (soon : t < T + (2 ^ 31 - 5000)) (P : Pass n t out) (ht : 10000 ≤ t) :
    .finishedListening ∈ out.lines ↔ out.node.listening = false := by
  have hor := (K.open_iff later soon).2 ht
  rw [P.closes, K.due_iff later soon, K.listening_next later soon P]
  cases hn : n.listening with
  | true => simp
  | false =>
      rw [hn] at hor
      simp [hor.resolve_left Bool.false_ne_true]

/-- **One more pass keeps the timers.** -/
theorem Kept.next (K : Kept h n T opened) (later : T ≤ t) (soon : t < T + (2 ^ 31 - 5000))
    (P : Pass n t out) :
    Kept (h ++ [(t, out.lines)]) out.node t
      (if n.listening = false ∧ opened + 10000 ≤ t then t else opened) := by
  have hle := K.opened_le
  have hdue := K.due_iff later soon
  constructor
  · simp
  · rw [lastPrinted_append, K.last]
    simp only [P.opens, hdue]
  · rw [P.previousMillis, lastPrinted_append]
    simp only [P.debug, K.debug_iff later soon]
    split
    · exact Armed.fired (by simp) le_rfl
    · rename_i hnot
      exact K.debug.not_fired (by rwa [toNat_debugInterval])
  · rw [lastPrinted_append]
    have hmessage := K.debug_le
    split <;> omega
  · rw [P.listenStartMillis, K.stored]
    simp only [← hdue, K.stored]
    split <;> rfl
  · split <;> omega
  · exact K.isOpen_next later soon P
  · exact K.isClosed_next later soon P
  · intro y hy
    rw [List.getLast?_concat, Option.mem_some_iff] at hy
    obtain rfl := hy
    exact ⟨rfl, K.finished_next later soon P⟩

end NextPass

/-- A pass that did not come at boot is one of the history. -/
theorem Kept.exists_last (K : Kept h n T opened) (hT : 0 < T) : ∃ y, y ∈ h.getLast? := by
  cases hlast : h.getLast? with
  | some y => exact ⟨y, rfl⟩
  | none =>
      have htime := K.time
      rw [List.getLast?_eq_none_iff.1 hlast] at htime
      exact absurd htime (Nat.ne_of_lt hT)

/-- The windows of a history that has grown by one. -/
theorem Kept.windows (K : Kept h n T opened) (W : Windows h) (later : T ≤ t)
    (soon : t < T + (2 ^ 31 - 5000)) {out : LoopOut} (P : Pass n t out) :
    Windows (h ++ [(t, out.lines)]) := by
  have hdue := K.due_iff later soon
  have hopen := K.open_iff later soon
  constructor
  · intro pre x post heq
    rcases snoc_eq_append_cons heq with ⟨rfl, rfl⟩ | ⟨post', rfl⟩
    · rw [P.opens, hdue]
      constructor
      · rintro ⟨hn, ht⟩
        refine ⟨by omega, ?_⟩
        intro y hy hy₁
        obtain ⟨htime, hclosed⟩ := K.finished y hy
        exact (hclosed (htime ▸ hy₁)).2 hn
      · rintro ⟨ht, hlast⟩
        have hn : n.listening = false := by
          by_contra hn
          rw [Bool.not_eq_false] at hn
          obtain ⟨y, hy⟩ := K.exists_last (by have := K.isOpen hn; omega)
          obtain ⟨htime, hclosed⟩ := K.finished y hy
          have hT := (K.isOpen hn).1
          rw [(hclosed hT).1 (hlast y hy (htime ▸ hT))] at hn
          cases hn
        exact ⟨hn, (hopen.2 ht).resolve_left (by simp [hn])⟩
    · exact W.opens pre x post' rfl
  · intro pre x post heq
    rcases snoc_eq_append_cons heq with ⟨rfl, rfl⟩ | ⟨post', rfl⟩
    · rw [P.closes, P.opens, hdue, K.last, and_comm, and_congr_right_iff]
      intro ht
      simp [ht]
    · exact W.closes pre x post' rfl
  · intro x hx
    rcases List.mem_append.1 hx with hx | hx
    · exact W.listens x hx
    · obtain rfl := List.mem_singleton.1 hx
      rw [P.listens]
      simp only [hdue, hopen]
  · intro pre x post heq
    rcases snoc_eq_append_cons heq with ⟨rfl, rfl⟩ | ⟨post', rfl⟩
    · rw [P.debug, K.debug_iff later soon]
    · exact W.debug pre x post' rfl

theorem windows_boot : Windows [] := by
  constructor <;> simp

theorem run_append (es : List (ℕ × Arrivals)) (e : ℕ × Arrivals) :
    run R print toFloat nodeUID (es ++ [e]) =
      (run R print toFloat nodeUID es).bind fun st => next R print toFloat nodeUID st e := by
  rw [run, List.foldlM_append]
  simp [run]

theorem InStep.of_append {ts : List ℕ} (H : InStep (ts ++ [t])) :
    InStep ts ∧ lastTime ts ≤ t ∧ t < lastTime ts + (2 ^ 31 - 5000) := by
  generalize heq : ts ++ [t] = us at H
  cases H with
  | boot => simp at heq
  | next H later soon =>
      obtain ⟨rfl, hlast⟩ := List.append_inj' heq rfl
      obtain rfl := List.singleton_inj.1 hlast
      exact ⟨H, later, soon⟩

/-- The timers are kept, and with them the windows, after every run in step. -/
theorem kept_run {es : List (ℕ × Arrivals)} (H : InStep (es.map Prod.fst))
    (hreadable : ∀ e ∈ es, e.2.Readable R toFloat) :
    ∃ n h opened, run R print toFloat nodeUID es = some (n, h) ∧ n.manifest.length = 50 ∧
      h.map Prod.fst = es.map Prod.fst ∧
      Kept h n (lastTime (es.map Prod.fst)) opened ∧ Windows h := by
  induction es using List.reverseRecOn with
  | nil => exact ⟨boot, [], 0, rfl, rfl, rfl, kept_boot, windows_boot⟩
  | append_singleton es e ih =>
      rw [List.map_append, List.map_singleton] at H ⊢
      obtain ⟨H, later, soon⟩ := H.of_append
      obtain ⟨n, h, opened, hrun, hcells, htimes, K, W⟩ :=
        ih H fun e' he' => hreadable e' (List.mem_append_left _ he')
      obtain ⟨out, hout, hcells'⟩ := loop_total print nodeUID hcells (shown 32 e.1)
        (hreadable e (by simp))
      have P := loop_spec hout
      have K' := K.next later soon P
      rw [lastTime_append]
      refine ⟨out.node, h ++ [(e.1, out.lines)], _, ?_, hcells', ?_, K', K.windows W later soon P⟩
      · rw [run_append, hrun, Option.bind_some, next, hout]
        rfl
      · rw [List.map_append, List.map_singleton, htimes]

/-- **The windows of every run** in step, whatever readable packets are received in it and however
often the clock wraps: from ten seconds after boot on every pass listens twice, in a window and at
its end.  Every pass goes through. -/
theorem listening_windows (R : Radios) (print : BitVec 32 → TwoDecimals)
    (toFloat : List Char → BitVec 32) (nodeUID : BitVec 32) (es : List (ℕ × Arrivals))
    (H : InStep (es.map Prod.fst)) (hreadable : ∀ e ∈ es, e.2.Readable R toFloat) :
    ∃ n h, run R print toFloat nodeUID es = some (n, h) ∧ h.map Prod.fst = es.map Prod.fst ∧
      Windows h := by
  obtain ⟨n, h, opened, hrun, -, htimes, -, W⟩ := kept_run H hreadable
  exact ⟨n, h, hrun, htimes, W⟩

end Run

/-- A pass that meets nothing. -/
def Arrivals.none : Arrivals := ⟨.none, [], .none⟩

/-- The position of the node `7` in a buffer. -/
def positionOfSeven (buf : LocalBuffer) (print : BitVec 32 → TwoDecimals) : Packet where
  buf := buf
  unset := ⟨0, 0, 0, 0, 0, 0⟩
  frame := Reading.packet Radios.broadcast print 7 ⟨0, 0, 12, 34, 5⟩

/-- Four passes, the clock wrapping between the last two.  The third one receives the packet. -/
def wrapping (q : Packet) : List (ℕ × Arrivals) :=
  [(2147000000, .none), (4294000000, .none), (4294967000, ⟨some q, [], .none⟩),
    (4294977000, .none)]

/-- The second pass closes the window of the first one, the third one opens it again and the fourth
one closes it.  The position is received in a buffer of zeros. -/
theorem listening_windows_wrapping : ∃ n h,
    run Radios.broadcast (fun _ => ⟨false, 41, 90, by decide⟩) (fun _ => 0) 1
        (wrapping (positionOfSeven ⟨fun _ => 0, 255, by decide, rfl⟩
          fun _ => ⟨false, 41, 90, by decide⟩)) = some (n, h) ∧
    (n.nodeCount = 1 ∧
      h.map (fun x => (x.2.count .listeningForOthers, x.2.count .listeningFor10Seconds)) =
        [(2, 1), (2, 0), (2, 1), (2, 0)]) ∧
    Windows h := by
  have hlines : (run Radios.broadcast (fun _ => ⟨false, 41, 90, by decide⟩) (fun _ => 0) 1
      (wrapping (positionOfSeven ⟨fun _ => 0, 255, by decide, rfl⟩
        fun _ => ⟨false, 41, 90, by decide⟩))).map (fun st => (st.1.nodeCount, st.2.map fun x =>
          (x.2.count .listeningForOthers, x.2.count .listeningFor10Seconds))) =
      some (1, [(2, 1), (2, 0), (2, 1), (2, 0)]) := by decide +kernel
  have h₁ : InStep ([] ++ [2147000000]) := .next .boot (by decide) (by decide)
  have h₂ : InStep ([] ++ [2147000000] ++ [4294000000]) := .next h₁ (by decide) (by decide)
  have h₃ : InStep ([] ++ [2147000000] ++ [4294000000] ++ [4294967000]) :=
    .next h₂ (by decide) (by decide)
  have h₄ : InStep ([] ++ [2147000000] ++ [4294000000] ++ [4294967000] ++ [4294977000]) :=
    .next h₃ (by decide) (by decide)
  have hnone : Arrivals.none.Readable Radios.broadcast fun _ => 0 := by
    constructor <;> simp [Arrivals.none]
  have hposition : (positionOfSeven ⟨fun _ => 0, 255, by decide, rfl⟩
      fun _ => ⟨false, 41, 90, by decide⟩).Readable Radios.broadcast fun _ => 0 :=
    readable_packet ⟨0, 0, 12, 34, 5⟩ rfl (by decide +kernel)
  have hreadable : ∀ e ∈ wrapping (positionOfSeven ⟨fun _ => 0, 255, by decide, rfl⟩
      fun _ => ⟨false, 41, 90, by decide⟩), e.2.Readable Radios.broadcast fun _ => 0 := by
    simp only [wrapping, List.forall_mem_cons, List.not_mem_nil, false_implies, implies_true,
      and_true]
    refine ⟨hnone, hnone, ⟨?_, by simp⟩, hnone⟩
    intro q hq
    obtain rfl := Option.mem_some_iff.1 hq
    exact hposition
  obtain ⟨n, h, hrun, -, hwindows⟩ := listening_windows Radios.broadcast
    (fun _ => ⟨false, 41, 90, by decide⟩) (fun _ => 0) 1 (wrapping _) h₄ hreadable
  rw [hrun, Option.map_some, Option.some_inj] at hlines
  exact ⟨n, h, hrun, Prod.mk.inj hlines, hwindows⟩

end LoRaGPS.TextNode
