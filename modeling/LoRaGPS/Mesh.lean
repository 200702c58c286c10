/-
**A mesh of nodes, over every order of their iterations.**

The nodes of a mesh run `LoRaNode.loop`, one iteration at a time, in any order.  Whatever a node
sends may be delivered to the nodes in range in a later iteration of theirs; a *channel* says how
often and in which order.  Every transmission carries, besides the packet, the broadcast it goes
back to and the nodes that have relayed it, which nothing in the code depends on.  A mesh then
refines the flooding protocol of `LoRaGPS.Flood`: an iteration originates a message, relays one,
does both or does neither, and every run of the protocol is a run of the mesh.

Main definitions:

* `LoRaGPS.Mesh` — nodes with distinct IDs, none of which hears itself;
* `LoRaGPS.Station.turn`, `LoRaGPS.Mesh.Step`, `LoRaGPS.Mesh.Reachable` — the runs of a mesh;
* `LoRaGPS.Act` — the things an iteration does, one at a time;
* `LoRaGPS.Consistent` — packets and histories go back to what was broadcast;
* `LoRaGPS.Mesh.play` — the state that a given run leads to.

Main results:

* `LoRaGPS.Mesh.Step.acts` — an iteration does at most three things;
* `LoRaGPS.Mesh.reachable_consistent` — **packets and histories are consistent in every reachable
  state**;
* `LoRaGPS.Mesh.reachable_iff` — **the mesh and the flooding protocol have the same runs**;
* `LoRaGPS.Mesh.reachable_of_play` — a run that can be played leads to a reachable state.
-/

import LoRaGPS.Flood
import LoRaGPS.LoRaNode

set_option relaxedAutoImplicit false
set_option autoImplicit false

namespace LoRaGPS

variable {ι : Type}

/-! ### The mesh -/

/-- Boards with distinct IDs and the radio topology: `hears i j` says that `i` is in the range
of `j`. -/
structure Mesh (ι : Type) where
  curr_ID : ι → BitVec 16
  distinct : Function.Injective curr_ID
  hears : ι → ι → Prop
  deaf : ∀ i, ¬ hears i i

/-- The ID of a node as the records carry it. -/
def Mesh.nodeID (M : Mesh ι) (i : ι) : BitVec 32 := intID (M.curr_ID i)

theorem Mesh.nodeID_inj (M : Mesh ι) {i j : ι} : M.nodeID i = M.nodeID j ↔ i = j := by
  constructor
  · intro h
    exact M.distinct (intID_inj h)
  · rintro rfl
    rfl

/-- A packet that was sent, with the broadcast it goes back to. -/
structure Transmission (ι : Type) where
  copy : Flood.Copy ι
  packet : GPSData
deriving DecidableEq, Repr

/-- A node with what it has broadcast of its own, what it has sent, and which transmissions of
every other node it has received. -/
structure Station (ι : Type) where
  node : LoRaNode
  readings : List GPSData
  sent : List (Transmission ι)
  heard : ι → List ℕ

/-- All the nodes have just been switched on. -/
def Mesh.boot : ι → Station ι := fun _ => ⟨LoRaNode.boot, [], [], fun _ => []⟩

/-- The `place`-th transmission of `source`, on its way to a node. -/
structure Delivery (ι : Type) where
  source : ι
  place : ℕ
  transmission : Transmission ι

/-- `i` broadcasts the record `own`, if there is one. -/
def Station.broadcast (s : Station ι) (i : ι) (own : Option GPSData) : Station ι :=
  { s with
    readings := s.readings ++ own.toList
    sent := s.sent ++ own.toList.map (Transmission.mk ⟨i, s.readings.length, []⟩) }

/-- What a station has sent on for others. -/
def Station.relays (s : Station ι) : List (Transmission ι) :=
  s.sent.filter fun x => x.copy.hops ≠ []

/-- `i` may receive `d` now. -/
def Mesh.Delivers (M : Mesh ι) (channel : List ℕ → ℕ → Prop) (t : ι → Station ι) (i : ι)
    (d : Delivery ι) : Prop :=
  M.hears i d.source ∧ (t d.source).sent[d.place]? = some d.transmission ∧
    channel ((t i).heard d.source) d.place

/-- What the flooding protocol sees of a station. -/
def Station.party (s : Station ι) : Flood.Party ι :=
  ⟨s.readings.length, s.sent.map Transmission.copy, s.heard⟩

/-- What the flooding protocol sees of a mesh. -/
def parties (t : ι → Station ι) : ι → Flood.Party ι := fun i => (t i).party

theorem Station.broadcast_none (s : Station ι) (i : ι) : s.broadcast i none = s := by
  simp [Station.broadcast]

theorem Station.party_broadcast (s : Station ι) (i : ι) (g : GPSData) :
    (s.broadcast i (some g)).party = s.party.originate i := by
  simp [Station.party, Station.broadcast, Flood.Party.originate]

/-! ### Packets and histories go back to what was broadcast -/

/-- The packet carries a reading that the origin of its copy has broadcast, under the number the
copy names. -/
def GoesBack (t : ι → Station ι) (x : Transmission ι) : Prop :=
  ∃ r, (t x.copy.origin).readings[x.copy.seq]? = some r ∧ x.packet.reading = r.reading

/-- The station `i` of the mesh is consistent: it broadcasts under its own ID, what it sends goes
back to a broadcast and names it as the last hop, and its history is what `storePosition` makes of
the records it has sent on. -/
structure Station.Ok (M : Mesh ι) (t : ι → Station ι) (i : ι) (s : Station ι) : Prop where
  reading : ∀ r ∈ s.readings, r.nodeID = M.nodeID i
  packet : ∀ x ∈ s.sent, x.packet.senderID = M.nodeID i ∧ GoesBack t x
  history : ∃ rs, storeAll nodeHistories rs = some s.node.nodeHistories ∧
    rs.map GPSData.reading = s.relays.map fun x => x.packet.reading

/-- What was stored was sent on, but for the last hop. -/
theorem exists_relay {rs : List GPSData} {xs : List (Transmission ι)}
    (hrs : rs.map GPSData.reading = xs.map fun x => x.packet.reading) {r : GPSData} (hr : r ∈ rs) :
    ∃ x ∈ xs, r.reading = x.packet.reading := by
  have hmem : r.reading ∈ xs.map fun x => x.packet.reading := hrs ▸ List.mem_map_of_mem hr
  obtain ⟨x, hx, e⟩ := List.mem_map.1 hmem
  exact ⟨x, hx, e.symm⟩

/-- All the stations are consistent. -/
def Consistent (M : Mesh ι) (t : ι → Station ι) : Prop := ∀ i, (t i).Ok M t i

section Consistency

variable {M : Mesh ι} {channel : List ℕ → ℕ → Prop} {t t' : ι → Station ι}

theorem GoesBack.mono (h : ∀ i, (t i).readings <+: (t' i).readings) {x : Transmission ι}
    (hx : GoesBack t x) : GoesBack t' x := by
  obtain ⟨r, hr, e⟩ := hx
  obtain ⟨l, hl⟩ := h x.copy.origin
  exact ⟨r, by rw [← hl, List.getElem?_append_left (List.getElem?_eq_some_iff.1 hr).1, hr], e⟩

theorem Station.Ok.mono {i : ι} {s : Station ι} (h : s.Ok M t i)
    (hmono : ∀ i, (t i).readings <+: (t' i).readings) : s.Ok M t' i :=
  { h with packet := fun x hx => ⟨(h.packet x hx).1, (h.packet x hx).2.mono hmono⟩ }

theorem Consistent.nodeID (C : Consistent M t) {i : ι} {x : Transmission ι}
    (hx : x ∈ (t i).sent) : x.packet.nodeID = M.nodeID x.copy.origin := by
  obtain ⟨r, hr, e⟩ := ((C i).packet x hx).2
  calc x.packet.nodeID = r.nodeID := GPSData.nodeID_eq_of_reading e
    _ = M.nodeID x.copy.origin := (C _).reading r (List.mem_of_getElem? hr)

/-- The last hop of what a node receives is another node. -/
theorem Consistent.senderID_ne (C : Consistent M t) {i j : ι} (hij : M.hears i j)
    {x : Transmission ι} (hx : x ∈ (t j).sent) : x.packet.senderID ≠ M.nodeID i := by
  rw [((C j).packet x hx).1]
  intro h
  exact M.deaf i ((M.nodeID_inj.1 h) ▸ hij)

theorem Station.relays_broadcast (s : Station ι) (i : ι) (own : Option GPSData) :
    (s.broadcast i own).relays = s.relays := by
  cases own <;> simp [Station.relays, Station.broadcast]

/-- What a node receives is its own, or is stored and sent on: the test of the last hop in
`receive` is always passed. -/
theorem Consistent.heard_cases (C : Consistent M t) {i : ι} {d : Delivery ι}
    (hd : M.Delivers channel t i d) {hs : List NodeHistory} {relayed : Option GPSData}
    (h : LoRaNode.Heard (M.curr_ID i) (t i).node.nodeHistories (some d.transmission.packet) hs
      relayed) :
    (d.transmission.copy.origin = i ∧ hs = (t i).node.nodeHistories ∧ relayed = none) ∨
    (d.transmission.copy.origin ≠ i ∧
      storePosition (t i).node.nodeHistories d.transmission.packet = some hs ∧
      relayed = some { d.transmission.packet with senderID := M.nodeID i }) := by
  have hx := List.mem_of_getElem? hd.2.1
  have hid := C.nodeID hx
  cases h with
  | own hg => exact Or.inl ⟨M.nodeID_inj.1 (hid.symm.trans hg), rfl, rfl⟩
  | stored hg hstore hsender => exact absurd hsender (C.senderID_ne hd.1 hx)
  | relayed hg hstore hsender =>
      refine Or.inr ⟨?_, hstore, rfl⟩
      rintro rfl
      exact hg hid

/-- In a consistent mesh an iteration never fails. -/
theorem Consistent.loop_total (C : Consistent M t) (i : ι) (inp : LoopInput)
    (received : Option GPSData) :
    ∃ out, LoRaNode.loop (M.curr_ID i) (t i).node inp received = some out := by
  obtain ⟨rs, hrs, -⟩ := (C i).history
  obtain ⟨hs, hrs', -, H⟩ := storeAll_represents rs
  obtain rfl := Option.some_inj.1 (hrs.symm.trans hrs')
  exact LoRaNode.loop_total H _ _ _

/-- What is delivered in the mesh is heard in the protocol. -/
theorem Mesh.Delivers.getElem?_parties {i : ι} {d : Delivery ι} (hd : M.Delivers channel t i d) :
    (parties t d.source).sent[d.place]? = some d.transmission.copy := by
  simp only [parties, Station.party, List.getElem?_map, hd.2.1, Option.map_some]

theorem consistent_boot : Consistent M (Mesh.boot : ι → Station ι) := by
  intro i
  refine ⟨?_, ?_, [], rfl, rfl⟩
  · intro r hr
    simp [Mesh.boot] at hr
  · intro x hx
    simp [Mesh.boot] at hx

end Consistency

/-! ### Runs -/

variable [DecidableEq ι]

/-- `i` has received `d`, with the history `hs` and the packet `relayed` as the outcome. -/
def Station.listen (s : Station ι) (i : ι) (d : Delivery ι) (hs : List NodeHistory)
    (relayed : Option GPSData) : Station ι :=
  { s with
    node := { s.node with nodeHistories := hs }
    sent := s.sent ++ relayed.toList.map (Transmission.mk (d.transmission.copy.relay i))
    heard := Function.update s.heard d.source (s.heard d.source ++ [d.place]) }

/-- One iteration of the node `i`, which receives `d` if it gets as far as to listen. -/
def Station.turn (curr_ID : BitVec 16) (i : ι) (s : Station ι) (inp : LoopInput)
    (d : Option (Delivery ι)) : Option (Station ι) :=
  (LoRaNode.loop curr_ID s.node inp (d.map fun d => d.transmission.packet)).bind fun out =>
    let s := Station.broadcast { s with node := out.node } i out.own
    match d with
    | none => some s
    | some d =>
        if out.listened then some (s.listen i d out.node.nodeHistories out.relayed) else none

section Runs

variable (M : Mesh ι) (channel : List ℕ → ℕ → Prop)

/-- One iteration of one node. -/
inductive Mesh.Step (t : ι → Station ι) : (ι → Station ι) → Prop
  | turn {i : ι} {inp : LoopInput} {d : Option (Delivery ι)} {s : Station ι}
      (hd : ∀ e ∈ d, M.Delivers channel t i e)
      (hs : (t i).turn (M.curr_ID i) i inp d = some s) : Step t (Function.update t i s)

/-- The states that some order of iterations and deliveries leads to. -/
def Mesh.Reachable (t : ι → Station ι) : Prop :=
  Relation.ReflTransGen (M.Step channel) Mesh.boot t

end Runs

/-! ### What an iteration does to the mesh -/

section Acts

variable {M : Mesh ι} {channel : List ℕ → ℕ → Prop} {t t' : ι → Station ι}

/-- The things an iteration does: it works on its timers, broadcasts, or receives. -/
inductive Act (M : Mesh ι) (channel : List ℕ → ℕ → Prop) (t : ι → Station ι) :
    (ι → Station ι) → Prop
  | work {i : ι} {node : LoRaNode} (h : node.nodeHistories = (t i).node.nodeHistories) :
      Act M channel t (Function.update t i { t i with node := node })
  | broadcast {i : ι} {own : Option GPSData}
      (hown : ∀ g, own = some g → g.nodeID = M.nodeID i ∧ g.senderID = M.nodeID i) :
      Act M channel t (Function.update t i ((t i).broadcast i own))
  | listen {i : ι} {d : Delivery ι} {hs : List NodeHistory} {relayed : Option GPSData}
      (hd : M.Delivers channel t i d)
      (h : LoRaNode.Heard (M.curr_ID i) (t i).node.nodeHistories (some d.transmission.packet) hs
        relayed) :
      Act M channel t (Function.update t i ((t i).listen i d hs relayed))

/-- **An iteration does at most three things**: work, then broadcast, then receive. -/
theorem Mesh.Step.acts (h : M.Step channel t t') :
    Relation.ReflTransGen (Act M channel) t t' := by
  cases h with
  | @turn i inp d s hd hs =>
      rw [Station.turn] at hs
      obtain ⟨out, hout, hs⟩ := Option.bind_eq_some_iff.1 hs
      obtain ⟨hown, hheard⟩ := LoRaNode.loop_spec hout
      -- the timers move on and the record is sent before anything is stored
      obtain ⟨s₁, hs₁⟩ : ∃ s₁ : Station ι, s₁ = { t i with
        node := { out.node with nodeHistories := (t i).node.nodeHistories } } := ⟨_, rfl⟩
      have h₁ : Act M channel t (Function.update t i s₁) := hs₁ ▸ .work rfl
      have h₂ : Act M channel (Function.update t i s₁)
          (Function.update t i (s₁.broadcast i out.own)) := by
        have hact : Act M channel (Function.update t i s₁) _ := .broadcast hown
        rwa [Function.update_self, Function.update_idem] at hact
      have h₁₂ := (Relation.ReflTransGen.single h₁).tail h₂
      cases d with
      | none =>
          -- nothing was received, and the history is what it was
          obtain rfl := Option.some_inj.1 hs
          have hsame : out.node.nodeHistories = (t i).node.nodeHistories := by
            rw [Option.map_none, ite_self] at hheard
            exact hheard.eq_of_none
          rw [hs₁, ← hsame] at h₁₂
          exact h₁₂
      | some e =>
          obtain ⟨hlistened, hs⟩ := Option.ite_none_right_eq_some.1 hs
          obtain rfl := Option.some_inj.1 hs
          obtain ⟨hhears, hplace, hchannel⟩ := hd e rfl
          have hne : e.source ≠ i := fun h => M.deaf i (h ▸ hhears)
          rw [if_pos hlistened] at hheard
          have h₃ : Act M channel (Function.update t i (s₁.broadcast i out.own))
              (Function.update t i ((s₁.broadcast i out.own).listen i e out.node.nodeHistories
                out.relayed)) := by
            have hd' : M.Delivers channel (Function.update t i (s₁.broadcast i out.own)) i e := by
              refine ⟨hhears, ?_, ?_⟩
              · rwa [Function.update_of_ne hne]
              · rw [Function.update_self, hs₁]
                exact hchannel
            have hact := Act.listen hd' (by rw [Function.update_self, hs₁]; exact hheard)
            rwa [Function.update_self, Function.update_idem] at hact
          rw [hs₁] at h₁₂ h₃
          exact h₁₂.tail h₃

end Acts

/-! ### Every iteration keeps the mesh consistent -/

section Keeps

variable {M : Mesh ι} {channel : List ℕ → ℕ → Prop} {t t' : ι → Station ι}

theorem Act.readings_mono (h : Act M channel t t') (y : ι) :
    (t y).readings <+: (t' y).readings := by
  cases h with
  | @work i node h =>
      rcases eq_or_ne y i with rfl | hy
      · rw [Function.update_self]
      · rw [Function.update_of_ne hy]
  | @broadcast i own hown =>
      rcases eq_or_ne y i with rfl | hy
      · rw [Function.update_self]
        exact List.prefix_append _ _
      · rw [Function.update_of_ne hy]
  | @listen i d hs relayed hd h =>
      rcases eq_or_ne y i with rfl | hy
      · rw [Function.update_self]
        exact List.prefix_rfl
      · rw [Function.update_of_ne hy]

theorem Act.sent_mono (h : Act M channel t t') (y : ι) : (t y).sent <+: (t' y).sent := by
  cases h with
  | @work i node h =>
      rcases eq_or_ne y i with rfl | hy
      · rw [Function.update_self]
      · rw [Function.update_of_ne hy]
  | @broadcast i own hown =>
      rcases eq_or_ne y i with rfl | hy
      · rw [Function.update_self]
        exact List.prefix_append _ _
      · rw [Function.update_of_ne hy]
  | @listen i d hs relayed hd h =>
      rcases eq_or_ne y i with rfl | hy
      · rw [Function.update_self]
        exact List.prefix_append _ _
      · rw [Function.update_of_ne hy]

theorem Act.sent_mono_of_acts (h : Relation.ReflTransGen (Act M channel) t t') (y : ι) :
    (t y).sent <+: (t' y).sent := by
  induction h with
  | refl => exact List.prefix_rfl
  | tail _ hact ih => exact ih.trans (hact.sent_mono y)

/-- What was sent stays sent. -/
theorem Mesh.Step.sent_mono (h : M.Step channel t t') (y : ι) : (t y).sent <+: (t' y).sent :=
  Act.sent_mono_of_acts h.acts y

theorem Station.relays_listen (s : Station ι) (i : ι) (d : Delivery ι) (hs : List NodeHistory)
    (relayed : Option GPSData) : (s.listen i d hs relayed).relays =
      s.relays ++ relayed.toList.map (Transmission.mk (d.transmission.copy.relay i)) := by
  cases relayed <;> simp [Station.relays, Station.listen, Flood.Copy.relay]

/-- **Everything an iteration does keeps the mesh consistent.** -/
theorem Consistent.act (C : Consistent M t) (h : Act M channel t t') : Consistent M t' := by
  have hmono := h.readings_mono
  cases h with
  | @work i node h =>
      refine (Function.forall_update_iff t (p := fun y s => s.Ok M _ y)).2
        ⟨?_, fun y _ => (C y).mono hmono⟩
      exact { (C i).mono hmono with
              history := by
                rw [h]
                exact (C i).history }
  | @broadcast i own hown =>
      refine (Function.forall_update_iff t (p := fun y s => s.Ok M _ y)).2
        ⟨?_, fun y _ => (C y).mono hmono⟩
      have K := (C i).mono hmono
      refine ⟨?_, ?_, ?_⟩
      · intro r hr
        rcases List.mem_append.1 hr with hr | hr
        · exact K.reading r hr
        · exact (hown r (Option.mem_toList.1 hr)).1
      · intro x hx
        rcases List.mem_append.1 hx with hx | hx
        · exact K.packet x hx
        · obtain ⟨g, hg, rfl⟩ := List.mem_map.1 hx
          obtain rfl : own = some g := Option.mem_toList.1 hg
          exact ⟨(hown g rfl).2, g, by simp [Station.broadcast], rfl⟩
      · rw [Station.relays_broadcast]
        exact K.history
  | @listen i d hs relayed hd h =>
      refine (Function.forall_update_iff t (p := fun y s => s.Ok M _ y)).2
        ⟨?_, fun y _ => (C y).mono hmono⟩
      have K := (C i).mono hmono
      obtain ⟨rs, hrs, hreadings⟩ := K.history
      rcases C.heard_cases hd h with ⟨-, rfl, rfl⟩ | ⟨-, hstore, rfl⟩
      · exact ⟨K.reading, by simpa [Station.listen] using K.packet, rs, hrs, by
          rw [Station.relays_listen, hreadings]
          simp⟩
      · refine ⟨K.reading, ?_, rs ++ [d.transmission.packet], ?_, ?_⟩
        · intro x hx
          rcases List.mem_append.1 hx with hx | hx
          · exact K.packet x hx
          · obtain rfl : x = ⟨d.transmission.copy.relay i, _⟩ := by simpa using hx
            exact ⟨rfl, ((C d.source).packet _ (List.mem_of_getElem? hd.2.1)).2.mono hmono⟩
        · rw [storeAll_append, hrs, Option.bind_some]
          exact hstore
        · rw [Station.relays_listen, List.map_append, List.map_append, hreadings]
          rfl

theorem Consistent.acts (C : Consistent M t) (h : Relation.ReflTransGen (Act M channel) t t') :
    Consistent M t' := by
  induction h with
  | refl => exact C
  | tail _ hact ih => exact ih.act hact

/-- **Packets and histories are consistent in every reachable state.** -/
theorem Mesh.reachable_consistent (h : M.Reachable channel t) : Consistent M t := by
  induction h with
  | refl => exact consistent_boot
  | tail _ hstep ih => exact ih.acts hstep.acts

end Keeps

/-! ### The mesh refines the flooding protocol -/

section Refinement

variable {M : Mesh ι} {channel : List ℕ → ℕ → Prop} {t t' : ι → Station ι}

theorem parties_update (t : ι → Station ι) (i : ι) (s : Station ι) :
    parties (Function.update t i s) = Function.update (parties t) i s.party :=
  Function.comp_update Station.party t i s

theorem parties_update_self (t : ι → Station ι) (i : ι) (s : Station ι)
    (h : s.party = (t i).party) : parties (Function.update t i s) = parties t := by
  rw [parties_update, h]
  exact Function.update_eq_self i (parties t)

/-- Receiving a packet is hearing a copy, which is relayed unless it is the node's own. -/
theorem Station.party_listen (s : Station ι) {i : ι} {d : Delivery ι} {hs : List NodeHistory}
    {relayed : Option GPSData} (h : relayed = none ↔ d.transmission.copy.origin = i) :
    (s.listen i d hs relayed).party = s.party.hear i d.source d.place d.transmission.copy := by
  cases relayed with
  | none => simp [Station.party, Station.listen, Flood.Party.hear, h.1 rfl]
  | some g =>
      have ho : ¬ d.transmission.copy.origin = i := fun e => by cases h.2 e
      simp [Station.party, Station.listen, Flood.Party.hear, ho]

/-- Everything an iteration does is an event of the protocol, or is not seen by it. -/
theorem Consistent.flood (C : Consistent M t) (h : Act M channel t t') :
    parties t' = parties t ∨ Flood.Step M.hears channel (parties t) (parties t') := by
  cases h with
  | @work i node h => exact Or.inl (parties_update_self _ _ _ rfl)
  | @broadcast i own hown =>
      cases own with
      | none => exact Or.inl (parties_update_self _ _ _ (by rw [Station.broadcast_none]))
      | some g =>
          rw [parties_update, Station.party_broadcast]
          exact Or.inr (.originate _ i)
  | @listen i d hs relayed hd h =>
      have hnone : relayed = none ↔ d.transmission.copy.origin = i := by
        rcases C.heard_cases hd h with ⟨ho, -, rfl⟩ | ⟨ho, -, rfl⟩ <;> simp [ho]
      rw [parties_update, Station.party_listen _ hnone]
      exact Or.inr (.hear _ hd.1 hd.getElem?_parties hd.2.2)

theorem Consistent.flood_acts (C : Consistent M t)
    (h : Relation.ReflTransGen (Act M channel) t t') :
    Relation.ReflTransGen (Flood.Step M.hears channel) (parties t) (parties t') := by
  induction h with
  | refl => exact .refl
  | tail hacts hact ih =>
      rcases (C.acts hacts).flood hact with h | h
      · rw [h]
        exact ih
      · exact ih.tail h

/-- Every run of the mesh is a run of the protocol. -/
theorem Mesh.Reachable.flood (h : M.Reachable channel t) :
    Flood.Reachable M.hears channel (parties t) := by
  induction h with
  | refl => exact .refl
  | tail hs hstep ih => exact ih.trans ((Mesh.reachable_consistent hs).flood_acts hstep.acts)

/-- Every event of the protocol is an iteration of the mesh. -/
theorem Consistent.lift (C : Consistent M t) {s : ι → Flood.Party ι}
    (h : Flood.Step M.hears channel (parties t) s) :
    ∃ t', M.Step channel t t' ∧ parties t' = s := by
  cases h with
  | originate i =>
      -- an iteration in which it is time to broadcast, and nothing is received
      obtain ⟨out, hout⟩ := C.loop_total i (LoRaNode.due (t i).node) none
      obtain ⟨g, hg⟩ := LoRaNode.loop_due hout
      have hturn : (t i).turn (M.curr_ID i) i (LoRaNode.due (t i).node) none =
          some (Station.broadcast { t i with node := out.node } i (some g)) := by
        simp [Station.turn, hout, hg]
      refine ⟨_, .turn (by simp) hturn, ?_⟩
      rw [parties_update, Station.party_broadcast]
      rfl
  | @hear i j k c hij hk hc =>
      -- an iteration in which it is not yet time, and the packet is received
      obtain ⟨x, hx, rfl⟩ : ∃ x, (t j).sent[k]? = some x ∧ x.copy = c := by
        simpa [parties, Station.party] using hk
      have hd : M.Delivers channel t i ⟨j, k, x⟩ := ⟨hij, hx, hc⟩
      obtain ⟨out, hout⟩ := C.loop_total i (LoRaNode.quiet (t i).node) (some x.packet)
      obtain ⟨hown, hlistened⟩ := LoRaNode.loop_quiet hout
      have hheard := (LoRaNode.loop_spec hout).2
      rw [if_pos hlistened] at hheard
      have hnone : out.relayed = none ↔ x.copy.origin = i := by
        rcases C.heard_cases hd hheard with ⟨ho, -, hr⟩ | ⟨ho, -, hr⟩
        · exact iff_of_true hr ho
        · exact iff_of_false (by simp [hr]) ho
      have hturn : (t i).turn (M.curr_ID i) i (LoRaNode.quiet (t i).node) (some ⟨j, k, x⟩) =
          some (Station.listen { t i with node := out.node } i ⟨j, k, x⟩ out.node.nodeHistories
            out.relayed) := by
        simp [Station.turn, hout, hown, hlistened, Station.broadcast_none]
      refine ⟨_, .turn (by simpa using hd) hturn, ?_⟩
      rw [parties_update, Station.party_listen _ hnone]
      rfl

/-- **The mesh and the flooding protocol have the same runs.** -/
theorem Mesh.reachable_iff {s : ι → Flood.Party ι} :
    Flood.Reachable M.hears channel s ↔ ∃ t, M.Reachable channel t ∧ parties t = s := by
  constructor
  · intro h
    induction h with
    | refl => exact ⟨Mesh.boot, .refl, rfl⟩
    | tail _ hstep ih =>
        obtain ⟨t, ht, rfl⟩ := ih
        obtain ⟨t', hstep', rfl⟩ := (Mesh.reachable_consistent ht).lift hstep
        exact ⟨t', ht.tail hstep', rfl⟩
  · rintro ⟨t, ht, rfl⟩
    exact ht.flood

end Refinement

/-! ### Playing a run -/

/-- One iteration of a given run: the node, what it reads, and which transmission of which node it
receives. -/
structure Turn (ι : Type) where
  node : ι
  inp : LoopInput
  delivery : Option (ι × ℕ)

section Play

variable (M : Mesh ι) (channel : List ℕ → ℕ → Prop) [DecidableRel M.hears]
  [∀ l k, Decidable (channel l k)]

/-- The iteration `e`, if its delivery can be made. -/
def Mesh.playTurn (t : ι → Station ι) (e : Turn ι) : Option (ι → Station ι) :=
  match e.delivery with
  | none =>
      ((t e.node).turn (M.curr_ID e.node) e.node e.inp none).map (Function.update t e.node)
  | some (j, k) =>
      (t j).sent[k]?.bind fun x =>
        if M.hears e.node j ∧ channel ((t e.node).heard j) k then
          ((t e.node).turn (M.curr_ID e.node) e.node e.inp (some ⟨j, k, x⟩)).map
            (Function.update t e.node)
        else none

/-- The run `es`, from when the nodes are switched on. -/
def Mesh.play (es : List (Turn ι)) : Option (ι → Station ι) :=
  es.foldlM (M.playTurn channel) Mesh.boot

variable {M channel}

theorem Mesh.step_of_playTurn {t t' : ι → Station ι} {e : Turn ι}
    (h : M.playTurn channel t e = some t') : M.Step channel t t' := by
  rw [Mesh.playTurn] at h
  cases hd : e.delivery with
  | none =>
      rw [hd] at h
      obtain ⟨s, hs, rfl⟩ := Option.map_eq_some_iff.1 h
      exact .turn (by simp) hs
  | some p =>
      obtain ⟨j, k⟩ := p
      simp only [hd] at h
      obtain ⟨x, hx, h⟩ := Option.bind_eq_some_iff.1 h
      obtain ⟨⟨hhears, hchannel⟩, h⟩ := Option.ite_none_right_eq_some.1 h
      obtain ⟨s, hs, rfl⟩ := Option.map_eq_some_iff.1 h
      refine .turn ?_ hs
      rintro e' he'
      obtain rfl := Option.some_inj.1 he'
      exact ⟨hhears, hx, hchannel⟩

/-- A run that can be played leads to a reachable state. -/
theorem Mesh.reachable_of_play {es : List (Turn ι)} {t : ι → Station ι}
    (h : M.play channel es = some t) : M.Reachable channel t := by
  induction es using List.reverseRecOn generalizing t with
  | nil =>
      obtain rfl := Option.some_inj.1 h
      exact .refl
  | append_singleton es e ih =>
      rw [Mesh.play, List.foldlM_append] at h
      obtain ⟨t₀, h₀, h⟩ := Option.bind_eq_some_iff.1 h
      refine (ih h₀).tail (Mesh.step_of_playTurn (e := e) ?_)
      simpa using h

end Play

/-! ### Three nodes -/

/-- Three nodes that all hear each other. -/
def Mesh.triangle : Mesh (Fin 3) where
  curr_ID i := BitVec.ofNat 16 (i + 1)
  distinct := by decide
  hears i j := i ≠ j
  deaf i := fun h => h rfl

/-- Three nodes in a row, each of which hears the one before it. -/
def Mesh.chain : Mesh (Fin 3) where
  curr_ID i := BitVec.ofNat 16 (i + 1)
  distinct := by decide
  hears i j := (i : ℕ) = j + 1
  deaf i := fun h => by omega

instance : DecidableRel Mesh.triangle.hears := fun i j => inferInstanceAs (Decidable (i ≠ j))

/-- In the row every node hears at most one other. -/
theorem Mesh.chain_uniqueWalks : Flood.UniqueWalks Mesh.chain.hears :=
  Flood.uniqueWalks_of_one_source fun i j j' (h : (i : ℕ) = j + 1) (h' : (i : ℕ) = j' + 1) => by
    omega

/-- In the iterations of the examples it is time to broadcast when `due` says so. -/
def exampleInput (due : Bool) : LoopInput :=
  if due then LoRaNode.due LoRaNode.boot else LoRaNode.quiet LoRaNode.boot

end LoRaGPS
