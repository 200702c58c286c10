/-
**A mesh whose nodes are switched off and on.**

A node keeps its history and its timers in the memory of the board and nowhere else, so whoever
changes its battery starts it anew.  In the runs of this module any node may be restarted at any
time: between two iterations, or in the middle of one, when it has received a packet and has not
yet sent it on.  That packet is lost, as if it had never been received, but the records that are
sent go back to what was broadcast as before, and the copies that are in flight are those of some
run of the flooding protocol.  The history of a node is what `storePosition` makes of the records
it has sent on since it was restarted last.

Main definitions:

* `LoRaGPS.Restarted`, `LoRaGPS.Mesh.RestartStep`, `LoRaGPS.Mesh.RestartReachable` — the runs of a
  mesh in which nodes are restarted;
* `LoRaGPS.AcrossRestarts` — what holds in these runs;
* `LoRaGPS.Restarted.Twin` — a mesh whose nodes forget nothing, and that has missed some packets.

Main results:

* `LoRaGPS.Station.Twin.listen` — what a restarted node makes of a packet, its twin makes of it;
* `LoRaGPS.Restarted.Twin.act`, `LoRaGPS.Restarted.Twin.step` — the twin goes along with every
  step;
* `LoRaGPS.exists_twin` — **every run with restarts has a twin**;
* `LoRaGPS.across_restarts` — provenance, histories and traffic in every run with restarts;
* `LoRaGPS.restarts_ordered_iff` — **restarts never put a history out of order**.
-/

import LoRaGPS.HistoryOrder
import LoRaGPS.Provenance

set_option relaxedAutoImplicit false
set_option autoImplicit false

namespace LoRaGPS

open KeyedLog

variable {ι : Type}

/-! ### The runs -/

/-- A mesh with how many of its relays every node had sent when it was restarted last. -/
structure Restarted (ι : Type) where
  stations : ι → Station ι
  forgotten : ι → ℕ

/-- All the nodes have just been switched on for the first time. -/
def Restarted.boot : Restarted ι := ⟨Mesh.boot, fun _ => 0⟩

/-- The node is switched off and on.  What it has sent stays sent, and what was delivered to it
stays delivered. -/
def Station.restart (s : Station ι) : Station ι := { s with node := LoRaNode.boot }

section Runs

variable [DecidableEq ι] (M : Mesh ι) (channel : List ℕ → ℕ → Prop)

/-- The node has received `d`, and is switched off and on before it sends anything on. -/
def Station.cut (s : Station ι) (d : Delivery ι) : Station ι :=
  { s with
    node := LoRaNode.boot
    heard := Function.update s.heard d.source (s.heard d.source ++ [d.place]) }

/-- One iteration of one node, a restart between two iterations, or one in the middle of an
iteration: whatever it was to broadcast is out, and `rf95.recv` has delivered a packet.  A node that
is switched off before that has received nothing in the iteration, or has not begun it. -/
inductive Mesh.RestartStep (s : Restarted ι) : Restarted ι → Prop
  | iterate {t : ι → Station ι} (h : M.Step channel s.stations t) :
      RestartStep s ⟨t, s.forgotten⟩
  | restart (i : ι) :
      RestartStep s ⟨Function.update s.stations i (s.stations i).restart,
        Function.update s.forgotten i (s.stations i).relays.length⟩
  | cut {i : ι} {inp : LoopInput} {d : Delivery ι} {out : LoRaNode.LoopOut}
      (hd : M.Delivers channel s.stations i d)
      (hout : LoRaNode.loop (M.curr_ID i) (s.stations i).node inp (some d.transmission.packet) =
        some out)
      (hlistened : out.listened) :
      RestartStep s ⟨Function.update s.stations i (((s.stations i).broadcast i out.own).cut d),
        Function.update s.forgotten i (s.stations i).relays.length⟩

/-- The states that some order of iterations, deliveries and restarts leads to. -/
def Mesh.RestartReachable (s : Restarted ι) : Prop :=
  Relation.ReflTransGen (M.RestartStep channel) Restarted.boot s

variable {M channel}

/-- A run without restarts is one of these. -/
theorem Mesh.Reachable.restartReachable {t : ι → Station ι} (h : M.Reachable channel t) :
    M.RestartReachable channel ⟨t, fun _ => 0⟩ := by
  induction h with
  | refl => exact .refl
  | tail _ hstep ih => exact ih.tail (.iterate hstep)

end Runs

/-- What holds of a mesh whose nodes are restarted: the records go back to what was broadcast, every
history is made of what the node has sent on since it was restarted last, and the copies in flight
are those of the flooding protocol, in which the parties have heard some of the packets. -/
structure AcrossRestarts [DecidableEq ι] (M : Mesh ι) (channel : List ℕ → ℕ → Prop)
    (s : Restarted ι) : Prop where
  records : Provenance M s.stations
  memory : ∀ i, ∃ rs, storeAll nodeHistories rs = some (s.stations i).node.nodeHistories ∧
    rs.map GPSData.reading =
      ((s.stations i).relays.drop (s.forgotten i)).map fun x => x.packet.reading
  traffic : ∀ channel', Flood.AllowsLoss channel channel' →
    ∃ p, Flood.Reachable M.hears channel' p ∧ ∀ i,
      (p i).count = (s.stations i).readings.length ∧
      (p i).sent = (s.stations i).sent.map Transmission.copy ∧
      ∀ j, ((p i).heard j).Sublist ((s.stations i).heard j)

/-! ### One packet at two nodes that remember different things -/

namespace LoRaNode

/-- What is sent on depends on what was received alone. -/
theorem Heard.exists_heard {curr_ID : BitVec 16} {hs hs₁ hs' : List NodeHistory}
    {received relayed : Option GPSData} (h : Heard curr_ID hs received hs₁ relayed)
    {t : List (BitVec 32 × List GPSData)} (H : Represents hs' t) :
    ∃ hs₁', Heard curr_ID hs' received hs₁' relayed := by
  cases h with
  | nothing => exact ⟨hs', .nothing⟩
  | own hg => exact ⟨hs', .own hg⟩
  | @stored g _ hg _ hsender =>
      obtain ⟨hs₁', hstore, -⟩ := storePosition_represents H g
      exact ⟨hs₁', .stored hg hstore hsender⟩
  | @relayed g _ hg _ hsender =>
      obtain ⟨hs₁', hstore, -⟩ := storePosition_represents H g
      exact ⟨hs₁', .relayed hg hstore hsender⟩

/-- All that is stored is sent on, if its last hop was another node. -/
theorem Heard.relayed_eq {curr_ID : BitVec 16} {hs hs' : List NodeHistory}
    {received relayed : Option GPSData} (h : Heard curr_ID hs received hs' relayed)
    (hsender : ∀ g ∈ received, g.senderID ≠ intID curr_ID) :
    (received.toList.filter fun g => g.nodeID ≠ intID curr_ID).map GPSData.reading =
      relayed.toList.map GPSData.reading := by
  cases h with
  | nothing => rfl
  | own hg => simp [hg]
  | stored hg _ heq => exact absurd heq (hsender _ rfl)
  | relayed hg _ _ => simp [hg, GPSData.reading]

end LoRaNode

/-! ### The twin of a node -/

/-- What `t` has sent, `s` has sent, and what `t` has received, `s` has received.  What `t` has
stored, `s` has stored but for the first `forgotten` of the records, which is how many it had sent
on when it was restarted last. -/
structure Station.Twin (t s : Station ι) (forgotten : ℕ) : Prop where
  readings : t.readings = s.readings
  sent : t.sent = s.sent
  heard : ∀ j, (t.heard j).Sublist (s.heard j)
  forgotten_le : forgotten ≤ t.relays.length
  memory : ∃ rs, storeAll nodeHistories rs = some t.node.nodeHistories ∧
    storeAll nodeHistories (rs.drop forgotten) = some s.node.nodeHistories ∧
    rs.map GPSData.reading = t.relays.map fun x => x.packet.reading

section Node

variable {t s : Station ι} {n : ℕ}

theorem Station.Twin.relays (T : t.Twin s n) : t.relays = s.relays := by
  rw [Station.relays, Station.relays, T.sent]

/-- What a restarted node has stored, it has sent on. -/
theorem Station.Twin.stored (T : t.Twin s n) :
    ∃ rs, storeAll nodeHistories rs = some s.node.nodeHistories ∧
      rs.map GPSData.reading = (s.relays.drop n).map fun x => x.packet.reading := by
  obtain ⟨rs, -, hdrop, hreadings⟩ := T.memory
  refine ⟨rs.drop n, hdrop, ?_⟩
  rw [List.map_drop, hreadings, T.relays, List.map_drop]

/-- A node that is switched off and on forgets all it has stored. -/
theorem Station.Twin.forget (T : t.Twin s n) {s' : Station ι} (hnode : s'.node = LoRaNode.boot)
    (hreadings : s'.readings = s.readings) (hsent : s'.sent = s.sent)
    (hheard : ∀ j, (s.heard j).Sublist (s'.heard j)) : t.Twin s' s.relays.length := by
  obtain ⟨rs, hrs, -, hrelays⟩ := T.memory
  have hlength : rs.length = s.relays.length := by
    rw [← T.relays]
    simpa using congrArg List.length hrelays
  refine ⟨T.readings.trans hreadings.symm, T.sent.trans hsent.symm,
    fun j => (T.heard j).trans (hheard j), by rw [T.relays], rs, hrs, ?_, hrelays⟩
  rw [← hlength, List.drop_length, hnode]
  rfl

theorem Station.Twin.restart (T : t.Twin s n) : t.Twin s.restart s.relays.length :=
  T.forget rfl rfl rfl fun _ => .refl _

/-- The timers do not matter. -/
theorem Station.Twin.work (T : t.Twin s n) {node : LoRaNode}
    (h : node.nodeHistories = s.node.nodeHistories) : t.Twin { s with node := node } n where
  readings := T.readings
  sent := T.sent
  heard := T.heard
  forgotten_le := T.forgotten_le
  memory := by
    rw [h]
    exact T.memory

theorem Station.Twin.broadcast (T : t.Twin s n) (i : ι) (own : Option GPSData) :
    (t.broadcast i own).Twin (s.broadcast i own) n where
  readings := by simp only [Station.broadcast, T.readings]
  sent := by simp only [Station.broadcast, T.readings, T.sent]
  heard := T.heard
  forgotten_le := by
    rw [Station.relays_broadcast]
    exact T.forgotten_le
  memory := by
    rw [Station.relays_broadcast]
    exact T.memory

variable [DecidableEq ι]

theorem sublist_update {f g : ι → List ℕ} (h : ∀ j, (f j).Sublist (g j)) (i : ι) (k : ℕ) (j : ι) :
    (Function.update f i (f i ++ [k]) j).Sublist (Function.update g i (g i ++ [k]) j) := by
  rcases eq_or_ne j i with rfl | hj
  · rw [Function.update_self, Function.update_self]
    exact (h j).append_right [k]
  · rw [Function.update_of_ne hj, Function.update_of_ne hj]
    exact h j

/-- The twin has missed what was received before the node was switched off. -/
theorem Station.Twin.cut (T : t.Twin s n) (d : Delivery ι) : t.Twin (s.cut d) s.relays.length := by
  refine T.forget rfl rfl rfl ?_
  intro j
  rcases eq_or_ne j d.source with rfl | hj
  · simp [Station.cut]
  · simp [Station.cut, hj]

/-- **What a restarted node makes of a packet, its twin makes of it**: they send the same on, and
store the same behind whatever else they remember. -/
theorem Station.Twin.listen (T : t.Twin s n) {curr_ID : BitVec 16} {i : ι} {d : Delivery ι}
    {hs : List NodeHistory} {relayed : Option GPSData}
    (hsender : d.transmission.packet.senderID ≠ intID curr_ID)
    (h : LoRaNode.Heard curr_ID s.node.nodeHistories (some d.transmission.packet) hs relayed) :
    ∃ hs', LoRaNode.Heard curr_ID t.node.nodeHistories (some d.transmission.packet) hs' relayed ∧
      (t.listen i d hs' relayed).Twin (s.listen i d hs relayed) n := by
  obtain ⟨rs, hrs, hdrop, hreadings⟩ := T.memory
  obtain ⟨hs₀, hrs₀, -, H⟩ := storeAll_represents rs
  obtain rfl := Option.some_inj.1 (hrs.symm.trans hrs₀)
  obtain ⟨hs', h'⟩ := h.exists_heard H
  have hlast : ∀ g ∈ some d.transmission.packet, g.senderID ≠ intID curr_ID := by
    intro g hg
    obtain rfl := Option.some_inj.1 hg
    exact hsender
  have hrelays : (t.listen i d hs' relayed).relays.map (fun x => x.packet.reading) =
      t.relays.map (fun x => x.packet.reading) ++ relayed.toList.map GPSData.reading := by
    simp [Station.relays_listen, Function.comp_def]
  have hle : n ≤ rs.length := by
    have hlength := congrArg List.length hreadings
    rw [List.length_map, List.length_map] at hlength
    exact hlength ▸ T.forgotten_le
  refine ⟨hs', h', T.readings, ?_, sublist_update T.heard d.source d.place, ?_,
    rs ++ [d.transmission.packet].filter fun g => g.nodeID ≠ intID curr_ID, ?_, ?_, ?_⟩
  · simp only [Station.listen, T.sent]
  · rw [Station.relays_listen, List.length_append]
    exact T.forgotten_le.trans (Nat.le_add_right _ _)
  · rw [storeAll_append_all, hrs, Option.bind_some]
    exact h'.storeAll
  · rw [List.drop_append_of_le_length hle, storeAll_append_all, hdrop, Option.bind_some]
    exact h.storeAll
  · rw [List.map_append, hreadings, hrelays]
    exact congrArg _ (h.relayed_eq hlast)

end Node

/-! ### The twin of a run with restarts -/

section Twins

/-- The mesh `t`, of which no node was ever restarted, is the twin of `s`. -/
def Restarted.Twin (s : Restarted ι) (t : ι → Station ι) : Prop :=
  ∀ i, (t i).Twin (s.stations i) (s.forgotten i)

variable [DecidableEq ι] {M : Mesh ι} {channel channel' : List ℕ → ℕ → Prop} {s s' : Restarted ι}
  {t u u' : ι → Station ι} {f : ι → ℕ}

theorem Restarted.Twin.update (T : s.Twin t) (i : ι) {a b : Station ι} {n : ℕ}
    (h : a.Twin b n) :
    Restarted.Twin ⟨Function.update s.stations i b, Function.update s.forgotten i n⟩
      (Function.update t i a) := by
  intro y
  rcases eq_or_ne y i with rfl | hy
  · simpa only [Function.update_self] using h
  · simpa only [Function.update_of_ne hy] using T y

theorem Restarted.Twin.update_stations (T : Restarted.Twin ⟨u, f⟩ t) (i : ι) {a b : Station ι}
    (h : a.Twin b (f i)) :
    Restarted.Twin ⟨Function.update u i b, f⟩ (Function.update t i a) := by
  have hupdate := T.update i h
  rwa [Function.update_eq_self] at hupdate

omit [DecidableEq ι] in
/-- What is delivered in a mesh can be delivered in its twin, which has missed some of the packets
before. -/
theorem Restarted.Twin.delivers (T : Restarted.Twin ⟨u, f⟩ t)
    (hch : Flood.AllowsLoss channel channel') {i : ι} {d : Delivery ι}
    (hd : M.Delivers channel u i d) : M.Delivers channel' t i d := by
  obtain ⟨hhears, hplace, hchannel⟩ := hd
  refine ⟨hhears, ?_, hch _ _ _ ((T i).heard d.source) hchannel⟩
  rw [(T d.source).sent]
  exact hplace

/-- The twin of a mesh goes along with everything an iteration does, but for the timers. -/
theorem Restarted.Twin.act (T : Restarted.Twin ⟨u, f⟩ t) (C : Consistent M t)
    (hch : Flood.AllowsLoss channel channel') (h : Act M channel u u') :
    ∃ t', Relation.ReflTransGen (Act M channel') t t' ∧ Restarted.Twin ⟨u', f⟩ t' := by
  cases h with
  | @work i node h =>
      have T' := T.update_stations i ((T i).work h)
      rw [Function.update_eq_self] at T'
      exact ⟨t, .refl, T'⟩
  | @broadcast i own hown =>
      exact ⟨_, .single (.broadcast hown), T.update_stations i ((T i).broadcast i own)⟩
  | @listen i d hs relayed hd h =>
      have hd' := T.delivers hch hd
      have hsender := C.senderID_ne hd'.1 (List.mem_of_getElem? hd'.2.1)
      obtain ⟨hs', h', T'⟩ := (T i).listen hsender h
      exact ⟨_, .single (.listen hd' h'), T.update_stations i T'⟩

theorem Restarted.Twin.acts (T : Restarted.Twin ⟨u, f⟩ t) (C : Consistent M t)
    (hch : Flood.AllowsLoss channel channel') (h : Relation.ReflTransGen (Act M channel) u u') :
    ∃ t', Relation.ReflTransGen (Act M channel') t t' ∧ Restarted.Twin ⟨u', f⟩ t' := by
  induction h with
  | refl => exact ⟨t, .refl, T⟩
  | tail _ hact ih =>
      obtain ⟨t₁, h₁, T₁⟩ := ih
      obtain ⟨t₂, h₂, T₂⟩ := T₁.act (C.acts h₁) hch hact
      exact ⟨t₂, h₁.trans h₂, T₂⟩

/-- The twin of a mesh goes along with every step. -/
theorem Restarted.Twin.step (T : s.Twin t) (C : Consistent M t)
    (hch : Flood.AllowsLoss channel channel') (h : M.RestartStep channel s s') :
    ∃ t', Relation.ReflTransGen (Act M channel') t t' ∧ s'.Twin t' := by
  cases h with
  | iterate h => exact T.acts C hch h.acts
  | restart i =>
      have T' := T.update i (T i).restart
      rw [Function.update_eq_self] at T'
      exact ⟨t, .refl, T'⟩
  | @cut i inp d out hd hout hlistened =>
      -- the twin broadcasts, and does not hear the packet
      refine ⟨_, .single (.broadcast (LoRaNode.loop_spec hout).1), T.update i ?_⟩
      have T' := ((T i).broadcast i out.own).cut d
      rwa [Station.relays_broadcast] at T'

/-- **Every run with restarts has a twin.** -/
theorem exists_twin (hch : Flood.AllowsLoss channel channel')
    (hs : M.RestartReachable channel s) :
    ∃ t, Consistent M t ∧ Flood.Reachable M.hears channel' (parties t) ∧ s.Twin t := by
  suffices hacts : ∃ t, Relation.ReflTransGen (Act M channel') Mesh.boot t ∧ s.Twin t by
    obtain ⟨t, ht, T⟩ := hacts
    exact ⟨t, consistent_boot.acts ht, consistent_boot.flood_acts ht, T⟩
  induction hs with
  | refl =>
      refine ⟨Mesh.boot, .refl, ?_⟩
      intro i
      exact ⟨rfl, rfl, fun _ => .refl _, Nat.zero_le _, [], rfl, rfl, rfl⟩
  | tail _ hstep ih =>
      obtain ⟨t, ht, T⟩ := ih
      obtain ⟨t', hacts, T'⟩ := T.step (consistent_boot.acts ht) hch hstep
      exact ⟨t', ht.trans hacts, T'⟩

end Twins

/-! ### What holds across restarts -/

section Across

variable [DecidableEq ι] {M : Mesh ι} {channel : List ℕ → ℕ → Prop} {s : Restarted ι}
  {t : ι → Station ι}

omit [DecidableEq ι] in
/-- Where the records of a mesh with restarts come from, its twin tells. -/
theorem Restarted.Twin.records (T : s.Twin t) (P : Provenance M t) :
    Provenance M s.stations := by
  have hgenuine : ∀ i, ∀ x ∈ (s.stations i).sent, Genuine M s.stations x.packet := by
    intro i x hx
    obtain ⟨y, hy, r, hr, e⟩ := P.inFlight i x ((T i).sent ▸ hx)
    exact ⟨y, hy, r, (T y).readings ▸ hr, e⟩
  have hne : ∀ i, ∀ x ∈ (s.stations i).relays, x.packet.nodeID ≠ M.nodeID i := fun i x hx =>
    P.notRelayed i x ((T i).relays ▸ hx)
  have hstored : ∀ i, ∀ h ∈ (s.stations i).node.nodeHistories, ∀ g ∈ h.entries,
      ∃ x ∈ (s.stations i).relays, g.reading = x.packet.reading := by
    intro i h hh g hg
    obtain ⟨rs, hrs, hreadings⟩ := (T i).stored
    obtain ⟨x, hx, e⟩ := exists_relay_of_entry hrs hreadings hh hg
    exact ⟨x, List.mem_of_mem_drop hx, e⟩
  constructor
  · exact hgenuine
  · intro i h hh g hg
    obtain ⟨x, hx, e⟩ := hstored i h hh g hg
    exact (hgenuine i x (List.mem_of_mem_filter hx)).congr e
  · intro i x hx
    exact P.lastHop i x ((T i).sent ▸ hx)
  · intro i j hij x hx
    exact P.guard i j hij x ((T j).sent ▸ hx)
  · intro i h hh g hg
    obtain ⟨x, hx, e⟩ := hstored i h hh g hg
    rw [GPSData.nodeID_eq_of_reading e]
    exact hne i x hx
  · exact hne

/-- **Restarts at any time**, of any nodes and any number of them, change nothing in where the
records come from or in which copies there can be; and what a node has in its history is what it
has sent on since it was restarted last. -/
theorem across_restarts (M : Mesh ι) (channel : List ℕ → ℕ → Prop) (s : Restarted ι)
    (hs : M.RestartReachable channel s) : AcrossRestarts M channel s := by
  constructor
  · obtain ⟨t, C, F, T⟩ := exists_twin (Flood.allowsLoss_anyOrder channel) hs
    exact T.records (.of_consistent C (Flood.reachable_inv F))
  · intro i
    obtain ⟨t, -, -, T⟩ := exists_twin (Flood.allowsLoss_anyOrder channel) hs
    exact (T i).stored
  · intro channel' hch
    obtain ⟨t, -, F, T⟩ := exists_twin hch hs
    refine ⟨parties t, F, ?_⟩
    intro i
    exact ⟨congrArg List.length (T i).readings, congrArg (List.map Transmission.copy) (T i).sent,
      (T i).heard⟩

/-- Three nodes that hear each other.  The second one is restarted after it has relayed a record,
and the third one when it has received that record from the second and not yet relayed it. -/
theorem across_restarts_triangle : ∃ s, Mesh.triangle.RestartReachable Flood.InOrder s ∧
    (s.forgotten 1 = 1 ∧ (s.stations 2).heard 1 = [0] ∧ (s.stations 2).relays = []) ∧
      AcrossRestarts Mesh.triangle Flood.InOrder s := by
  have hplay : ((Mesh.triangle.play Flood.InOrder
      [⟨0, exampleInput true, none⟩, ⟨1, exampleInput false, some (0, 0)⟩]).map
      fun t => ((t 1).relays.length, (t 1).sent.length, (t 2).heard 1, (t 2).relays)) =
      some (1, 1, [], []) := by decide +kernel
  obtain ⟨t, ht, hstate⟩ := Option.map_eq_some_iff.1 hplay
  simp only [Prod.mk.injEq] at hstate
  obtain ⟨hrelays, hsent, hheard, hnone⟩ := hstate
  have hreachable := Mesh.reachable_of_play ht
  -- the third node receives what the second has sent, in an iteration without a broadcast
  obtain ⟨x, hx⟩ : ∃ x, (t 1).sent[0]? = some x := ⟨_, List.getElem?_eq_getElem (by omega)⟩
  have hd : Mesh.triangle.Delivers Flood.InOrder t 2 ⟨1, 0, x⟩ := by
    refine ⟨show (2 : Fin 3) ≠ 1 by decide, hx, ?_⟩
    rw [hheard]
    exact fun k' hk' => absurd hk' List.not_mem_nil
  obtain ⟨out, hout⟩ := (Mesh.reachable_consistent hreachable).loop_total 2
    (LoRaNode.quiet (t 2).node) (some x.packet)
  have hs := (hreachable.restartReachable.tail
    (.cut hd hout (LoRaNode.loop_quiet hout).2)).tail (.restart 1)
  refine ⟨_, hs, ⟨?_, ?_, ?_⟩, across_restarts _ _ _ hs⟩
  · simpa using hrelays
  · simp [Station.cut, Station.broadcast, hheard]
  · have hcut : ∀ s : Station (Fin 3), (s.cut ⟨1, 0, x⟩).relays = s.relays := fun _ => rfl
    simpa [hcut, Station.relays_broadcast] using hnone

/-- Where no two walks meet, the histories are ordered in every run with restarts. -/
theorem restarts_ordered_of_uniqueWalks (hu : Flood.UniqueWalks M.hears)
    (hs : M.RestartReachable Flood.InOrder s) : OrderedHistories M s.stations := by
  obtain ⟨t, C, F, T⟩ := exists_twin Flood.allowsLoss_inOrder hs
  intro i h hh
  obtain ⟨rs, -, hdrop, hreadings⟩ := (T i).memory
  obtain ⟨y, hy, hsub⟩ := C.ordered_slot hu F hreadings (List.drop_sublist _ rs) hdrop hh
  exact ⟨y, hy, (T y).readings ▸ hsub⟩

end Across

/-- **Restarts never put a history out of order**: the histories are ordered and free of repeats in
every run with restarts, exactly when no two walks meet. -/
theorem restarts_ordered_iff [DecidableEq ι] [Fintype ι] (M : Mesh ι) :
    (∀ s, M.RestartReachable Flood.InOrder s → OrderedHistories M s.stations) ↔
      Flood.UniqueWalks M.hears := by
  constructor
  · intro h
    by_contra hu
    obtain ⟨t, ht, hnot⟩ := exists_repeated_entry hu
    exact hnot (h _ ht.restartReachable)
  · intro hu s hs
    exact restarts_ordered_of_uniqueWalks hu hs

end LoRaGPS
