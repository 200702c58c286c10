/-
**The order of the timestamps in a history.**

`storePosition` does not look at the timestamps, and neither does the page that shows a history:
that the entries of a slot are a track in the order of time rests on what the radio and the
topology do.  The runs of this module remember what the GPS of every node has shown last, and the
date it shows never goes back.  If every node is heard in order and no two walks of the topology
meet, then in every history the entries with a date of the GPS are in the order of their
timestamps; the other entries, with the time since a board was switched on, are passed over.  If
two walks meet, then some run leads to a history in which an older record follows a newer one.

Main definitions:

* `LoRaGPS.Chronological` — the timestamps that are dates are in order;
* `LoRaGPS.Dated`, `LoRaGPS.Mesh.DatedStep`, `LoRaGPS.Mesh.DatedReachable` — the runs of a mesh in
  which the date of a GPS never goes back.

Main results:

* `LoRaGPS.Mesh.DatedReachable.reachable` — these are runs of the mesh;
* `LoRaGPS.Mesh.DatedReachable.ok` — what a node has broadcast is chronological;
* `LoRaGPS.Mesh.DatedReachable.lift_steps` — every run of the flooding protocol is one of these;
* `LoRaGPS.chronological_histories_iff` — **every history is chronological, in every such run,
  exactly when no two walks meet**.
-/

import LoRaGPS.FloodPairs
import LoRaGPS.HistoryOrder
import LoRaGPS.Timestamps

set_option relaxedAutoImplicit false
set_option autoImplicit false

namespace LoRaGPS

open KeyedLog

variable {ι : Type}

/-- The records with a date of the GPS are in the order of their timestamps. -/
def Chronological (gs : List GPSData) : Prop :=
  (gs.filter fun g => firstGpsStamp ≤ g.timestamp).Pairwise fun g g' => g.timestamp ≤ g'.timestamp

theorem chronological_iff {gs : List GPSData} : Chronological gs ↔
    gs.Pairwise fun g g' => firstGpsStamp ≤ g.timestamp → firstGpsStamp ≤ g'.timestamp →
      g.timestamp ≤ g'.timestamp := by
  simp [Chronological, List.pairwise_filter]

/-- It depends on the timestamps alone. -/
theorem chronological_iff_map {gs : List GPSData} : Chronological gs ↔
    (gs.map GPSData.timestamp).Pairwise fun t t' =>
      firstGpsStamp ≤ t → firstGpsStamp ≤ t' → t ≤ t' := by
  rw [chronological_iff, List.pairwise_map]

/-- Forgetting the last hops does not change the timestamps. -/
theorem chronological_map_reading {gs : List GPSData} :
    Chronological (gs.map GPSData.reading) ↔ Chronological gs := by
  rw [chronological_iff_map, chronological_iff_map, List.map_map]
  rfl

theorem Chronological.sublist {gs gs' : List GPSData} (h : Chronological gs')
    (hsub : gs.Sublist gs') : Chronological gs := by
  rw [chronological_iff] at h ⊢
  exact h.sublist hsub

/-! ### Runs in which the date never goes back -/

/-- A mesh with what the GPS of every node has shown last. -/
structure Dated (ι : Type) where
  stations : ι → Station ι
  shown : ι → List ℕ

/-- All the nodes have just been switched on, and no GPS has shown a date. -/
def Dated.boot : Dated ι := ⟨Mesh.boot, fun _ => []⟩

/-- What the GPS has shown last, if it shows `gps` now. -/
def Gps.shows (gps : Gps) (last : List ℕ) : List ℕ :=
  if gps.dateValid ∧ gps.timeValid then gps.date else last

variable [DecidableEq ι]

section Runs

variable (M : Mesh ι) (channel : List ℕ → ℕ → Prop)

/-- One iteration of one node.  If its GPS shows a date, it is a date of the calendar and not
before the last one. -/
inductive Mesh.DatedStep (s : Dated ι) : Dated ι → Prop
  | turn {i : ι} {inp : LoopInput} {d : Option (Delivery ι)} {t : Station ι}
      (hd : ∀ e ∈ d, M.Delivers channel s.stations i e)
      (ht : (s.stations i).turn (M.curr_ID i) i inp d = some t)
      (hgps : inp.gps.dateValid ∧ inp.gps.timeValid →
        inp.gps.InCalendar ∧ s.shown i ≤ inp.gps.date) :
      DatedStep s ⟨Function.update s.stations i t,
        Function.update s.shown i (inp.gps.shows (s.shown i))⟩

/-- The states that some order of iterations and deliveries leads to. -/
def Mesh.DatedReachable (s : Dated ι) : Prop :=
  Relation.ReflTransGen (M.DatedStep channel) Dated.boot s

end Runs

variable {M : Mesh ι} {channel : List ℕ → ℕ → Prop} {s s' : Dated ι}

theorem Mesh.DatedStep.step (h : M.DatedStep channel s s') :
    M.Step channel s.stations s'.stations := by
  cases h with
  | turn hd ht _ => exact .turn hd ht

/-- These are runs of the mesh. -/
theorem Mesh.DatedReachable.reachable (h : M.DatedReachable channel s) :
    M.Reachable channel s.stations := by
  induction h with
  | refl => exact .refl
  | tail _ hstep ih => exact ih.tail hstep.step

/-! ### What the nodes broadcast is chronological -/

/-- An iteration adds to the readings what it broadcasts. -/
theorem Station.turn_readings {curr_ID : BitVec 16} {i : ι} {t t' : Station ι} {inp : LoopInput}
    {d : Option (Delivery ι)} (h : t.turn curr_ID i inp d = some t') :
    ∃ own : Option GPSData, t'.readings = t.readings ++ own.toList ∧
      ∀ g, own = some g → (LoRaNode.broadcast curr_ID t.node inp).2 = .sent g := by
  rw [Station.turn] at h
  obtain ⟨out, hout, h⟩ := Option.bind_eq_some_iff.1 h
  refine ⟨out.own, ?_, fun g => (LoRaNode.loop_own hout g).1⟩
  cases d with
  | none =>
      obtain rfl := Option.some_inj.1 h
      rfl
  | some e =>
      obtain ⟨-, h⟩ := Option.ite_none_right_eq_some.1 h
      obtain rfl := Option.some_inj.1 h
      rfl

/-- What a node has broadcast is chronological, and no date in it is later than what its GPS has
shown last. -/
structure Dated.Ok (readings : List GPSData) (shown : List ℕ) : Prop where
  chronological : Chronological readings
  before : ∀ r ∈ readings, firstGpsStamp ≤ r.timestamp →
    ∃ gps : Gps, gps.InCalendar ∧ r.timestamp = convertToUnixTimestamp gps ∧ gps.date ≤ shown

/-- What the GPS shows is not before what it has shown last. -/
theorem Gps.le_shows {gps : Gps} {last : List ℕ}
    (h : gps.dateValid ∧ gps.timeValid → gps.InCalendar ∧ last ≤ gps.date) :
    last ≤ gps.shows last := by
  rw [Gps.shows]
  split_ifs with hvalid
  · exact (h hvalid).2
  · exact le_refl last

theorem Dated.Ok.shows {readings : List GPSData} {shown shown' : List ℕ}
    (K : Dated.Ok readings shown) (hle : shown ≤ shown') : Dated.Ok readings shown' := by
  refine ⟨K.chronological, ?_⟩
  intro r hr hstamp
  obtain ⟨gps, hcal, hts, hdate⟩ := K.before r hr hstamp
  exact ⟨gps, hcal, hts, hdate.trans hle⟩

/-- A record with the date that the GPS shows may be added. -/
theorem Dated.Ok.append {readings : List GPSData} {shown : List ℕ} (K : Dated.Ok readings shown)
    {g : GPSData} (hg : firstGpsStamp ≤ g.timestamp →
      ∃ gps : Gps, gps.InCalendar ∧ g.timestamp = convertToUnixTimestamp gps ∧ gps.date = shown) :
    Dated.Ok (readings ++ [g]) shown := by
  constructor
  · refine chronological_iff.2 (List.pairwise_append.2 ⟨chronological_iff.1 K.chronological,
      List.pairwise_singleton _ _, ?_⟩)
    intro r hr g' hg' hr' hstamp
    obtain rfl := List.mem_singleton.1 hg'
    obtain ⟨gps, hcal, hts, hdate⟩ := K.before r hr hr'
    obtain ⟨gps', hcal', hts', hdate'⟩ := hg hstamp
    rw [hts, hts']
    exact (stamp_le_iff hcal hcal').2 (hdate'.symm ▸ hdate)
  · intro r hr hstamp
    rcases List.mem_append.1 hr with hr | hr
    · exact K.before r hr hstamp
    · obtain rfl := List.mem_singleton.1 hr
      obtain ⟨gps, hcal, hts, hdate⟩ := hg hstamp
      exact ⟨gps, hcal, hts, hdate.le⟩

/-- One iteration keeps what a node has broadcast chronological. -/
theorem Mesh.DatedStep.ok (h : M.DatedStep channel s s')
    (K : ∀ i, Dated.Ok (s.stations i).readings (s.shown i)) (i : ι) :
    Dated.Ok (s'.stations i).readings (s'.shown i) := by
  cases h with
  | @turn j inp d t hd ht hgps =>
      rcases eq_or_ne i j with rfl | hi
      · obtain ⟨own, hreadings, hown⟩ := Station.turn_readings ht
        have K' := (K i).shows (Gps.le_shows hgps)
        simp only [Function.update_self, hreadings]
        cases own with
        | none => simpa using K'
        | some g =>
            refine K'.append ?_
            intro hstamp
            rcases LoRaNode.broadcast_timestamp (hown g rfl) with hlt | ⟨hvalid, hts⟩
            · exact absurd hstamp (BitVec.not_le.2 hlt)
            · exact ⟨inp.gps, (hgps hvalid).1, hts, by rw [Gps.shows, if_pos hvalid]⟩
      · simp only [Function.update_of_ne hi]
        exact K i

/-- **What a node has broadcast is chronological** in every reachable state. -/
theorem Mesh.DatedReachable.ok (h : M.DatedReachable channel s) (i : ι) :
    Dated.Ok (s.stations i).readings (s.shown i) := by
  induction h generalizing i with
  | refl => exact ⟨by simp [Chronological, Dated.boot, Mesh.boot], by simp [Dated.boot, Mesh.boot]⟩
  | tail _ hstep ih => exact hstep.ok ih i

/-! ### So are the histories -/

/-- Every slot of every history is chronological. -/
def ChronologicalHistories (t : ι → Station ι) : Prop :=
  ∀ i, ∀ h ∈ (t i).node.nodeHistories, Chronological h.entries

theorem chronologicalHistories_of_uniqueWalks (hu : Flood.UniqueWalks M.hears)
    (hs : M.DatedReachable Flood.InOrder s) : ChronologicalHistories s.stations := by
  intro i h hh
  obtain ⟨y, -, hsub⟩ := orderedHistories_of_uniqueWalks hu hs.reachable i h hh
  rw [← chronological_map_reading]
  exact (chronological_map_reading.2 (hs.ok y).chronological).sublist hsub

/-! ### Where two walks meet -/

/-- An iteration for which it is time to broadcast, with what the GPS shows. -/
def LoRaNode.dueWith (node : LoRaNode) (gps : Gps) : LoopInput := { due node with gps := gps }

/-- What is broadcast then has the timestamp of the GPS. -/
theorem LoRaNode.broadcast_dueWith (curr_ID : BitVec 16) (node : LoRaNode) {gps : Gps}
    (hgps : gps.locationValid ∧ gps.altitudeValid) :
    ∃ g, (broadcast curr_ID node (dueWith node gps)).2 = .sent g ∧
      g.timestamp = convertToUnixTimestamp gps := by
  have helapsed : node.lastBroadcast + 5000 - node.lastBroadcast = 5000 := by bv_omega
  simp only [broadcast, dueWith, due, LoopInput.at, helapsed, hgps.1, hgps.2]
  exact ⟨_, rfl, rfl⟩

/-- A node broadcasts, with a given date. -/
theorem Mesh.DatedReachable.broadcast (h : M.DatedReachable channel s) (i : ι) (gps : Gps)
    (hvalid : gps.locationValid ∧ gps.altitudeValid)
    (hgps : gps.dateValid ∧ gps.timeValid → gps.InCalendar ∧ s.shown i ≤ gps.date) :
    ∃ s', M.DatedStep channel s s' ∧
      parties s'.stations = Function.update (parties s.stations) i
        ((parties s.stations i).originate i) ∧
      (∃ g, (s'.stations i).readings = (s.stations i).readings ++ [g] ∧
        g.timestamp = convertToUnixTimestamp gps) ∧
      s'.shown i = gps.shows (s.shown i) := by
  have C := Mesh.reachable_consistent h.reachable
  obtain ⟨g, hsent, hts⟩ :=
    LoRaNode.broadcast_dueWith (M.curr_ID i) (s.stations i).node hvalid
  obtain ⟨out, hout⟩ := C.loop_total i (LoRaNode.dueWith (s.stations i).node gps) none
  have hown := (LoRaNode.loop_own hout g).2 hsent
  have hturn : (s.stations i).turn (M.curr_ID i) i (LoRaNode.dueWith (s.stations i).node gps) none =
      some (Station.broadcast { s.stations i with node := out.node } i (some g)) := by
    simp [Station.turn, hout, hown]
  refine ⟨_, .turn (by simp) hturn hgps, ?_, ⟨g, ?_, hts⟩, ?_⟩
  · rw [parties_update, Station.party_broadcast]
    rfl
  · simp [Station.broadcast]
  · simp [LoRaNode.dueWith]

/-- A GPS that has a position and no date. -/
def Gps.undated : Gps := ⟨true, true, 0, 0, 0, false, false, 0, 0, 0, 0, 0, 0⟩

/-- Every event of the protocol is an iteration of the mesh in which the GPS shows no date. -/
theorem Mesh.DatedReachable.lift (h : M.DatedReachable channel s) {p : ι → Flood.Party ι}
    (hstep : Flood.Step M.hears channel (parties s.stations) p) :
    ∃ s', M.DatedStep channel s s' ∧ parties s'.stations = p := by
  have C := Mesh.reachable_consistent h.reachable
  cases hstep with
  | originate i =>
      obtain ⟨s', hs', hparties, -, -⟩ :=
        h.broadcast i .undated ⟨rfl, rfl⟩ (by simp [Gps.undated])
      exact ⟨s', hs', hparties⟩
  | @hear i j k c hij hk hc =>
      obtain ⟨x, hx, rfl⟩ : ∃ x, (s.stations j).sent[k]? = some x ∧ x.copy = c := by
        simpa [parties, Station.party] using hk
      have hd : M.Delivers channel s.stations i ⟨j, k, x⟩ := ⟨hij, hx, hc⟩
      obtain ⟨out, hout⟩ :=
        C.loop_total i (LoRaNode.quiet (s.stations i).node) (some x.packet)
      obtain ⟨hown, hlistened⟩ := LoRaNode.loop_quiet hout
      have hheard := (LoRaNode.loop_spec hout).2
      rw [if_pos hlistened] at hheard
      have hnone : out.relayed = none ↔ x.copy.origin = i := by
        rcases C.heard_cases hd hheard with ⟨ho, -, hr⟩ | ⟨ho, -, hr⟩
        · exact iff_of_true hr ho
        · exact iff_of_false (by simp [hr]) ho
      have hturn : (s.stations i).turn (M.curr_ID i) i (LoRaNode.quiet (s.stations i).node)
          (some ⟨j, k, x⟩) =
          some (Station.listen { s.stations i with node := out.node } i ⟨j, k, x⟩
            out.node.nodeHistories out.relayed) := by
        simp [Station.turn, hout, hown, hlistened, Station.broadcast_none]
      refine ⟨_, .turn (by simpa using hd) hturn (by simp [LoRaNode.quiet, LoopInput.at]), ?_⟩
      rw [parties_update, Station.party_listen _ hnone]
      rfl

/-- What a node has broadcast stays broadcast. -/
theorem Mesh.DatedStep.readings_mono (h : M.DatedStep channel s s') (i : ι) :
    (s.stations i).readings <+: (s'.stations i).readings := by
  cases h with
  | @turn j inp d t hd ht hgps =>
      rcases eq_or_ne i j with rfl | hi
      · obtain ⟨own, hreadings, -⟩ := Station.turn_readings ht
        simp only [Function.update_self, hreadings]
        exact List.prefix_append _ _
      · simp only [Function.update_of_ne hi]
        exact List.prefix_rfl

/-- Every continuation of a run in the protocol is one in the mesh. -/
theorem Mesh.DatedReachable.lift_steps (h : M.DatedReachable channel s) {p : ι → Flood.Party ι}
    (hsteps : Relation.ReflTransGen (Flood.Step M.hears channel) (parties s.stations) p) :
    ∃ s', M.DatedReachable channel s' ∧ parties s'.stations = p ∧
      ∀ i, (s.stations i).readings <+: (s'.stations i).readings := by
  induction hsteps with
  | refl => exact ⟨s, h, rfl, fun _ => List.prefix_rfl⟩
  | tail _ hstep ih =>
      obtain ⟨s₁, h₁, rfl, hmono⟩ := ih
      obtain ⟨s₂, h₂, hparties⟩ := h₁.lift hstep
      exact ⟨s₂, h₁.tail h₂, hparties, fun i => (hmono i).trans (h₂.readings_mono i)⟩

/-- If all that was stored is of one node, it is found in one slot. -/
theorem exists_slot {rs : List GPSData} {hs : List NodeHistory} {d : BitVec 32}
    (hrs : storeAll nodeHistories rs = some hs) (hne : rs ≠ []) (hids : ∀ r ∈ rs, r.nodeID = d) :
    ∃ h ∈ hs, h.entries = rs.rtake 50 := by
  have hall : withKey GPSData.nodeID d rs = rs :=
    List.filter_eq_self.2 fun r hr => decide_eq_true (hids r hr)
  obtain ⟨r, l, rfl⟩ := List.exists_cons_of_ne_nil hne
  have hkey : r.nodeID ∈ slotIDs (r :: l) := by
    simp [slotIDs, firstKeys, List.eraseDups_cons]
  obtain ⟨h, hh, hentries⟩ := (storeAll_exact hrs).slot hkey
  rw [hids r List.mem_cons_self, hall] at hentries
  exact ⟨h, hh, hentries⟩

omit [DecidableEq ι] in
/-- What a node has sent on for `o`, if it has sent nothing else, has the timestamps of what `o`
has broadcast. -/
theorem Consistent.timestamps {t : ι → Station ι} (C : Consistent M t) {y o : ι}
    (horigin : ∀ x ∈ (t y).sent, x.copy.origin = o) :
    (t y).sent.map (fun x => x.packet.timestamp) =
      ((t y).sent.map fun x => x.copy.seq).map fun k =>
        (((t o).readings.map GPSData.timestamp)[k]?).getD 0 := by
  rw [List.map_map]
  refine List.map_congr_left ?_
  intro x hx
  obtain ⟨r, hr, e⟩ := ((C y).packet x hx).2
  rw [horigin x hx] at hr
  have hts : x.packet.reading.timestamp = r.reading.timestamp := by rw [e]
  replace hts : x.packet.timestamp = r.timestamp := hts
  simp [hr, hts]

/-- Two dates of the GPS, one second apart. -/
def Gps.second₀ : Gps := ⟨true, true, 0, 0, 0, true, true, 2000, 1, 1, 0, 0, 0⟩

def Gps.second₁ : Gps := ⟨true, true, 0, 0, 0, true, true, 2000, 1, 1, 0, 0, 1⟩

theorem inCalendar_second₀ : Gps.second₀.InCalendar := by constructor <;> decide

theorem inCalendar_second₁ : Gps.second₁.InCalendar := by constructor <;> decide

/-- Where two walks meet, some node can be made to send on an older record after a newer one. -/
theorem exists_stale (hu : ¬ Flood.UniqueWalks M.hears) :
    ∃ s o y, M.DatedReachable Flood.InOrder s ∧ y ≠ o ∧
      (∀ x ∈ (s.stations y).sent, x.copy.origin = o) ∧
      (s.stations y).sent.map (fun x => x.packet.timestamp) =
        [convertToUnixTimestamp .second₀, convertToUnixTimestamp .second₁,
          convertToUnixTimestamp .second₀] := by
  have hopen : ∀ k, Flood.InOrder [] k := fun _ _ h => absurd h List.not_mem_nil
  have hnext : Flood.InOrder [0] 1 := by simp [Flood.InOrder]
  obtain ⟨o, y, p, hp, hy, horigin, hseq⟩ := Flood.exists_overtaken hopen hnext hu
  -- `o` broadcasts twice, and the rest of the run is that of the protocol
  have h₀ : M.DatedReachable Flood.InOrder Dated.boot := .refl
  have hnil : ([] : List ℕ) ≤ Gps.second₀.date := by decide
  obtain ⟨s₁, hs₁, hp₁, ⟨g₀, hg₀, hts₀⟩, hshown⟩ :=
    h₀.broadcast o .second₀ ⟨rfl, rfl⟩ fun _ => ⟨inCalendar_second₀, hnil⟩
  have h₁ : M.DatedReachable Flood.InOrder s₁ := h₀.tail hs₁
  have hle : Gps.second₀.date ≤ Gps.second₁.date := by decide
  obtain ⟨s₂, hs₂, hp₂, ⟨g₁, hg₁, hts₁⟩, -⟩ :=
    h₁.broadcast o .second₁ ⟨rfl, rfl⟩ fun _ => ⟨inCalendar_second₁, hshown ▸ hle⟩
  have h₂ : M.DatedReachable Flood.InOrder s₂ := h₁.tail hs₂
  have htwo : parties s₂.stations = Flood.twoMessages o := by
    rw [hp₂, hp₁, Function.update_self, Function.update_idem]
    rfl
  obtain ⟨s₃, h₃, rfl, hmono⟩ := h₂.lift_steps (htwo ▸ hp)
  have horigin' : ∀ x ∈ (s₃.stations y).sent, x.copy.origin = o := fun x hx =>
    horigin _ (List.mem_map_of_mem hx)
  have hseq' : (s₃.stations y).sent.map (fun x => x.copy.seq) = [0, 1, 0] := by
    simpa [parties, Station.party, Function.comp_def] using hseq
  have hreadings : (s₂.stations o).readings = [g₀, g₁] := by
    rw [hg₁, hg₀]
    rfl
  obtain ⟨l, hl⟩ := hmono o
  refine ⟨s₃, o, y, h₃, hy, horigin', ?_⟩
  rw [(Mesh.reachable_consistent h₃.reachable).timestamps horigin', hseq', ← hl, hreadings]
  simp [hts₀, hts₁]

/-- Where two walks meet, some node can be made to store an older record after a newer one. -/
theorem exists_unchronological (hu : ¬ Flood.UniqueWalks M.hears) :
    ∃ s, M.DatedReachable Flood.InOrder s ∧ ¬ ChronologicalHistories s.stations := by
  obtain ⟨s, o, y, hs, hy, horigin, hstamps⟩ := exists_stale hu
  have C := Mesh.reachable_consistent hs.reachable
  have hlength := congrArg List.length hstamps
  rw [List.length_map] at hlength
  -- the node has stored what it has sent, since it has sent nothing of its own
  have hrelays : (s.stations y).relays = (s.stations y).sent := by
    refine List.filter_eq_self.2 fun x hx => decide_eq_true fun hhops => hy ?_
    have hw := (Flood.reachable_inv hs.reachable.flood).walk y x.copy (List.mem_map_of_mem hx)
    rw [hhops, horigin x hx] at hw
    exact hw.end_eq .nil
  obtain ⟨rs, hrs, hreadings⟩ := (C y).history
  rw [hrelays] at hreadings
  have hrslen := congrArg List.length hreadings
  rw [List.length_map, List.length_map, hlength] at hrslen
  have hids : ∀ r ∈ rs, r.nodeID = M.nodeID o := by
    intro r hr
    obtain ⟨x, hx, e⟩ := exists_relay hreadings hr
    rw [GPSData.nodeID_eq_of_reading e, C.nodeID hx, horigin x hx]
  obtain ⟨h, hh, hentries⟩ :=
    exists_slot hrs (List.ne_nil_of_length_pos (by rw [hrslen]; simp)) hids
  rw [rtake_of_length_le (by rw [hrslen]; simp)] at hentries
  refine ⟨s, hs, fun H => ?_⟩
  have hmap : h.entries.map GPSData.timestamp =
      (s.stations y).sent.map fun x => x.packet.timestamp := by
    calc h.entries.map GPSData.timestamp
      _ = (rs.map GPSData.reading).map GPSData.timestamp := by
          rw [hentries, List.map_map]
          rfl
      _ = (s.stations y).sent.map fun x => x.packet.timestamp := by
          rw [hreadings, List.map_map]
          rfl
  have hchron := chronological_iff_map.1 (H y h hh)
  rw [hmap, hstamps, List.pairwise_cons, List.pairwise_pair] at hchron
  have hle := hchron.2 inCalendar_second₁.firstGpsStamp_le inCalendar_second₀.firstGpsStamp_le
  exact absurd ((stamp_le_iff inCalendar_second₁ inCalendar_second₀).1 hle) (by decide)

/-- **In every run in which no GPS goes back, every history is chronological, exactly when no two
walks meet** in the topology. -/
theorem chronological_histories_iff (M : Mesh ι) :
    (∀ s, M.DatedReachable Flood.InOrder s → ChronologicalHistories s.stations) ↔
      Flood.UniqueWalks M.hears := by
  constructor
  · intro h
    by_contra hu
    obtain ⟨s, hs, hnot⟩ := exists_unchronological hu
    exact hnot (h s hs)
  · intro hu s hs
    exact chronologicalHistories_of_uniqueWalks hu hs

end LoRaGPS
