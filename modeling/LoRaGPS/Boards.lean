/-
**Boards that are told apart by their serial words.**

A board takes its ID from a 32-bit word of its serial number, but keeps it in 16 bits; the records
carry IDs of 32 bits again.  Boards whose words agree in the low half have one ID.  A fleet without
such boards is a mesh in the sense of `LoRaGPS.Mesh`, and as long as a node hears of at most ten
others each of these has a history slot of its own.

Main definitions:

* `LoRaGPS.Fleet` — boards with distinct serial words, and the runs of a fleet in which any packet
  may reach any other board, at any time and any number of times;
* `LoRaGPS.Fleet.NeverConfused` — what a board does with the packets of the others.

Main results:

* `LoRaGPS.storeAll_snoc` — the slot of a record that is stored;
* `LoRaGPS.Fleet.kept` — **a packet of another board is stored with the readings of that board**;
* `LoRaGPS.never_confused_iff` — **up to eleven boards are never confused exactly if the low halves
  of their serial words are distinct**.
-/

import LoRaGPS.Provenance
import Mathlib.Data.Fin.VecNotation
import Mathlib.Data.Fintype.Card

set_option relaxedAutoImplicit false
set_option autoImplicit false

namespace LoRaGPS

open KeyedLog

/-! ### The slot of a record -/

/-- A record of a node that has a slot once it is stored is appended to the log of that slot. -/
theorem storeAll_snoc {rs : List GPSData} {hs hs' : List NodeHistory} {r : GPSData}
    (hrs : storeAll nodeHistories rs = some hs) (hstore : storePosition hs r = some hs')
    (hr : r.nodeID ∈ slotIDs (rs ++ [r])) :
    ∃ (i : ℕ) (h h' : NodeHistory), hs[i]? = some h ∧ hs'[i]? = some h' ∧
      h.entries = (withKey GPSData.nodeID r.nodeID rs).rtake 50 ∧
      h'.entries = push 50 h.entries r := by
  have hrs' : storeAll nodeHistories (rs ++ [r]) = some hs' := by
    rw [storeAll_append, hrs, Option.bind_some, hstore]
  have E := storeAll_exact hrs
  have E' := storeAll_exact hrs'
  obtain ⟨i, hi⟩ := List.getElem?_of_mem hr
  obtain ⟨h', hh', -, hentries'⟩ := E'.used i _ hi
  have hlt : i < hs.length := by
    rw [E.slots, ← E'.slots]
    exact (List.getElem?_eq_some_iff.1 hh').1
  have hh : hs[i]? = some hs[i] := List.getElem?_eq_getElem hlt
  have hentries : hs[i].entries = (withKey GPSData.nodeID r.nodeID rs).rtake 50 := by
    rcases Nat.lt_or_ge i (slotIDs rs).length with hused | hunused
    · -- the slot was in use before
      have hpre : slotIDs rs <+: slotIDs (rs ++ [r]) :=
        (firstKeys_mono (List.prefix_append rs [r])).take 10
      have hd : (slotIDs rs)[i]? = some r.nodeID := by
        rw [← hi, List.prefix_iff_getElem?.1 hpre i hused]
        exact List.getElem?_eq_getElem hused
      obtain ⟨h, hh₁, -, hentries⟩ := E.used i _ hd
      obtain rfl := Option.some_inj.1 (hh.symm.trans hh₁)
      exact hentries
    · -- the slot is opened, and no record of the node was stored before
      have hnone : withKey GPSData.nodeID r.nodeID rs = [] := by
        rw [List.eq_nil_iff_forall_not_mem]
        intro g hg
        have hmem : r.nodeID ∈ firstKeys GPSData.nodeID rs :=
          mem_firstKeys.2 ⟨g, mem_withKey.1 hg⟩
        have hsame : slotIDs (rs ++ [r]) = slotIDs rs := by
          rw [slotIDs, firstKeys_append, if_pos hmem, slotIDs]
        rw [hsame] at hi
        exact absurd (List.getElem?_eq_some_iff.1 hi).1 (by omega)
      rw [NodeHistory.entries, E.unused i _ hh hunused, hnone]
      rfl
  refine ⟨i, hs[i], h', hh, hh', hentries, ?_⟩
  rw [hentries', hentries, push_rtake, withKey_append, if_pos rfl]

/-! ### Fleets -/

/-- Boards with the 32-bit words at `0x0080A00C`, which are distinct. -/
structure Fleet (ι : Type) where
  serial : ι → BitVec 32
  distinct : Function.Injective serial

variable {ι : Type}

/-- `curr_ID`: the word as an `uint16_t`. -/
def Fleet.curr_ID (F : Fleet ι) (b : ι) : BitVec 16 := (F.serial b).setWidth 16

namespace Fleet

variable [DecidableEq ι] (F : Fleet ι)

/-- One iteration of one board.  It may receive any packet that another board has sent. -/
inductive Step (t : ι → Station ι) : (ι → Station ι) → Prop
  | turn {i : ι} {inp : LoopInput} {d : Option (Delivery ι)} {s : Station ι}
      (hd : ∀ e ∈ d, i ≠ e.source ∧ (t e.source).sent[e.place]? = some e.transmission)
      (hs : (t i).turn (F.curr_ID i) i inp d = some s) : Step t (Function.update t i s)

/-- The states that some order of iterations and deliveries leads to. -/
def Reachable (t : ι → Station ι) : Prop := Relation.ReflTransGen F.Step Mesh.boot t

/-- The board `A` has kept a packet of the board `B`: it did not take it for its own, and appended
it to a history slot that contains readings of `B` only. -/
structure Kept (t : ι → Station ι) (A B : ι) (packet : GPSData) (out : LoRaNode.LoopOut) :
    Prop where
  foreign : packet.nodeID ≠ intID (F.curr_ID A)
  slot : ∃ (i : ℕ) (h h' : NodeHistory), (t A).node.nodeHistories[i]? = some h ∧
    out.node.nodeHistories[i]? = some h' ∧ h'.entries = push 50 h.entries packet ∧
    ∀ g ∈ h'.entries, ∃ r ∈ (t B).readings, g.reading = r.reading

/-- In every run, whatever packet of a board reaches another board that listens is kept. -/
def NeverConfused : Prop :=
  ∀ t, F.Reachable t → ∀ (A : ι) (d : Delivery ι) (inp : LoopInput), A ≠ d.source →
    (t d.source).sent[d.place]? = some d.transmission → d.transmission.copy.origin ≠ A →
    ∃ out, LoRaNode.loop (F.curr_ID A) (t A).node inp (some d.transmission.packet) = some out ∧
      (out.listened → F.Kept t A d.transmission.copy.origin d.transmission.packet out)

end Fleet

/-! ### A fleet with distinct IDs is a mesh -/

section Distinct

variable {F : Fleet ι}

/-- The boards of a fleet as the nodes of a mesh in which everyone hears everyone else. -/
def Fleet.mesh (F : Fleet ι) (hF : Function.Injective F.curr_ID) : Mesh ι where
  curr_ID := F.curr_ID
  distinct := hF
  hears i j := i ≠ j
  deaf _ := fun h => h rfl

variable [DecidableEq ι] {t : ι → Station ι}

/-- Every run of the fleet is a run of the mesh. -/
theorem Fleet.Reachable.mesh (hF : Function.Injective F.curr_ID) (ht : F.Reachable t) :
    (F.mesh hF).Reachable Flood.AnyOrder t := by
  induction ht with
  | refl => exact .refl
  | tail _ hstep ih =>
      cases hstep with
      | turn hd hs =>
          refine ih.tail (.turn (fun e he => ?_) hs)
          exact ⟨(hd e he).1, (hd e he).2, trivial⟩

/-- What a node has stored was broadcast by another one. -/
theorem Mesh.Reachable.stored_origin {M : Mesh ι} {channel : List ℕ → ℕ → Prop}
    (ht : M.Reachable channel t) {A : ι} {rs : List GPSData}
    (hrs : rs.map GPSData.reading = (t A).relays.map fun x => x.packet.reading) {g : GPSData}
    (hg : g ∈ rs) :
    ∃ y, y ≠ A ∧ g.nodeID = M.nodeID y ∧ ∃ r ∈ (t y).readings, g.reading = r.reading := by
  have C := Mesh.reachable_consistent ht
  obtain ⟨x, hx, e⟩ := exists_relay hrs hg
  have hsent : x ∈ (t A).sent := List.mem_of_mem_filter hx
  obtain ⟨r, hr, e'⟩ := ((C A).packet x hsent).2
  refine ⟨x.copy.origin, ht.origin_ne hx, ?_, r, List.mem_of_getElem? hr, e.trans e'⟩
  rw [GPSData.nodeID_eq_of_reading e, C.nodeID hsent]

/-- A node of at most eleven has a slot for each of the others. -/
theorem mem_slotIDs_of_card [Fintype ι] (hcard : Fintype.card ι ≤ 11) {M : Mesh ι} {A : ι}
    {rs : List GPSData} (h : ∀ g ∈ rs, ∃ y, y ≠ A ∧ g.nodeID = M.nodeID y) {r : GPSData}
    (hr : r ∈ rs) : r.nodeID ∈ slotIDs rs := by
  have hsub : (firstKeys GPSData.nodeID rs).toFinset ⊆ (Finset.univ.erase A).image M.nodeID := by
    intro d hd
    obtain ⟨g, hg, rfl⟩ := mem_firstKeys.1 (List.mem_toFinset.1 hd)
    obtain ⟨y, hy, e⟩ := h g hg
    exact Finset.mem_image.2 ⟨y, Finset.mem_erase.2 ⟨hy, Finset.mem_univ y⟩, e.symm⟩
  have hlen : (firstKeys GPSData.nodeID rs).length ≤ 10 := by
    calc (firstKeys GPSData.nodeID rs).length
        = (firstKeys GPSData.nodeID rs).toFinset.card :=
          (List.toFinset_card_of_nodup (nodup_firstKeys rs)).symm
      _ ≤ ((Finset.univ.erase A).image M.nodeID).card := Finset.card_le_card hsub
      _ ≤ (Finset.univ.erase A).card := Finset.card_image_le
      _ = Fintype.card ι - 1 := by
          rw [Finset.card_erase_of_mem (Finset.mem_univ A), Finset.card_univ]
      _ ≤ 10 := by omega
  rw [slotIDs, List.take_of_length_le hlen]
  exact mem_firstKeys.2 ⟨r, hr, rfl⟩

/-- **A packet of another board is stored with the readings of that board**, in a fleet of at most
eleven with distinct IDs. -/
theorem Fleet.kept [Fintype ι] (hF : Function.Injective F.curr_ID) (hcard : Fintype.card ι ≤ 11)
    (ht : F.Reachable t) {A : ι} {d : Delivery ι} (hsource : A ≠ d.source)
    (hd : (t d.source).sent[d.place]? = some d.transmission)
    (horigin : d.transmission.copy.origin ≠ A) {inp : LoopInput} {out : LoRaNode.LoopOut}
    (hout : LoRaNode.loop (F.curr_ID A) (t A).node inp (some d.transmission.packet) = some out)
    (hlistened : out.listened) :
    F.Kept t A d.transmission.copy.origin d.transmission.packet out := by
  have hmesh := Fleet.Reachable.mesh hF ht
  have C := Mesh.reachable_consistent hmesh
  have hsent := List.mem_of_getElem? hd
  have hid := C.nodeID hsent
  have hforeign : d.transmission.packet.nodeID ≠ intID (F.curr_ID A) := by
    rw [hid]
    intro e
    exact horigin ((F.mesh hF).nodeID_inj.1 e)
  have hheard := (LoRaNode.loop_spec hout).2
  rw [if_pos hlistened] at hheard
  have hdel : (F.mesh hF).Delivers Flood.AnyOrder t A d := ⟨hsource, hd, trivial⟩
  obtain ⟨-, hstore, -⟩ := (C.heard_cases hdel hheard).resolve_left fun h => horigin h.1
  obtain ⟨rs, hrs, hreadings⟩ := (C A).history
  obtain ⟨r, hr, hreading⟩ := ((C d.source).packet _ hsent).2
  -- everything stored so far, and the packet, goes back to another board
  have hall : ∀ g ∈ rs ++ [d.transmission.packet], ∃ y, y ≠ A ∧
      g.nodeID = (F.mesh hF).nodeID y ∧ ∃ r ∈ (t y).readings, g.reading = r.reading := by
    intro g hg
    rcases List.mem_append.1 hg with hg | hg
    · exact hmesh.stored_origin hreadings hg
    · obtain rfl := List.mem_singleton.1 hg
      exact ⟨_, horigin, hid, r, List.mem_of_getElem? hr, hreading⟩
  have hslot : d.transmission.packet.nodeID ∈ slotIDs (rs ++ [d.transmission.packet]) := by
    refine mem_slotIDs_of_card hcard (M := F.mesh hF) (A := A) ?_ (by simp)
    intro g hg
    obtain ⟨y, hy, e, -⟩ := hall g hg
    exact ⟨y, hy, e⟩
  obtain ⟨i, h, h', hh, hh', hentries, hentries'⟩ := storeAll_snoc hrs hstore hslot
  refine ⟨hforeign, i, h, h', hh, hh', hentries', ?_⟩
  intro g hg
  have hmem : g ∈ rs ++ [d.transmission.packet] ∧ g.nodeID = d.transmission.packet.nodeID := by
    rw [hentries', hentries] at hg
    rcases mem_push hg with hg | rfl
    · obtain ⟨hg, e⟩ := mem_withKey.1 (mem_of_mem_rtake hg)
      exact ⟨List.mem_append_left _ hg, e⟩
    · exact ⟨by simp, rfl⟩
  obtain ⟨y, -, e, hy⟩ := hall g hmem.1
  have hB : d.transmission.copy.origin = y :=
    (F.mesh hF).nodeID_inj.1 (hid.symm.trans (hmem.2.symm.trans e))
  rw [hB]
  exact hy

end Distinct

/-! ### Boards with the same ID -/

/-- A board with the same ID takes the first broadcast of another for its own. -/
theorem Fleet.confused [DecidableEq ι] {F : Fleet ι} {A B : ι} (hne : A ≠ B)
    (hID : F.curr_ID A = F.curr_ID B) : ¬ F.NeverConfused := by
  intro H
  have hboot : Represents LoRaNode.boot.nodeHistories [] := represents_nodeHistories
  obtain ⟨out, hout⟩ :=
    LoRaNode.loop_total hboot (F.curr_ID B) (LoRaNode.due LoRaNode.boot) none
  obtain ⟨g, hg⟩ := LoRaNode.loop_due hout
  have hgid := ((LoRaNode.loop_spec hout).1 g hg).1
  -- `B` is switched on and broadcasts, which `A` receives while it waits
  have hturn : (Mesh.boot B).turn (F.curr_ID B) B (LoRaNode.due LoRaNode.boot) none =
      some (Station.broadcast { Mesh.boot B with node := out.node } B (some g)) := by
    simp only [Station.turn, Mesh.boot, Option.map_none, hout, Option.bind_some, hg]
  have hstep : F.Step Mesh.boot (Function.update Mesh.boot B
      (Station.broadcast { Mesh.boot B with node := out.node } B (some g))) :=
    .turn (by simp) hturn
  obtain ⟨out', hout', hkept⟩ := H _ (.single hstep) A ⟨B, 0, ⟨⟨B, 0, []⟩, g⟩⟩
    (LoRaNode.quiet LoRaNode.boot) hne (by simp [Station.broadcast, Mesh.boot]) hne.symm
  rw [Function.update_of_ne hne] at hout'
  have hforeign := (hkept (LoRaNode.loop_quiet hout').2).foreign
  exact hforeign (hgid.trans (by rw [hID]))

/-- **Up to eleven boards are never confused exactly if the low halves of their serial words are
distinct.** -/
theorem never_confused_iff [Fintype ι] [DecidableEq ι] (F : Fleet ι)
    (hcard : Fintype.card ι ≤ 11) :
    F.NeverConfused ↔ Function.Injective fun b => (F.serial b).setWidth 16 := by
  constructor
  · intro H A B hID
    by_contra hne
    exact Fleet.confused hne hID H
  · intro hF t ht A d inp hsource hd horigin
    obtain ⟨out, hout⟩ := (Mesh.reachable_consistent (Fleet.Reachable.mesh hF ht)).loop_total A inp
      (some d.transmission.packet)
    exact ⟨out, hout, fun hlistened => Fleet.kept hF hcard ht hsource hd horigin hout hlistened⟩

/-- Three boards, two of which agree in the high half of their serial words. -/
theorem never_confused_three :
    Fleet.NeverConfused ⟨![0x00010001, 0x00010002, 0x00020003], by decide⟩ :=
  (never_confused_iff ⟨![0x00010001, 0x00010002, 0x00020003], by decide⟩ (by decide)).2 (by decide)

/-- Two boards that agree in the low half: each has the ID 1. -/
theorem confused_low_half :
    ¬ Fleet.NeverConfused ⟨![0x00010001, 0x00020001], by decide⟩ :=
  Fleet.confused (A := 0) (B := 1) (by decide) (by decide)

end LoRaGPS
