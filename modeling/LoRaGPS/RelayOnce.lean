/-
**How often a mesh relays one broadcast.**

The code tests that the last hop of a packet is another node before it sends the packet on.  The
test is always passed, since every node that sends a packet on makes itself its last hop, and
nothing else keeps a node from relaying one broadcast again and again.  Whether it does depends on
the topology alone: three nodes that hear each other are enough.

Main definitions:

* `LoRaGPS.Station.retransmissions`, `LoRaGPS.Station.transmissions` — how often a node has sent a
  broadcast on, and how often it has sent it at all;
* `LoRaGPS.RelaysOnce` — every node has relayed every broadcast at most once.

Main results:

* `LoRaGPS.exists_second_relay` — where two walks meet, some node can be made to relay a broadcast
  twice;
* `LoRaGPS.relays_once_iff` — **a mesh relays once in every reachable state exactly when no two
  walks meet** in its topology.
-/

import LoRaGPS.Mesh

set_option relaxedAutoImplicit false
set_option autoImplicit false

namespace LoRaGPS

variable {ι : Type}

/-- With a single broadcast about, all that another node has sent are relays. -/
theorem relays_of_spread [Fintype ι] {M : Mesh ι} {t : ι → Station ι} {o y : ι}
    (I : Flood.Inv M.hears (parties t)) (S : Flood.Spread o (parties t)) (hy : y ≠ o) :
    (t y).relays = (t y).sent := by
  refine List.filter_eq_self.2 ?_
  intro x hx
  rw [decide_eq_true_eq]
  intro hhops
  have hmem : x.copy ∈ (parties t y).sent := List.mem_map_of_mem hx
  have hw := I.walk y x.copy hmem
  rw [hhops, (S.single y x.copy hmem).1] at hw
  exact hy (hw.end_eq .nil)

variable [DecidableEq ι]

/-- How often a station has sent on the `n`-th broadcast of `o`. -/
def Station.retransmissions (s : Station ι) (o : ι) (n : ℕ) : ℕ :=
  s.relays.countP fun x => x.copy.origin = o ∧ x.copy.seq = n

/-- How often a station has sent the `n`-th broadcast of `o`, the broadcast itself included. -/
def Station.transmissions (s : Station ι) (o : ι) (n : ℕ) : ℕ :=
  s.sent.countP fun x => x.copy.origin = o ∧ x.copy.seq = n

theorem Station.retransmissions_le (s : Station ι) (o : ι) (n : ℕ) :
    s.retransmissions o n ≤ s.transmissions o n :=
  List.Sublist.countP_le List.filter_sublist

theorem Station.transmissions_eq (s : Station ι) (o : ι) (n : ℕ) :
    s.transmissions o n = s.party.sent.countP fun c => c.origin = o ∧ c.seq = n := by
  rw [Station.transmissions, Station.party, List.countP_map]
  rfl

variable [Fintype ι]

/-- Every node has sent every broadcast on at most once, and there are at most as many
transmissions of it as nodes. -/
structure RelaysOnce (t : ι → Station ι) : Prop where
  once : ∀ i o n, (t i).retransmissions o n ≤ 1
  total : ∀ o n, ∑ i, (t i).transmissions o n ≤ Fintype.card ι

/-- Where no two walks meet, every reachable state relays once. -/
theorem relaysOnce_of_uniqueWalks {M : Mesh ι} (hu : Flood.UniqueWalks M.hears)
    {t : ι → Station ι} (ht : M.Reachable Flood.AtMostOnce t) : RelaysOnce t := by
  have hone : ∀ i o n, (t i).transmissions o n ≤ 1 := by
    intro i o n
    rw [Station.transmissions_eq]
    exact Flood.countP_sent_le_one hu (fun _ _ h => h) ht.flood i o n
  constructor
  · intro i o n
    exact ((t i).retransmissions_le o n).trans (hone i o n)
  · intro o n
    calc ∑ i, (t i).transmissions o n ≤ ∑ _i : ι, 1 := Finset.sum_le_sum fun i _ => hone i o n
      _ = Fintype.card ι := by simp

/-- Where two walks meet, **some node can be made to relay a broadcast twice**. -/
theorem exists_second_relay {M : Mesh ι} (hu : ¬ Flood.UniqueWalks M.hears) :
    ∃ t, M.Reachable Flood.AtMostOnce t ∧ ∃ i o, 2 ≤ (t i).retransmissions o 0 := by
  have hopen : ∀ k, Flood.AtMostOnce [] k := fun _ => List.not_mem_nil
  obtain ⟨o, y, s, hs, S, hy, hlen⟩ := Flood.exists_second_copy hopen hu
  obtain ⟨t, ht, rfl⟩ := Mesh.reachable_iff.1 hs
  refine ⟨t, ht, y, o, ?_⟩
  have hall : (t y).retransmissions o 0 = (t y).sent.length := by
    rw [Station.retransmissions, relays_of_spread (Flood.reachable_inv hs) S hy,
      List.countP_eq_length]
    intro x hx
    exact decide_eq_true (S.single y x.copy (List.mem_map_of_mem hx))
  rw [hall]
  simpa [parties, Station.party] using hlen

/-- **A mesh relays every broadcast at most once, in every reachable state, exactly when no two
walks meet in its topology.** -/
theorem relays_once_iff (M : Mesh ι) :
    (∀ t, M.Reachable Flood.AtMostOnce t → RelaysOnce t) ↔ Flood.UniqueWalks M.hears := by
  constructor
  · intro h
    by_contra hu
    obtain ⟨t, ht, i, o, htwo⟩ := exists_second_relay hu
    exact absurd ((h t ht).once i o 0) (by omega)
  · intro hu t ht
    exact relaysOnce_of_uniqueWalks hu ht

/-- Three nodes in a row relay once, whatever the order of their iterations. -/
theorem relays_once_chain :
    ∀ t, Mesh.chain.Reachable Flood.AtMostOnce t → RelaysOnce t :=
  (relays_once_iff Mesh.chain).2 Mesh.chain_uniqueWalks

/-- Two nodes that hear the broadcast of a third one, and then each other: the second node sends
it on twice. -/
theorem triangle_relays_twice : ∃ t, Mesh.triangle.Reachable Flood.AtMostOnce t ∧
    (t 1).retransmissions 0 0 = 2 ∧ ¬ RelaysOnce t := by
  have hplay : ((Mesh.triangle.play Flood.AtMostOnce
      [⟨0, exampleInput true, none⟩, ⟨1, exampleInput false, some (0, 0)⟩,
        ⟨2, exampleInput false, some (0, 0)⟩, ⟨1, exampleInput false, some (2, 0)⟩]).map
      fun t => (t 1).retransmissions 0 0) = some 2 := by decide +kernel
  obtain ⟨t, ht, htwo⟩ := Option.map_eq_some_iff.1 hplay
  refine ⟨t, Mesh.reachable_of_play ht, htwo, ?_⟩
  intro h
  exact absurd (h.once 1 0 0) (by omega)

end LoRaGPS
