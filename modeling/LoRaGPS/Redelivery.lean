/-
**Readings that are delivered again.**

A manifest that has no more pages than a page has rows is updated page by page: the loop over the
rows of a page does not leave it.  No row gets older then, no page changes its node, and once a
reading was taken in, row `0` of every page of its node is at least as new as the reading.  The
comparison stops at such a row, so that the reading changes nothing when it comes again, at once or
after others.

Main definitions:

* `LoRaGPS.Node0.Grows` — what the manifest keeps of what it was;
* `LoRaGPS.Node0.Settled` — a reading that is not newer than row `0` of any page of its node.

Main results:

* `LoRaGPS.Node0.addIncoming_pages` — **what adding a reading does to every page**;
* `LoRaGPS.Node0.Settled.addIncoming` — a settled reading changes nothing;
* `LoRaGPS.Node0.redelivery_harmless` — **a reading that is delivered twice in a row is as good as
  delivered once**, no row gets older and the pages of other nodes are left alone;
* `LoRaGPS.Node0.deliver_duplicate` — in a run of deliveries, a reading that was delivered before
  can be left out.
-/

import LoRaGPS.KnownPage

set_option relaxedAutoImplicit false
set_option autoImplicit false

namespace LoRaGPS

namespace Node0

open RowCursor

/-! ### What only grows -/

/-- From `m` to `m'` no row got older, and every page stayed with its node. -/
structure Grows (m m' : Manifest) : Prop where
  numofNodes : m'.numofNodes = m.numofNodes
  owner : ∀ q, (m'.rows.head q).nodeID = (m.rows.head q).nodeID
  newer : ∀ i, (m.rows i).number ≤ (m'.rows i).number

/-- The reading is not newer than row `0` of any page of its node. -/
def Settled (m : Manifest) (r : Information) : Prop :=
  ∀ q, Belongs m r.nodeID q → r.number ≤ (m.rows.head q).number

section Growing

variable {m m' m'' : Manifest} {r : Information}

theorem Grows.refl (m : Manifest) : Grows m m := ⟨rfl, fun _ => rfl, fun _ => le_rfl⟩

theorem Grows.trans (G : Grows m m') (G' : Grows m' m'') : Grows m m'' where
  numofNodes := G'.numofNodes.trans G.numofNodes
  owner q := (G'.owner q).trans (G.owner q)
  newer i := (G.newer i).trans (G'.newer i)

theorem Grows.belongs_iff (G : Grows m m') {nodeID : BitVec 8} {q : ℕ} :
    Belongs m' nodeID q ↔ Belongs m nodeID q := by
  rw [Belongs, Belongs, G.numofNodes, G.owner]

/-- What is settled stays settled. -/
theorem Settled.mono (S : Settled m r) (G : Grows m m') : Settled m' r := by
  intro q hq
  exact (S q (G.belongs_iff.1 hq)).trans (G.newer _)

end Growing

/-! ### One delivery -/

section Delivery

variable {m : Manifest} {r : Information} {p : ℕ}

/-- **What adding a reading does to every page**, if there are no more pages than rows: it is
compared with the rows of the pages of its node. -/
theorem addIncoming_pages (hn : m.numofNodes ≤ numofReadings) (hp : Belongs m r.nodeID p) :
    ∃ rows', addIncomingCurrInfoToMyManifest m r = some { m with rows := rows' } ∧
      ∀ q, ∀ j < numofReadings,
        (Belongs m r.nodeID q → rows' (q * numofReadings + j) =
          addToPage r m.numofNodes q m.rows (q * numofReadings + j)) ∧
        (¬ Belongs m r.nodeID q →
          rows' (q * numofReadings + j) = m.rows (q * numofReadings + j)) := by
  obtain ⟨rows', found, hscan, hfound, hrows'⟩ :=
    @scanPages_local r.nodeID _ m.numofNodes m.rows _ (fun _ _ => rfl) (pageLocal_addToPage r hn)
  obtain rfl : found = true := hfound.2 ⟨p, hp⟩
  refine ⟨rows', addIncoming_eq hscan, ?_⟩
  intro q j hj
  exact ⟨fun h => (hrows' q j hj).trans (if_pos h), fun h => (hrows' q j hj).trans (if_neg h)⟩

/-- **Adding a reading makes no row older, and settles it.** -/
theorem addIncoming_grows (hn : m.numofNodes ≤ numofReadings) (hp : Belongs m r.nodeID p) :
    ∃ m', addIncomingCurrInfoToMyManifest m r = some m' ∧ Grows m m' ∧ Settled m' r ∧
      ∀ q, ¬ Belongs m r.nodeID q → m'.rows.page q = m.rows.page q := by
  obtain ⟨rows', hadd, hrows'⟩ := addIncoming_pages hn hp
  have hfirst : 0 < numofReadings := by decide
  have howner : ∀ q, (rows' (q * numofReadings)).nodeID = (m.rows.head q).nodeID := by
    intro q
    obtain ⟨hown, hother⟩ := hrows' q 0 hfirst
    by_cases hq : Belongs m r.nodeID q
    · -- row `0` is kept, or the reading of the same node takes its place
      have hrow := congrArg Information.nodeID (hown hq)
      exact hrow.trans ((head_addToPage m.numofNodes hq.2).trans hq.2.symm)
    · exact congrArg Information.nodeID (hother hq)
  have hnewer : ∀ i, (m.rows i).number ≤ (rows' i).number := by
    intro i
    obtain ⟨q, j, hj, rfl⟩ := exists_page_row i
    obtain ⟨hown, hother⟩ := hrows' q j hj
    by_cases hq : Belongs m r.nodeID q
    · rw [hown hq]
      exact le_key_pass _ _ _ _ _
    · rw [hother hq]
  have G : Grows m { m with rows := rows' } := ⟨rfl, howner, hnewer⟩
  refine ⟨_, hadd, G, ?_, ?_⟩
  · intro q hq
    have hrow : rows' (q * numofReadings) = addToPage r m.numofNodes q m.rows (q * numofReadings) :=
      (hrows' q 0 hfirst).1 (G.belongs_iff.1 hq)
    change r.number ≤ (rows' (q * numofReadings)).number
    rw [hrow]
    exact key_le_pass_replicate _ hp.numofNodes_pos r m.rows
  · intro q hq
    exact page_congr fun j hj => (hrows' q j hj).2 hq

/-- **A settled reading changes nothing**: the comparison stops at row `0` of every page. -/
theorem Settled.addIncoming (S : Settled m r) (hn : m.numofNodes ≤ numofReadings)
    (hp : Belongs m r.nodeID p) : addIncomingCurrInfoToMyManifest m r = some m := by
  obtain ⟨rows', hadd, hrows'⟩ := addIncoming_pages hn hp
  have hsame : rows' = m.rows := by
    funext i
    obtain ⟨q, j, hj, rfl⟩ := exists_page_row i
    obtain ⟨hown, hother⟩ := hrows' q j hj
    by_cases hq : Belongs m r.nodeID q
    · have hstops : addToPage r m.numofNodes q m.rows = m.rows := by
        refine (pass_eq_self_iff _ _ _ _).2 ?_
        intro x hx
        rw [List.eq_of_mem_replicate hx]
        exact S q hq
      rw [hown hq, hstops]
    · exact hother hq
  rw [hadd, hsame]

/-- **A reading that is delivered twice in a row is as good as delivered once**, no row gets older,
and the pages of other nodes are left alone. -/
theorem redelivery_harmless (hn : m.numofNodes ≤ numofReadings) (hp : Belongs m r.nodeID p) :
    ∃ m', addIncomingCurrInfoToMyManifest m r = some m' ∧
      addIncomingCurrInfoToMyManifest m' r = some m' ∧
      (∀ i, (m.rows i).number ≤ (m'.rows i).number) ∧
      ∀ q, (m.rows.head q).nodeID ≠ r.nodeID → m'.rows.page q = m.rows.page q := by
  obtain ⟨m', hm', G, S, hothers⟩ := addIncoming_grows hn hp
  have hn' : m'.numofNodes ≤ numofReadings := G.numofNodes.trans_le hn
  refine ⟨m', hm', S.addIncoming hn' (G.belongs_iff.2 hp), G.newer, ?_⟩
  intro q hq
  exact hothers q fun h => hq h.2

end Delivery

/-- The reading `4` of node `1` comes twice; node `2` has the page `1`. -/
theorem redelivery_harmless_ascendingPage :
    ∃ m', addIncomingCurrInfoToMyManifest ascendingPage
        { Information.zero with readingID := 4, nodeID := 1 } = some m' ∧
      addIncomingCurrInfoToMyManifest m'
        { Information.zero with readingID := 4, nodeID := 1 } = some m' ∧
      (∀ i, (ascendingPage.rows i).number ≤ (m'.rows i).number) ∧
      ∀ q, (ascendingPage.rows.head q).nodeID ≠ 1 →
        m'.rows.page q = ascendingPage.rows.page q :=
  redelivery_harmless (r := { Information.zero with readingID := 4, nodeID := 1 })
    (by decide) onlyPage_ascendingPage.1

/-! ### Runs of deliveries -/

section Run

variable {m : Manifest} {rs : List Information}

/-- After a run, everything that was delivered in it is settled. -/
theorem deliver_grows (hn : m.numofNodes ≤ numofReadings)
    (hrs : ∀ r ∈ rs, ∃ p, Belongs m r.nodeID p) :
    ∃ m', deliver m rs = some m' ∧ Grows m m' ∧ ∀ r ∈ rs, Settled m' r := by
  induction rs using List.reverseRecOn with
  | nil => exact ⟨m, rfl, Grows.refl m, by simp⟩
  | append_singleton rs r ih =>
      obtain ⟨hold, hnew⟩ := List.forall_mem_append.1 hrs
      obtain ⟨m', hm', G, S⟩ := ih hold
      obtain ⟨p, hp⟩ := hnew r (List.mem_singleton_self r)
      have hn' : m'.numofNodes ≤ numofReadings := G.numofNodes.trans_le hn
      obtain ⟨m'', hm'', G', S', -⟩ := addIncoming_grows hn' (G.belongs_iff.2 hp)
      refine ⟨m'', ?_, G.trans G', ?_⟩
      · rw [deliver_append, hm', Option.bind_some, deliver_singleton, hm'']
      · rw [List.forall_mem_append, List.forall_mem_singleton]
        exact ⟨fun x hx => (S x hx).mono G', S'⟩

/-- **A reading that was delivered before can be left out of a run.** -/
theorem deliver_duplicate (hn : m.numofNodes ≤ numofReadings)
    (hrs : ∀ r ∈ rs, ∃ p, Belongs m r.nodeID p) {r : Information} (hr : r ∈ rs)
    (later : List Information) : deliver m (rs ++ r :: later) = deliver m (rs ++ later) := by
  obtain ⟨m', hm', G, S⟩ := deliver_grows hn hrs
  obtain ⟨p, hp⟩ := hrs r hr
  have hagain : addIncomingCurrInfoToMyManifest m' r = some m' :=
    (S r hr).addIncoming (G.numofNodes.trans_le hn) (G.belongs_iff.2 hp)
  rw [deliver_append, deliver_append, hm', Option.bind_some, Option.bind_some, deliver_cons,
    hagain, Option.bind_some]

end Run

end Node0

end LoRaGPS
