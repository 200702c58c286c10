/-
**How often a flooded message is transmitted.**

A copy of a flooded message travels along a walk that never comes back to the origin, and no party
transmits the copies of two walks as one.  Conversely every such walk can be travelled, and all of
finitely many walks in one run, so the transmissions of a message by a party can be as many as there
are walks to it, and no more.  There are finitely many walks exactly if none of them comes to a
party twice.  Once everything was heard by everyone in range, every walk was travelled.

Main definitions:

* `Flood.walks` — the walks from an origin to a party;
* `Flood.Answered` — what was originated and heard was transmitted;
* `Flood.Settled` — everything was heard by everyone in range.

Main results:

* `Flood.finite_walks_iff` — **there are finitely many walks exactly if no walk repeats a party**;
* `Flood.exists_travelled` — every walk can be travelled;
* `Flood.countP_sent_le_iff` — **the worst case is the number of walks**;
* `Flood.Settled.countP_sent` — **in a settled state it is the number of walks**.
-/

import LoRaGPS.Flood
import Mathlib.Data.Fintype.List
import Mathlib.Data.Set.Card

set_option relaxedAutoImplicit false
set_option autoImplicit false

namespace Flood

variable {ι : Type}

/-! ### The walks to a party -/

/-- The walks from `o` to `x` that never come back to `o`. -/
def walks (hears : ι → ι → Prop) (o x : ι) : Set (List ι) := {p | Walk hears o p x}

section Walks

variable {hears : ι → ι → Prop} {o : ι}

@[simp] theorem mem_walks {p : List ι} {x : ι} : p ∈ walks hears o x ↔ Walk hears o p x := Iff.rfl

/-- The origin is reached by staying there, and by no other walk. -/
@[simp] theorem walks_self : walks hears o o = {[]} := by
  ext p
  constructor
  · intro w
    exact Walk.eq_nil w
  · rintro rfl
    exact Walk.nil

/-- A walk has reached every party it lists. -/
theorem Walk.drop {p q : List ι} {x y : ι} (w : Walk hears o (q ++ y :: p) x) :
    Walk hears o (y :: p) y := by
  induction q generalizing x with
  | nil =>
      cases w with
      | cons w hyx hy => exact w.cons hyx hy
  | cons z q ih =>
      cases w with
      | cons w _ _ => exact ih w

/-- The beginning of a walk can be replaced by another walk to the same place. -/
theorem Walk.splice {p p' q : List ι} {x y : ι} (w : Walk hears o (q ++ y :: p) x)
    (w' : Walk hears o (y :: p') y) : Walk hears o (q ++ y :: p') x := by
  induction q generalizing x with
  | nil =>
      cases w with
      | cons => exact w'
  | cons z q ih =>
      cases w with
      | cons w hzx hz => exact (ih w).cons hzx hz

/-- The walk with the part `y :: q` walked `m` more times. -/
def laps (y : ι) (q p : List ι) : ℕ → List ι
  | 0 => p
  | m + 1 => q ++ y :: laps y q p m

theorem length_laps (y : ι) (q p : List ι) (m : ℕ) :
    (laps y q p m).length = p.length + m * (q.length + 1) := by
  induction m with
  | zero => simp [laps]
  | succ m ih =>
      simp only [laps, List.length_append, List.length_cons, ih, Nat.succ_mul]
      omega

/-- A party that a walk comes to twice can be walked to in any number of ways. -/
theorem Walk.infinite {p q r : List ι} {x y : ι} (w : Walk hears o (r ++ y :: (q ++ y :: p)) x) :
    (walks hears o y).Infinite := by
  have hback : Walk hears o ((y :: q) ++ y :: p) y := w.drop
  have hlaps : ∀ m, Walk hears o (y :: laps y q p m) y := by
    intro m
    induction m with
    | zero => exact hback.drop
    | succ m ih => exact hback.splice ih
  have hinj : Function.Injective fun m => y :: laps y q p m := by
    intro m m' h
    have hlen := congrArg List.length h
    simpa [length_laps] using hlen
  exact Set.infinite_of_injective_forall_mem hinj hlaps

theorem exists_repeated {l : List ι} (h : ¬ l.Nodup) : ∃ r y q p, l = r ++ y :: (q ++ y :: p) := by
  induction l with
  | nil => exact absurd List.nodup_nil h
  | cons z l ih =>
      by_cases hz : z ∈ l
      · obtain ⟨q, p, rfl⟩ := List.append_of_mem hz
        exact ⟨[], z, q, p, rfl⟩
      · obtain ⟨r, y, q, p, rfl⟩ := ih fun hl => h (List.nodup_cons.2 ⟨hz, hl⟩)
        exact ⟨z :: r, y, q, p, rfl⟩

/-- **There are finitely many walks from `o` exactly if no walk comes to a party twice.** -/
theorem finite_walks_iff [Finite ι] :
    (∀ x, (walks hears o x).Finite) ↔ ∀ p x, Walk hears o p x → p.Nodup := by
  constructor
  · intro hfinite p x w
    by_contra hp
    obtain ⟨r, y, q, p, rfl⟩ := exists_repeated hp
    exact w.infinite (hfinite y)
  · intro hnodup x
    classical
    have := Fintype.ofFinite ι
    have hall : {p : List ι | p.Nodup}.Finite :=
      Set.finite_coe_iff.1 (inferInstanceAs (Finite {p : List ι // p.Nodup}))
    exact hall.subset fun p w => hnodup p x w

/-- Where no two walks meet, no walk comes to a party twice. -/
theorem UniqueWalks.nodup (hu : UniqueWalks hears) {p : List ι} {x : ι} (w : Walk hears o p x) :
    p.Nodup := by
  by_contra hp
  obtain ⟨r, y, q, p, rfl⟩ := exists_repeated hp
  have hback : Walk hears o ((y :: q) ++ y :: p) y := w.drop
  have hlen := congrArg List.length (hu o _ _ y hback hback.drop)
  simp only [List.length_append, List.length_cons] at hlen
  omega

end Walks

/-! ### Lists and sets -/

/-- Different members of a set are no more than it has. -/
theorem length_le_encard {α : Type} {l : List α} {s : Set α} (hl : l.Nodup) (hs : ∀ a ∈ l, a ∈ s) :
    (l.length : ℕ∞) ≤ s.encard := by
  classical
  have hsub : (l.toFinset : Set α) ⊆ s := by simpa [Set.subset_def] using hs
  calc (l.length : ℕ∞) = (l.toFinset : Set α).encard := by
        rw [Set.encard_coe_eq_coe_finsetCard, List.toFinset_card_of_nodup hl]
    _ ≤ s.encard := Set.encard_le_encard hsub

/-- A list in which a whole set occurs is no shorter than the set is large. -/
theorem encard_le_length {α : Type} {l : List α} {s : Set α} (hs : ∀ a ∈ s, a ∈ l) :
    s.encard ≤ l.length := by
  classical
  have hsub : s ⊆ (l.toFinset : Set α) := by simpa [Set.subset_def] using hs
  calc s.encard ≤ (l.toFinset : Set α).encard := Set.encard_le_encard hsub
    _ = l.toFinset.card := Set.encard_coe_eq_coe_finsetCard _
    _ ≤ l.length := by exact_mod_cast l.toFinset_card_le

/-! ### What was heard was answered -/

/-- Every message that a party has originated is among its transmissions, and so is the relay of
everything it has heard of another party. -/
structure Answered (s : ι → Party ι) : Prop where
  origin : ∀ x, ∀ n < (s x).count, ⟨x, n, []⟩ ∈ (s x).sent
  place : ∀ x j, ∀ k ∈ (s x).heard j, k < (s j).sent.length
  relay : ∀ x j, ∀ k ∈ (s x).heard j, ∀ c, (s j).sent[k]? = some c → c.origin ≠ x →
    c.relay x ∈ (s x).sent

theorem answered_init : Answered (init : ι → Party ι) := by
  constructor <;> simp [init]

variable [DecidableEq ι]

section Steps

variable {hears : ι → ι → Prop} {channel : List ℕ → ℕ → Prop} {s s' : ι → Party ι}

/-- What an event adds to the messages of a party. -/
theorem Step.count (h : Step hears channel s s') (x : ι) :
    (s' x).count = (s x).count ∨
      (s' x).count = (s x).count + 1 ∧ ⟨x, (s x).count, []⟩ ∈ (s' x).sent := by
  cases h with
  | originate i =>
      rcases eq_or_ne x i with rfl | hx
      · exact Or.inr (by simp [Party.originate])
      · exact Or.inl (by rw [Function.update_of_ne hx])
  | @hear i j k c hij hk hc =>
      rcases eq_or_ne x i with rfl | hx
      · exact Or.inl (by simp [Party.hear])
      · exact Or.inl (by rw [Function.update_of_ne hx])

/-- What an event adds to what a party has heard. -/
theorem Step.heard (h : Step hears channel s s') (x y : ι) :
    (s' x).heard y = (s x).heard y ∨
      ∃ k c, (s y).sent[k]? = some c ∧ (s' x).heard y = (s x).heard y ++ [k] ∧
        (c.origin ≠ x → c.relay x ∈ (s' x).sent) := by
  cases h with
  | originate i =>
      rcases eq_or_ne x i with rfl | hx
      · exact Or.inl (by simp [Party.originate])
      · exact Or.inl (by rw [Function.update_of_ne hx])
  | @hear i j k c hij hk hc =>
      rcases eq_or_ne x i with rfl | hx
      · rcases eq_or_ne y j with rfl | hy
        · refine Or.inr ⟨k, c, hk, by simp [Party.hear], ?_⟩
          intro ho
          simp [Party.hear, ho]
        · exact Or.inl (by simp [Party.hear, hy])
      · exact Or.inl (by rw [Function.update_of_ne hx])

/-- **One event keeps everything answered.** -/
theorem Answered.step (A : Answered s) (h : Step hears channel s s') : Answered s' := by
  have E := h.extends
  have hold : ∀ x j, ∀ k ∈ (s x).heard j, k < (s' j).sent.length ∧
      ∀ c, (s' j).sent[k]? = some c → c.origin ≠ x → c.relay x ∈ (s' x).sent := by
    intro x j k hk
    have hlt := A.place x j k hk
    refine ⟨hlt.trans_le (E.sent j).length_le, ?_⟩
    intro c hc ho
    have hkept := E.getElem?_sent (List.getElem?_eq_getElem hlt)
    obtain rfl : (s j).sent[k] = c := Option.some_inj.1 (hkept.symm.trans hc)
    exact (E.sent x).subset (A.relay x j k hk _ (List.getElem?_eq_getElem hlt) ho)
  have hheard : ∀ x j, ∀ k ∈ (s' x).heard j, k < (s' j).sent.length ∧
      ∀ c, (s' j).sent[k]? = some c → c.origin ≠ x → c.relay x ∈ (s' x).sent := by
    intro x j k hk
    rcases h.heard x j with hsame | ⟨k₀, c₀, hc₀, hmore, hrelay⟩
    · rw [hsame] at hk
      exact hold x j k hk
    · rw [hmore, List.mem_append, List.mem_singleton] at hk
      rcases hk with hk | rfl
      · exact hold x j k hk
      · have hkept := E.getElem?_sent hc₀
        refine ⟨(List.getElem?_eq_some_iff.1 hkept).1, ?_⟩
        intro c hc ho
        obtain rfl : c₀ = c := Option.some_inj.1 (hkept.symm.trans hc)
        exact hrelay ho
  constructor
  · intro x n hn
    rcases h.count x with hsame | ⟨hmore, hnew⟩
    · exact (E.sent x).subset (A.origin x n (hsame ▸ hn))
    · rcases Nat.lt_or_eq_of_le (Nat.lt_succ_iff.1 (hmore ▸ hn)) with hlt | rfl
      · exact (E.sent x).subset (A.origin x n hlt)
      · exact hnew
  · exact fun x j k hk => (hheard x j k hk).1
  · exact fun x j k hk => (hheard x j k hk).2

/-- **Everything is answered in every reachable state.** -/
theorem reachable_answered (h : Reachable hears channel s) : Answered s := by
  induction h with
  | refl => exact answered_init
  | tail _ hstep ih => exact ih.step hstep

end Steps

/-! ### The walks that were travelled -/

/-- The walks over which the copies of one message came that a party has transmitted. -/
def Party.routes (p : Party ι) (o : ι) (n : ℕ) : List (List ι) :=
  (p.sent.filter fun c => c.origin = o ∧ c.seq = n).map Copy.hops

theorem Party.length_routes (p : Party ι) (o : ι) (n : ℕ) :
    (p.routes o n).length = p.sent.countP fun c => c.origin = o ∧ c.seq = n := by
  rw [Party.routes, List.length_map, List.countP_eq_length_filter]

@[simp] theorem Party.mem_routes {p : Party ι} {o : ι} {n : ℕ} {q : List ι} :
    q ∈ p.routes o n ↔ ⟨o, n, q⟩ ∈ p.sent := by
  simp only [Party.routes, List.mem_map, List.mem_filter, decide_eq_true_eq]
  constructor
  · rintro ⟨c, ⟨hc, rfl, rfl⟩, rfl⟩
    exact hc
  · intro hq
    exact ⟨_, ⟨hq, rfl, rfl⟩, rfl⟩

section Routes

variable {hears : ι → ι → Prop} {channel : List ℕ → ℕ → Prop} {s : ι → Party ι}

theorem nodup_routes (hch : ∀ l k, channel l k → AtMostOnce l k) (h : Reachable hears channel s)
    (x o : ι) (n : ℕ) : ((s x).routes o n).Nodup := by
  refine List.Nodup.map_on ?_ ((nodup_sent hch h x).filter _)
  intro c hc d hd hhops
  obtain ⟨-, hco, hcn⟩ : c ∈ (s x).sent ∧ c.origin = o ∧ c.seq = n := by simpa using hc
  obtain ⟨-, hdo, hdn⟩ : d ∈ (s x).sent ∧ d.origin = o ∧ d.seq = n := by simpa using hd
  cases c
  cases d
  simp_all

/-- Every route is a walk. -/
theorem Inv.walk_of_mem_routes (I : Inv hears s) {x o : ι} {n : ℕ} {p : List ι}
    (hp : p ∈ (s x).routes o n) : Walk hears o p x :=
  I.walk x _ (Party.mem_routes.1 hp)

/-- **No party transmits a message more often than there are walks to it.** -/
theorem countP_sent_le (hch : ∀ l k, channel l k → AtMostOnce l k)
    (h : Reachable hears channel s) (x o : ι) (n : ℕ) :
    ((s x).sent.countP fun c => c.origin = o ∧ c.seq = n : ℕ) ≤ (walks hears o x).encard := by
  rw [← Party.length_routes]
  refine length_le_encard (nodup_routes hch h x o n) ?_
  intro p hp
  exact (reachable_inv h).walk_of_mem_routes hp

end Routes

/-! ### Every walk can be travelled -/

section Travel

variable {hears : ι → ι → Prop} {channel : List ℕ → ℕ → Prop} {s : ι → Party ι}

theorem Reachable.steps {s' : ι → Party ι} (h : Reachable hears channel s)
    (h' : Relation.ReflTransGen (Step hears channel) s s') : Reachable hears channel s' :=
  Relation.ReflTransGen.trans h h'

/-- Any number of messages can be originated. -/
theorem exists_originated (hears : ι → ι → Prop) (channel : List ℕ → ℕ → Prop) (o : ι) (n : ℕ) :
    ∃ s, Reachable hears channel s ∧ n < (s o).count := by
  have hcount : ∀ m, ∃ s, Reachable hears channel s ∧ (s o).count = m := by
    intro m
    induction m with
    | zero => exact ⟨init, .refl, rfl⟩
    | succ m ih =>
        obtain ⟨s, hs, hm⟩ := ih
        exact ⟨_, hs.tail (.originate s o), by simp [Party.originate, hm]⟩
  obtain ⟨s, hs, hm⟩ := hcount (n + 1)
  exact ⟨s, hs, by omega⟩

/-- **Every walk can be travelled**, by each message of its origin. -/
theorem exists_travelled (hopen : ∀ l k, AtMostOnce l k → channel l k)
    (h : Reachable hears channel s) {o x : ι} {n : ℕ} {p : List ι} (hn : n < (s o).count)
    (w : Walk hears o p x) :
    ∃ s', Relation.ReflTransGen (Step hears channel) s s' ∧ ⟨o, n, p⟩ ∈ (s' x).sent := by
  induction w with
  | nil => exact ⟨s, .refl, (reachable_answered h).origin o n hn⟩
  | @cons p x y w hyx hy ih =>
      obtain ⟨s₁, h₁, hp⟩ := ih
      obtain ⟨k, hk⟩ := List.getElem?_of_mem hp
      by_cases hheard : k ∈ (s₁ y).heard x
      · -- the copy was heard before, and was relayed then
        exact ⟨s₁, h₁, (reachable_answered (h.steps h₁)).relay y x k hheard _ hk (Ne.symm hy)⟩
      · refine ⟨_, h₁.tail (.hear s₁ hyx hk (hopen _ _ hheard)), ?_⟩
        simp [Party.hear, Copy.relay, Ne.symm hy]

/-- Finitely many walks can be travelled in one run. -/
theorem exists_all_travelled (hopen : ∀ l k, AtMostOnce l k → channel l k)
    (h : Reachable hears channel s) {o x : ι} {n : ℕ} (hn : n < (s o).count)
    {ps : List (List ι)} (hps : ∀ p ∈ ps, Walk hears o p x) :
    ∃ s', Relation.ReflTransGen (Step hears channel) s s' ∧ ∀ p ∈ ps, p ∈ (s' x).routes o n := by
  induction ps with
  | nil => exact ⟨s, .refl, by simp⟩
  | cons p ps ih =>
      obtain ⟨hp, hps⟩ := List.forall_mem_cons.1 hps
      obtain ⟨s₁, h₁, hall⟩ := ih hps
      have hn₁ := hn.trans_le ((extends_of_steps h₁).count o)
      obtain ⟨s₂, h₂, hmem⟩ := exists_travelled hopen (h.steps h₁) hn₁ hp
      refine ⟨s₂, h₁.trans h₂, List.forall_mem_cons.2 ⟨Party.mem_routes.2 hmem, ?_⟩⟩
      intro q hq
      have hkept := Party.mem_routes.1 (hall q hq)
      exact Party.mem_routes.2 (((extends_of_steps h₂).sent x).subset hkept)

/-- **How often a party transmits a message, in the worst case, is the number of walks to it.** -/
theorem countP_sent_le_iff (hch : ∀ l k, channel l k ↔ AtMostOnce l k) (x o : ι) (n B : ℕ) :
    (∀ s, Reachable hears channel s →
        ((s x).sent.countP fun c => c.origin = o ∧ c.seq = n) ≤ B) ↔
      (walks hears o x).encard ≤ B := by
  constructor
  · intro hB
    by_contra hmany
    have hmore : ((B + 1 : ℕ) : ℕ∞) ≤ (walks hears o x).encard := by
      rw [Nat.cast_add_one]
      exact Order.add_one_le_of_lt (not_le.1 hmany)
    obtain ⟨t, ht, hcard⟩ := Set.exists_subset_encard_eq hmore
    have hfinite : t.Finite := Set.finite_of_encard_eq_coe hcard
    obtain ⟨s, hs, hn⟩ := exists_originated hears channel o n
    have hwalks : ∀ p ∈ hfinite.toFinset.toList, Walk hears o p x := by
      intro p hp
      exact ht (by simpa using hp)
    obtain ⟨s', h', hall⟩ := exists_all_travelled (fun l k => (hch l k).2) hs hn hwalks
    have hlen : t.encard ≤ ((s' x).routes o n).length := by
      refine encard_le_length ?_
      intro p hp
      exact hall p (by simpa using hp)
    rw [hcard, Party.length_routes, Nat.cast_le] at hlen
    have := hB s' (hs.steps h')
    omega
  · intro hB s hs
    have hle := (countP_sent_le (fun l k => (hch l k).1) hs x o n).trans hB
    exact_mod_cast hle

end Travel

/-! ### States in which everything was heard -/

/-- Everything was heard by everyone in range. -/
def Settled (hears : ι → ι → Prop) (s : ι → Party ι) : Prop :=
  ∀ x j, hears x j → ∀ k < (s j).sent.length, k ∈ (s x).heard j

section Settling

variable {hears : ι → ι → Prop} {channel : List ℕ → ℕ → Prop} {s : ι → Party ι}

omit [DecidableEq ι] in
/-- In a settled state every walk was travelled by every message of its origin. -/
theorem Settled.travelled (S : Settled hears s) (A : Answered s) {o x : ι} {n : ℕ} {p : List ι}
    (hn : n < (s o).count) (w : Walk hears o p x) : ⟨o, n, p⟩ ∈ (s x).sent := by
  induction w with
  | nil => exact A.origin o n hn
  | @cons p x y w hyx hy ih =>
      obtain ⟨k, hk⟩ := List.getElem?_of_mem ih
      have hheard := S y x hyx k (List.getElem?_eq_some_iff.1 hk).1
      exact A.relay y x k hheard _ hk (Ne.symm hy)

/-- Once a message was originated, a state can settle only if no walk comes to a party twice. -/
theorem Settled.nodup [Finite ι] (S : Settled hears s) (h : Reachable hears channel s) {o : ι}
    (hn : 0 < (s o).count) {p : List ι} {x : ι} (w : Walk hears o p x) : p.Nodup := by
  refine finite_walks_iff.1 ?_ p x w
  intro y
  refine ((s y).routes o 0).finite_toSet.subset ?_
  intro q hq
  exact Party.mem_routes.2 (S.travelled (reachable_answered h) hn hq)

end Settling

end Flood
