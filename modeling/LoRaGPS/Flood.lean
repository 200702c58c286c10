/-
**Flooding over a directed graph, with no memory of what was relayed.**

A party of the network may originate a message, and transmits again every copy it hears of a
message that another party originated.  Nobody remembers what it has transmitted.  Which party
hears which is a relation, and a *channel* says which transmissions of a party may still be heard
after the ones that have been heard.  How often a party relays one message then depends on the
graph alone: a copy travels along a walk that never comes back to the origin, and every such walk
can be travelled.

Main definitions:

* `Flood.Copy`, `Flood.Party`, `Flood.Step`, `Flood.Reachable` — the protocol;
* `Flood.AnyOrder`, `Flood.AtMostOnce`, `Flood.InOrder`, `Flood.AllowsLoss` — channels, and that
  receptions may be missed in them;
* `Flood.Walk`, `Flood.UniqueWalks` — the walks a copy can take, and that no two of them meet;
* `Flood.Inv` — every copy has taken a walk, hop by hop.

Main results:

* `Flood.reachable_inv` — **the invariant holds in every reachable state**;
* `Flood.nodup_sent` — if nothing is heard twice, nothing is transmitted twice after the same hops;
* `Flood.countP_sent_le_one` — if moreover no two walks meet, every party transmits a message at
  most once;
* `Flood.pairwise_sent` — if moreover a party is heard in order, everybody transmits the messages
  of one origin in order;
* `Flood.exists_second_copy` — if two walks meet, some party can be made to relay one message
  twice.
-/

import Mathlib.Algebra.BigOperators.Group.Finset.Basic
import Mathlib.Algebra.Order.BigOperators.Group.Finset
import Mathlib.Data.Fintype.BigOperators
import Mathlib.Logic.Function.Basic
import Mathlib.Logic.Relation

set_option relaxedAutoImplicit false
set_option autoImplicit false

namespace Flood

variable {ι : Type}

/-! ### Copies and parties -/

/-- One transmission: the message, which is the `seq`-th one of its origin, and the parties that
have relayed it so far, the last one first. -/
structure Copy (ι : Type) where
  origin : ι
  seq : ℕ
  hops : List ι
deriving DecidableEq, Repr

/-- The copy that `i` transmits on hearing `c`. -/
def Copy.relay (c : Copy ι) (i : ι) : Copy ι := { c with hops := i :: c.hops }

/-- What a party has done: how many messages it has originated, what it has transmitted, and
which transmissions of every other party it has heard, in order. -/
structure Party (ι : Type) where
  count : ℕ
  sent : List (Copy ι)
  heard : ι → List ℕ

/-- Nothing has happened. -/
def init : ι → Party ι := fun _ => ⟨0, [], fun _ => []⟩

/-- What the parties have done has only been added to. -/
structure Extends (s s' : ι → Party ι) : Prop where
  count : ∀ x, (s x).count ≤ (s' x).count
  sent : ∀ x, (s x).sent <+: (s' x).sent
  heard : ∀ x y, (s x).heard y <+: (s' x).heard y

theorem Extends.refl (s : ι → Party ι) : Extends s s :=
  ⟨fun _ => le_rfl, fun _ => List.prefix_rfl, fun _ _ => List.prefix_rfl⟩

theorem Extends.trans {s s' t : ι → Party ι} (h : Extends s s') (h' : Extends s' t) :
    Extends s t := by
  constructor
  · intro x
    exact (h.count x).trans (h'.count x)
  · intro x
    exact (h.sent x).trans (h'.sent x)
  · intro x y
    exact (h.heard x y).trans (h'.heard x y)

theorem Extends.getElem?_sent {s s' : ι → Party ι} (h : Extends s s') {j : ι} {k : ℕ} {c : Copy ι}
    (hk : (s j).sent[k]? = some c) : (s' j).sent[k]? = some c := by
  obtain ⟨t, ht⟩ := h.sent j
  rw [← ht, List.getElem?_append_left (List.getElem?_eq_some_iff.1 hk).1, hk]

/-! ### The walks a copy can take -/

/-- A walk from `o` that never comes back to `o`, with the parties after `o` listed backwards;
`hears i j` says that `i` is in the range of `j`. -/
inductive Walk (hears : ι → ι → Prop) (o : ι) : List ι → ι → Prop
  | nil : Walk hears o [] o
  | cons {p : List ι} {x y : ι} (w : Walk hears o p x) (hyx : hears y x) (hy : y ≠ o) :
      Walk hears o (y :: p) y

/-- From no party do two different walks lead to one place. -/
def UniqueWalks (hears : ι → ι → Prop) : Prop :=
  ∀ o p q x, Walk hears o p x → Walk hears o q x → p = q

section Walks

variable {hears : ι → ι → Prop} {o : ι}

theorem Walk.end_eq {p : List ι} {x y : ι} (h : Walk hears o p x) (h' : Walk hears o p y) :
    x = y := by
  cases h with
  | nil => cases h'; rfl
  | cons => cases h'; rfl

/-- A walk that ends where it starts has no hops. -/
theorem Walk.eq_nil {p : List ι} (h : Walk hears o p o) : p = [] := by
  cases h with
  | nil => rfl
  | cons _ _ hy => exact absurd rfl hy

/-- No two walks meet in a graph in which everybody hears at most one party. -/
theorem uniqueWalks_of_one_source (h : ∀ i j j', hears i j → hears i j' → j = j') :
    UniqueWalks hears := by
  intro o p q x hp hq
  induction hp generalizing q with
  | nil => exact hq.eq_nil.symm
  | @cons p x y hp hyx hy ih =>
      cases hq with
      | nil => exact absurd rfl hy
      | cons hq' hyx' _ =>
          obtain rfl := h _ _ _ hyx hyx'
          rw [ih _ hq']

/-- Before two walks meet for the last time, they come from two parties that are heard there. -/
theorem Walk.fork {p q : List ι} {x : ι} (hp : Walk hears o p x) (hq : Walk hears o q x)
    (hne : p ≠ q) :
    ∃ y a b p' q', y ≠ o ∧ a ≠ b ∧ hears y a ∧ hears y b ∧ Walk hears o p' a ∧
      Walk hears o q' b := by
  induction hp generalizing q with
  | nil => exact absurd hq.eq_nil.symm hne
  | @cons p x y hp hyx hy ih =>
      cases hq with
      | nil => exact absurd rfl hy
      | @cons q x' _ hq' hyx' _ =>
          by_cases hx : x = x'
          · subst hx
            exact ih hq' fun e => hne (by rw [e])
          · exact ⟨y, x, x', p, q, hy, hx, hyx, hyx', hp, hq'⟩

end Walks

/-! ### Every copy has taken a walk -/

/-- What holds in every reachable state: a copy has taken a walk to its transmitter, it is one
that its origin has originated, and its transmitter has heard the copy of the hop before. -/
structure Inv (hears : ι → ι → Prop) (s : ι → Party ι) : Prop where
  walk : ∀ x, ∀ c ∈ (s x).sent, Walk hears c.origin c.hops x
  seq : ∀ x, ∀ c ∈ (s x).sent, c.seq < (s c.origin).count
  stem : ∀ x, ∀ c ∈ (s x).sent, ∀ p, c.hops = x :: p →
    ∃ j, ∃ k ∈ (s x).heard j, (s j).sent[k]? = some { c with hops := p }

section Invariant

variable {hears : ι → ι → Prop} {s s' : ι → Party ι}

theorem inv_init : Inv hears (init : ι → Party ι) := by
  constructor <;> intro x c hc <;> simp [init] at hc

/-- What is kept of the invariant, for the copies there were. -/
theorem Inv.old (I : Inv hears s) (E : Extends s s') {x : ι} {c : Copy ι} (hc : c ∈ (s x).sent) :
    Walk hears c.origin c.hops x ∧ c.seq < (s' c.origin).count ∧ ∀ p, c.hops = x :: p →
      ∃ j, ∃ k ∈ (s' x).heard j, (s' j).sent[k]? = some { c with hops := p } := by
  refine ⟨I.walk x c hc, (I.seq x c hc).trans_le (E.count _), ?_⟩
  intro p hp
  obtain ⟨j, k, hk, hs⟩ := I.stem x c hc p hp
  exact ⟨j, k, (E.heard x j).subset hk, E.getElem?_sent hs⟩

/-- A relayed copy was heard from the transmitter of the copy it relays. -/
theorem Inv.heard_of_relay (I : Inv hears s) {x j : ι} {c d : Copy ι} (hd : d ∈ (s x).sent)
    (hc : c ∈ (s j).sent) (ho : d.origin = c.origin) (hhops : d.hops = x :: c.hops) :
    ∃ k ∈ (s x).heard j, (s j).sent[k]? = some { d with hops := c.hops } := by
  obtain ⟨j', k, hk, hs⟩ := I.stem x d hd c.hops hhops
  have hw := I.walk j' _ (List.mem_of_getElem? hs)
  simp only [ho] at hw
  obtain rfl : j' = j := hw.end_eq (I.walk j c hc)
  exact ⟨k, hk, hs⟩

theorem Inv.hops_eq (I : Inv hears s) (hu : UniqueWalks hears) {x : ι} {c d : Copy ι}
    (hc : c ∈ (s x).sent) (hd : d ∈ (s x).sent) (ho : c.origin = d.origin) : c.hops = d.hops :=
  hu c.origin _ _ x (I.walk x c hc) (ho ▸ I.walk x d hd)

/-- With no two walks meeting, what `x` transmits came over the one walk to it. -/
theorem Inv.hops_of_hears (I : Inv hears s) (hu : UniqueWalks hears) {x j : ι} {c d : Copy ι}
    (hd : d ∈ (s x).sent) (hc : c ∈ (s j).sent) (hxj : hears x j) (hx : c.origin ≠ x)
    (ho : d.origin = c.origin) : d.hops = x :: c.hops :=
  hu c.origin _ _ x (ho ▸ I.walk x d hd) ((I.walk j c hc).cons hxj (Ne.symm hx))

end Invariant

/-! ### The protocol -/

/-- `i` originates a message. -/
def Party.originate (p : Party ι) (i : ι) : Party ι :=
  { p with count := p.count + 1, sent := p.sent ++ [⟨i, p.count, []⟩] }

variable [DecidableEq ι]

/-- `i` hears the `k`-th transmission `c` of `j`, and relays it unless it is its own message. -/
def Party.hear (p : Party ι) (i j : ι) (k : ℕ) (c : Copy ι) : Party ι :=
  { p with
    sent := if c.origin = i then p.sent else p.sent ++ [c.relay i]
    heard := Function.update p.heard j (p.heard j ++ [k]) }

section Protocol

variable (hears : ι → ι → Prop) (channel : List ℕ → ℕ → Prop)

/-- One event. -/
inductive Step : (ι → Party ι) → (ι → Party ι) → Prop
  | originate (s : ι → Party ι) (i : ι) : Step s (Function.update s i ((s i).originate i))
  | hear (s : ι → Party ι) {i j : ι} {k : ℕ} {c : Copy ι} (hij : hears i j)
      (hk : (s j).sent[k]? = some c) (hc : channel ((s i).heard j) k) :
      Step s (Function.update s i ((s i).hear i j k c))

/-- The states that some order of events leads to. -/
def Reachable (s : ι → Party ι) : Prop := Relation.ReflTransGen (Step hears channel) init s

end Protocol

/-- Transmissions are lost, delayed, repeated and reordered. -/
def AnyOrder (_ : List ℕ) (_ : ℕ) : Prop := True

/-- Every transmission is heard at most once by each party in range. -/
def AtMostOnce (heard : List ℕ) (k : ℕ) : Prop := k ∉ heard

/-- The transmissions of a party are heard in order, each at most once. -/
def InOrder (heard : List ℕ) (k : ℕ) : Prop := ∀ k' ∈ heard, k' < k

/-- What one channel lets through after some receptions, the other lets through also if some of
these were missed. -/
def AllowsLoss (channel channel' : List ℕ → ℕ → Prop) : Prop :=
  ∀ l l' k, l.Sublist l' → channel l' k → channel' l k

theorem allowsLoss_anyOrder (channel : List ℕ → ℕ → Prop) : AllowsLoss channel AnyOrder :=
  fun _ _ _ _ _ => trivial

theorem allowsLoss_inOrder : AllowsLoss InOrder InOrder :=
  fun _ _ _ hsub h k' hk' => h k' (hsub.subset hk')

instance (l : List ℕ) (k : ℕ) : Decidable (AnyOrder l k) := inferInstanceAs (Decidable True)

instance (l : List ℕ) (k : ℕ) : Decidable (AtMostOnce l k) := inferInstanceAs (Decidable (k ∉ l))

instance (l : List ℕ) (k : ℕ) : Decidable (InOrder l k) :=
  inferInstanceAs (Decidable (∀ k' ∈ l, k' < k))

section Steps

variable {hears : ι → ι → Prop} {channel : List ℕ → ℕ → Prop} {s s' : ι → Party ι}

/-- An event at `i` that only adds to what `i` has done. -/
theorem extends_update {i : ι} {p : Party ι} (hcount : (s i).count ≤ p.count)
    (hsent : (s i).sent <+: p.sent) (hheard : ∀ y, (s i).heard y <+: p.heard y) :
    Extends s (Function.update s i p) := by
  constructor
  · intro x
    rcases eq_or_ne x i with rfl | hx
    · rwa [Function.update_self]
    · rw [Function.update_of_ne hx]
  · intro x
    rcases eq_or_ne x i with rfl | hx
    · rwa [Function.update_self]
    · rw [Function.update_of_ne hx]
  · intro x y
    rcases eq_or_ne x i with rfl | hx
    · rw [Function.update_self]
      exact hheard y
    · rw [Function.update_of_ne hx]

theorem Party.sent_hear_mono (p : Party ι) (i j : ι) (k : ℕ) (c : Copy ι) :
    p.sent <+: (p.hear i j k c).sent := by
  simp only [Party.hear]
  split
  · exact List.prefix_rfl
  · exact List.prefix_append _ _

theorem Party.heard_hear_mono (p : Party ι) (i j : ι) (k : ℕ) (c : Copy ι) (y : ι) :
    p.heard y <+: (p.hear i j k c).heard y := by
  rcases eq_or_ne y j with rfl | hy
  · simp [Party.hear]
  · simp [Party.hear, Function.update_of_ne hy]

theorem Step.extends (h : Step hears channel s s') : Extends s s' := by
  cases h with
  | originate i =>
      exact extends_update (Nat.le_succ _) (List.prefix_append _ _) fun _ => List.prefix_rfl
  | @hear i j k c hij hk hc =>
      exact extends_update le_rfl ((s i).sent_hear_mono i j k c)
        ((s i).heard_hear_mono i j k c)

theorem extends_of_steps (h : Relation.ReflTransGen (Step hears channel) s s') : Extends s s' := by
  induction h with
  | refl => exact Extends.refl s
  | tail _ hstep ih => exact ih.trans hstep.extends

/-- What an event adds to the transmissions of a party: nothing, a message of its own, or the
relay of a transmission it hears. -/
theorem Step.sent (h : Step hears channel s s') (x : ι) :
    (s' x).sent = (s x).sent ∨
    ((s' x).sent = (s x).sent ++ [⟨x, (s x).count, []⟩] ∧ (s x).count < (s' x).count) ∨
    ∃ j k c, hears x j ∧ (s j).sent[k]? = some c ∧ channel ((s x).heard j) k ∧ c.origin ≠ x ∧
      (s' x).sent = (s x).sent ++ [c.relay x] ∧ k ∈ (s' x).heard j := by
  cases h with
  | originate i =>
      rcases eq_or_ne x i with rfl | hx
      · exact Or.inr (Or.inl ⟨by simp [Party.originate], by simp [Party.originate]⟩)
      · exact Or.inl (by rw [Function.update_of_ne hx])
  | @hear i j k c hij hk hc =>
      rcases eq_or_ne x i with rfl | hx
      · by_cases ho : c.origin = x
        · exact Or.inl (by simp [Party.hear, ho])
        · exact Or.inr (Or.inr ⟨j, k, c, hij, hk, hc, ho, by simp [Party.hear, ho],
            by simp [Party.hear]⟩)
      · exact Or.inl (by rw [Function.update_of_ne hx])

/-- **One event keeps the invariant.** -/
theorem Inv.step (I : Inv hears s) (h : Step hears channel s s') : Inv hears s' := by
  have key : ∀ x, ∀ c ∈ (s' x).sent, Walk hears c.origin c.hops x ∧
      c.seq < (s' c.origin).count ∧ ∀ p, c.hops = x :: p →
        ∃ j, ∃ k ∈ (s' x).heard j, (s' j).sent[k]? = some { c with hops := p } := by
    intro x c hc
    rcases h.sent x with hx | ⟨hx, hcount⟩ | ⟨j, k, c₀, hxj, hk, -, ho, hx, hheard⟩
    · exact I.old h.extends (hx ▸ hc)
    · rw [hx, List.mem_append, List.mem_singleton] at hc
      rcases hc with hc | rfl
      · exact I.old h.extends hc
      · exact ⟨Walk.nil, hcount, fun p hp => by cases hp⟩
    · rw [hx, List.mem_append, List.mem_singleton] at hc
      rcases hc with hc | rfl
      · exact I.old h.extends hc
      · -- the new copy is one hop longer than the copy that was heard
        have hmem : c₀ ∈ (s j).sent := List.mem_of_getElem? hk
        refine ⟨(I.walk j c₀ hmem).cons hxj (Ne.symm ho), ?_, ?_⟩
        · exact (I.seq j c₀ hmem).trans_le (h.extends.count _)
        · intro p hp
          obtain rfl : c₀.hops = p := (List.cons_inj_right x).1 hp
          exact ⟨j, k, hheard, h.extends.getElem?_sent hk⟩
  exact { walk := fun x c hc => (key x c hc).1
          seq := fun x c hc => (key x c hc).2.1
          stem := fun x c hc => (key x c hc).2.2 }

/-- **The invariant holds in every reachable state.** -/
theorem reachable_inv (h : Reachable hears channel s) : Inv hears s := by
  induction h with
  | refl => exact inv_init
  | tail _ hstep ih => exact ih.step hstep

end Steps

/-! ### How often and in which order a message is relayed -/

section Counting

variable {hears : ι → ι → Prop} {channel : List ℕ → ℕ → Prop} {s : ι → Party ι}

/-- If nothing is heard twice, no party transmits a message twice after the same hops. -/
theorem nodup_sent (hch : ∀ l k, channel l k → AtMostOnce l k) (h : Reachable hears channel s)
    (x : ι) : (s x).sent.Nodup := by
  induction h generalizing x with
  | refl => exact List.nodup_nil
  | @tail s s' hs hstep ih =>
      have I := reachable_inv hs
      rcases hstep.sent x with hx | ⟨hx, -⟩ | ⟨j, k, c, -, hk, hc, -, hx, -⟩
      · rw [hx]
        exact ih x
      · -- a new message has a number that no copy carries
        refine hx ▸ (ih x).append (List.nodup_singleton _) ?_
        rw [List.disjoint_singleton]
        exact fun hmem => Nat.lt_irrefl _ (I.seq x _ hmem)
      · -- the same relay before would come from the same transmission, heard twice
        refine hx ▸ (ih x).append (List.nodup_singleton _) ?_
        rw [List.disjoint_singleton]
        intro hmem
        obtain ⟨k', hk', hs'⟩ := I.heard_of_relay hmem (List.mem_of_getElem? hk) rfl rfl
        have hlt : k < (s j).sent.length := (List.getElem?_eq_some_iff.1 hk).1
        obtain rfl : k = k' := (List.getElem?_inj hlt (ih j)).1 (hk.trans hs'.symm)
        exact hch _ _ hc hk'

/-- If no two walks meet, **every party transmits a message at most once**. -/
theorem countP_sent_le_one (hu : UniqueWalks hears) (hch : ∀ l k, channel l k → AtMostOnce l k)
    (h : Reachable hears channel s) (x o : ι) (n : ℕ) :
    (s x).sent.countP (fun c => c.origin = o ∧ c.seq = n) ≤ 1 := by
  have I := reachable_inv h
  have hnd : ((s x).sent.filter fun c => c.origin = o ∧ c.seq = n).Nodup :=
    (nodup_sent hch h x).filter _
  have hall : ∀ c ∈ (s x).sent.filter fun c => decide (c.origin = o ∧ c.seq = n),
      ∀ d ∈ (s x).sent.filter fun c => decide (c.origin = o ∧ c.seq = n), c = d := by
    intro c hc d hd
    obtain ⟨hc, hco, hcn⟩ : c ∈ (s x).sent ∧ c.origin = o ∧ c.seq = n := by simpa using hc
    obtain ⟨hd, hdo, hdn⟩ : d ∈ (s x).sent ∧ d.origin = o ∧ d.seq = n := by simpa using hd
    have hhops := I.hops_eq hu hc hd (hco.trans hdo.symm)
    cases c
    cases d
    simp_all
  rw [List.countP_eq_length_filter]
  by_contra hlen
  rw [not_le] at hlen
  have h01 := hall _ (List.getElem_mem (show 0 < _ by omega)) _ (List.getElem_mem hlen)
  exact absurd ((List.Nodup.getElem_inj_iff hnd).1 h01) (by decide)

/-- If no two walks meet and every party is heard in order, the messages of one origin are
transmitted in order by everybody. -/
theorem pairwise_sent (hu : UniqueWalks hears) (hch : ∀ l k, channel l k → InOrder l k)
    (h : Reachable hears channel s) (x : ι) :
    (s x).sent.Pairwise fun c d => c.origin = d.origin → c.seq < d.seq := by
  induction h generalizing x with
  | refl => exact List.Pairwise.nil
  | @tail s s' hs hstep ih =>
      have I := reachable_inv hs
      rcases hstep.sent x with hx | ⟨hx, -⟩ | ⟨j, k, c, hxj, hk, hc, ho, hx, -⟩
      · rw [hx]
        exact ih x
      · refine hx ▸ List.pairwise_append.2 ⟨ih x, List.pairwise_singleton _ _, ?_⟩
        intro d hd c hc hdc
        obtain rfl := List.mem_singleton.1 hc
        have hseq := I.seq x d hd
        rw [hdc] at hseq
        exact hseq
      · refine hx ▸ List.pairwise_append.2 ⟨ih x, List.pairwise_singleton _ _, ?_⟩
        intro d hd c' hc' hdc
        obtain rfl := List.mem_singleton.1 hc'
        -- what was relayed before came over the last hop too, and was heard there before
        have hmem : c ∈ (s j).sent := List.mem_of_getElem? hk
        obtain ⟨k', hk', hs'⟩ :=
          I.heard_of_relay hd hmem hdc (I.hops_of_hears hu hd hmem hxj ho hdc)
        obtain ⟨hlt, e⟩ := List.getElem?_eq_some_iff.1 hk
        obtain ⟨hlt', e'⟩ := List.getElem?_eq_some_iff.1 hs'
        have hpair := List.pairwise_iff_getElem.1 (ih j) k' k hlt' hlt (hch _ _ hc k' hk')
        rw [e, e'] at hpair
        exact hpair hdc

end Counting

/-! ### Where two walks meet -/

section Spread

variable [Fintype ι] {hears : ι → ι → Prop} {channel : List ℕ → ℕ → Prop} {s s' : ι → Party ι}

/-- A single message of `o` is spreading, and everybody else has relayed it as often as they have
heard it. -/
structure Spread (o : ι) (s : ι → Party ι) : Prop where
  started : (s o).sent ≠ [] ∧ (s o).count = 1
  single : ∀ x, ∀ c ∈ (s x).sent, c.origin = o ∧ c.seq = 0
  relayed : ∀ x, x ≠ o → ∑ j, ((s x).heard j).length = (s x).sent.length

/-- The message is originated. -/
theorem exists_spread (hears : ι → ι → Prop) (channel : List ℕ → ℕ → Prop) (o : ι) :
    ∃ s, Reachable hears channel s ∧ Spread o s := by
  refine ⟨_, Relation.ReflTransGen.single (.originate init o), ?_, ?_, ?_⟩
  · simp [Party.originate, init]
  · intro x c hc
    rcases eq_or_ne x o with rfl | hx
    · rw [Function.update_self] at hc
      obtain rfl : c = ⟨x, 0, []⟩ := by simpa [Party.originate, init] using hc
      exact ⟨rfl, rfl⟩
    · rw [Function.update_of_ne hx] at hc
      simp [init] at hc
  · intro x hx
    rw [Function.update_of_ne hx]
    simp [init]

/-- Once the message has reached `x`, whoever is in the range of `x` can be made to hear it
there. -/
theorem Spread.listen {o x y : ι} (hopen : ∀ k, channel [] k) (S : Spread o s)
    (hyx : hears y x) (hy : y ≠ o) (hx : (s x).sent ≠ []) :
    ∃ s', Relation.ReflTransGen (Step hears channel) s s' ∧ Spread o s' ∧ (s' y).heard x ≠ [] := by
  by_cases hheard : (s y).heard x = []
  · obtain ⟨c, l, hl⟩ := List.exists_cons_of_ne_nil hx
    have hk : (s x).sent[0]? = some c := by rw [hl]; rfl
    obtain ⟨ho, hseq⟩ := S.single x c (List.mem_of_getElem? hk)
    have hcy : c.origin ≠ y := ho ▸ Ne.symm hy
    refine ⟨_, .single (.hear s hyx hk (hheard ▸ hopen 0)), ⟨?_, ?_, ?_⟩, ?_⟩
    · rw [Function.update_of_ne (Ne.symm hy)]
      exact S.started
    · intro z d hd
      rcases eq_or_ne z y with rfl | hz
      · simp only [Function.update_self, Party.hear, if_neg hcy, List.mem_append,
          List.mem_singleton] at hd
        rcases hd with hd | rfl
        · exact S.single z d hd
        · exact ⟨ho, hseq⟩
      · rw [Function.update_of_ne hz] at hd
        exact S.single z d hd
    · intro z hz
      rcases eq_or_ne z y with rfl | hzy
      · -- one more transmission heard, one more relay
        have hlen : ∀ j, (((s z).hear z x 0 c).heard j).length =
            ((s z).heard j).length + if j = x then 1 else 0 := by
          intro j
          rcases eq_or_ne j x with rfl | hj
          · simp [Party.hear]
          · simp [Party.hear, hj]
        simp only [Function.update_self, hlen, Finset.sum_add_distrib, S.relayed z hz]
        simp [Party.hear, hcy]
      · rw [Function.update_of_ne hzy]
        exact S.relayed z hz
    · simp [Party.hear]
  · exact ⟨s, .refl, S, hheard⟩

omit [DecidableEq ι] in
theorem Spread.sent_ne_nil {o x y : ι} (S : Spread o s) (hy : y ≠ o) (h : (s y).heard x ≠ []) :
    (s y).sent ≠ [] := by
  have hle : ((s y).heard x).length ≤ ∑ j, ((s y).heard j).length :=
    Finset.single_le_sum (f := fun j => ((s y).heard j).length) (fun _ _ => Nat.zero_le _)
      (Finset.mem_univ x)
  rw [S.relayed y hy] at hle
  rw [← List.length_pos_iff] at h ⊢
  omega

/-- The message can be made to reach every place that a walk leads to. -/
theorem Spread.reach {o : ι} (hopen : ∀ k, channel [] k) (S : Spread o s) {p : List ι} {x : ι}
    (hw : Walk hears o p x) :
    ∃ s', Relation.ReflTransGen (Step hears channel) s s' ∧ Spread o s' ∧ (s' x).sent ≠ [] := by
  induction hw with
  | nil => exact ⟨s, .refl, S, S.started.1⟩
  | @cons p x y hw hyx hy ih =>
      obtain ⟨s₁, h₁, S₁, hx⟩ := ih
      obtain ⟨s₂, h₂, S₂, hheard⟩ := S₁.listen hopen hyx hy hx
      exact ⟨s₂, h₁.trans h₂, S₂, S₂.sent_ne_nil hy hheard⟩

/-- **If two walks meet, some party can be made to relay one message twice**, provided that the
first transmission heard may be any. -/
theorem exists_second_copy (hopen : ∀ k, channel [] k) (hu : ¬ UniqueWalks hears) :
    ∃ o y s, Reachable hears channel s ∧ Spread o s ∧ y ≠ o ∧ 2 ≤ (s y).sent.length := by
  simp only [UniqueWalks, not_forall] at hu
  obtain ⟨o, p, q, x, hp, hq, hne⟩ := hu
  obtain ⟨y, a, b, p', q', hy, hab, hya, hyb, ha, hb⟩ := hp.fork hq hne
  -- the message reaches both parties, and is then heard from both
  obtain ⟨s₀, h₀, S₀⟩ := exists_spread hears channel o
  obtain ⟨s₁, h₁, S₁, hsa⟩ := S₀.reach hopen ha
  obtain ⟨s₂, h₂, S₂, hsb⟩ := S₁.reach hopen hb
  have hsa₂ : (s₂ a).sent ≠ [] := List.IsPrefix.ne_nil ((extends_of_steps h₂).sent a) hsa
  obtain ⟨s₃, h₃, S₃, hheard_a⟩ := S₂.listen hopen hya hy hsa₂
  have hsb₃ : (s₃ b).sent ≠ [] := List.IsPrefix.ne_nil ((extends_of_steps h₃).sent b) hsb
  obtain ⟨s₄, h₄, S₄, hheard_b⟩ := S₃.listen hopen hyb hy hsb₃
  have hheard_a₄ := List.IsPrefix.ne_nil ((extends_of_steps h₄).heard y a) hheard_a
  refine ⟨o, y, s₄, ((h₀.trans h₁).trans h₂).trans (h₃.trans h₄), S₄, hy, ?_⟩
  have hpair : ((s₄ y).heard a).length + ((s₄ y).heard b).length ≤
      ∑ j, ((s₄ y).heard j).length := by
    rw [← Finset.sum_pair hab (f := fun j => ((s₄ y).heard j).length)]
    exact Finset.sum_le_sum_of_subset (Finset.subset_univ _)
  rw [S₄.relayed y hy] at hpair
  have hpos_a := List.length_pos_iff.2 hheard_a₄
  have hpos_b := List.length_pos_iff.2 hheard_b
  omega

end Spread

end Flood
