/-
**Flooding: an old message after a newer one.**

Where two walks of the graph meet, the order in which a party transmits the messages of one origin
is not the order in which they were originated, even if every party is heard in order.  Two
messages travel side by side until they reach a party over one of the walks; then the first of
them can be heard there again, over the other one.

Main definitions:

* `Flood.Paired` — two messages are spreading side by side.

Main results:

* `Flood.Paired.follow`, `Flood.Paired.reach` — the two messages can be made to reach every place
  that a walk leads to;
* `Flood.exists_overtaken` — **where two walks meet, some party can be made to relay the
  first message again after the second**.
-/

import LoRaGPS.Flood

set_option relaxedAutoImplicit false
set_option autoImplicit false

namespace Flood

variable {ι : Type} {o x y : ι} {hears : ι → ι → Prop} {channel : List ℕ → ℕ → Prop}
  {s s' : ι → Party ι}

/-- The first two messages of `o` are spreading, side by side: whom they have reached has heard
them from one party and has transmitted each of them once. -/
structure Paired (o : ι) (s : ι → Party ι) : Prop where
  origin : (s o).sent ≠ []
  sent : ∀ x, (s x).sent = [] ∨ ∃ p, (s x).sent = [⟨o, 0, p⟩, ⟨o, 1, p⟩]
  silent : ∀ x, (s x).sent = [] → ∀ j, (s x).heard j = []
  parent : ∀ x j j', (s x).heard j ≠ [] → (s x).heard j' ≠ [] → j = j'

variable [DecidableEq ι]

/-- The state after `o` has originated two messages. -/
def twoMessages (o : ι) : ι → Party ι :=
  Function.update init o (((init o).originate o).originate o)

theorem paired_twoMessages (o : ι) : Paired o (twoMessages o) := by
  have hother : ∀ x, x ≠ o → twoMessages o x = ⟨0, [], fun _ => []⟩ := fun x hx =>
    Function.update_of_ne hx _ _
  have hself : twoMessages o o = ⟨2, [⟨o, 0, []⟩, ⟨o, 1, []⟩], fun _ => []⟩ :=
    Function.update_self ..
  constructor
  · simp [hself]
  · intro x
    rcases eq_or_ne x o with rfl | hx
    · exact Or.inr ⟨[], by rw [hself]⟩
    · exact Or.inl (by rw [hother x hx])
  · intro x hx j
    rcases eq_or_ne x o with rfl | hne
    · rw [hself]
    · rw [hother x hne]
  · intro x j j' hj
    rcases eq_or_ne x o with rfl | hne
    · simp [hself] at hj
    · simp [hother x hne] at hj

/-- What `y` is after it has heard the two messages from `x`, with nothing heard from there
before. -/
def Party.hearPair (p : Party ι) (o x y : ι) (hops : List ι) : Party ι :=
  { p with
    sent := p.sent ++ [⟨o, 0, y :: hops⟩, ⟨o, 1, y :: hops⟩]
    heard := Function.update p.heard x [0, 1] }

/-- The two messages are heard one after the other. -/
theorem steps_hearPair (hopen : ∀ k, channel [] k) (hnext : channel [0] 1) (hyx : hears y x)
    (hy : y ≠ o) (hxy : x ≠ y) {p : List ι} (hx : (s x).sent = [⟨o, 0, p⟩, ⟨o, 1, p⟩])
    (hheard : (s y).heard x = []) :
    Relation.ReflTransGen (Step hears channel) s
      (Function.update s y ((s y).hearPair o x y p)) := by
  have h₀ : Step hears channel s _ :=
    .hear s hyx (k := 0) (c := ⟨o, 0, p⟩) (by rw [hx]; rfl) (hheard ▸ hopen 0)
  have h₁ : Step hears channel (Function.update s y ((s y).hear y x 0 ⟨o, 0, p⟩)) _ :=
    .hear _ hyx (k := 1) (c := ⟨o, 1, p⟩)
      (by rw [Function.update_of_ne hxy, hx]; rfl) (by simpa [Party.hear, hheard] using hnext)
  have hfinal : ((s y).hear y x 0 ⟨o, 0, p⟩).hear y x 1 ⟨o, 1, p⟩ = (s y).hearPair o x y p := by
    simp [Party.hear, Party.hearPair, hheard, Copy.relay, hy.symm]
  rw [Function.update_self, Function.update_idem, hfinal] at h₁
  exact (Relation.ReflTransGen.single h₀).tail h₁

/-- Once the two messages have reached `x`, whoever is in its range and has not heard them yet can
be made to hear them there. -/
theorem Paired.follow (P : Paired o s) (hopen : ∀ k, channel [] k) (hnext : channel [0] 1)
    (hyx : hears y x) (hy : y ≠ o) (hx : (s x).sent ≠ []) (hnew : (s y).sent = []) :
    ∃ s', Relation.ReflTransGen (Step hears channel) s s' ∧ Paired o s' ∧ (s' y).sent ≠ [] := by
  have hxy : x ≠ y := by
    rintro rfl
    exact hx hnew
  obtain ⟨p, hp⟩ := (P.sent x).resolve_left hx
  have hheard := P.silent y hnew
  refine ⟨_, steps_hearPair hopen hnext hyx hy hxy hp (hheard x), ⟨?_, ?_, ?_, ?_⟩, ?_⟩
  · rw [Function.update_of_ne (Ne.symm hy)]
    exact P.origin
  · intro z
    rcases eq_or_ne z y with rfl | hz
    · exact Or.inr ⟨z :: p, by simp [Party.hearPair, hnew]⟩
    · rw [Function.update_of_ne hz]
      exact P.sent z
  · intro z hz j
    rcases eq_or_ne z y with rfl | hzy
    · simp [Party.hearPair] at hz
    · rw [Function.update_of_ne hzy] at hz ⊢
      exact P.silent z hz j
  · intro z j j' hj hj'
    rcases eq_or_ne z y with rfl | hzy
    · -- nothing was heard before, and only `x` is heard now
      have honly : ∀ i, (Function.update s z ((s z).hearPair o x z p) z).heard i ≠ [] → i = x := by
        intro i hi
        by_contra hne
        simp [Party.hearPair, hne, hheard] at hi
      rw [honly j hj, honly j' hj']
    · rw [Function.update_of_ne hzy] at hj hj'
      exact P.parent z j j' hj hj'
  · simp [Party.hearPair]

/-- The two messages can be made to reach every place that a walk leads to. -/
theorem Paired.reach (P : Paired o s) (hopen : ∀ k, channel [] k) (hnext : channel [0] 1)
    {p : List ι} (hw : Walk hears o p x) :
    ∃ s', Relation.ReflTransGen (Step hears channel) s s' ∧ Paired o s' ∧ (s' x).sent ≠ [] := by
  induction hw with
  | nil => exact ⟨s, .refl, P, P.origin⟩
  | @cons p x y hw hyx hy ih =>
      obtain ⟨s₁, h₁, P₁, hx⟩ := ih
      by_cases hnew : (s₁ y).sent = []
      · obtain ⟨s₂, h₂, P₂, hy₂⟩ := P₁.follow hopen hnext hyx hy hx hnew
        exact ⟨s₂, h₁.trans h₂, P₂, hy₂⟩
      · exact ⟨s₁, h₁, P₁, hnew⟩

/-- If a party that has transmitted the two messages can hear them from somebody else, it can be
made to relay the first one again. -/
theorem Paired.again (P : Paired o s) (hopen : ∀ k, channel [] k) (hyx : hears y x) (hy : y ≠ o)
    (hx : (s x).sent ≠ []) (hys : (s y).sent ≠ []) (hheard : (s y).heard x = []) :
    ∃ s', Step hears channel s s' ∧ (∀ c ∈ (s' y).sent, c.origin = o) ∧
      (s' y).sent.map Copy.seq = [0, 1, 0] := by
  obtain ⟨p, hp⟩ := (P.sent x).resolve_left hx
  obtain ⟨q, hq⟩ := (P.sent y).resolve_left hys
  refine ⟨_, .hear s hyx (k := 0) (c := ⟨o, 0, p⟩) (by rw [hp]; rfl) (hheard ▸ hopen 0), ?_, ?_⟩
  · simp [Party.hear, hq, Copy.relay, hy.symm]
  · simp [Party.hear, hq, Copy.relay, hy.symm]

/-- **Where two walks meet, some party can be made to relay the first message again after the
second**, with everybody heard in order. -/
theorem exists_overtaken (hopen : ∀ k, channel [] k) (hnext : channel [0] 1)
    (hu : ¬ UniqueWalks hears) :
    ∃ o y s, Relation.ReflTransGen (Step hears channel) (twoMessages o) s ∧ y ≠ o ∧
      (∀ c ∈ (s y).sent, c.origin = o) ∧ (s y).sent.map Copy.seq = [0, 1, 0] := by
  simp only [UniqueWalks, not_forall] at hu
  obtain ⟨o, p, q, x, hp, hq, hne⟩ := hu
  obtain ⟨y, a, b, p', q', hy, hab, hya, hyb, ha, hb⟩ := hp.fork hq hne
  -- the messages reach both parties, and the place where both are heard
  obtain ⟨s₁, h₁, P₁, hsa⟩ := (paired_twoMessages o).reach hopen hnext ha
  obtain ⟨s₂, h₂, P₂, hsb⟩ := P₁.reach hopen hnext hb
  have hsa₂ : (s₂ a).sent ≠ [] := List.IsPrefix.ne_nil ((extends_of_steps h₂).sent a) hsa
  obtain ⟨s₃, h₃, P₃, hsy⟩ := P₂.reach hopen hnext (ha.cons hya hy)
  have E₃ := extends_of_steps h₃
  have hsa₃ : (s₃ a).sent ≠ [] := List.IsPrefix.ne_nil (E₃.sent a) hsa₂
  have hsb₃ : (s₃ b).sent ≠ [] := List.IsPrefix.ne_nil (E₃.sent b) hsb
  have hsteps := (h₁.trans h₂).trans h₃
  -- it has not heard them from both, and hears the first one from the other
  by_cases hheard : (s₃ y).heard a = []
  · obtain ⟨s₄, h₄, horigin, hseq⟩ := P₃.again hopen hya hy hsa₃ hsy hheard
    exact ⟨o, y, s₄, hsteps.tail h₄, hy, horigin, hseq⟩
  · have hheard_b : (s₃ y).heard b = [] := by
      by_contra h
      exact hab (P₃.parent y a b hheard h)
    obtain ⟨s₄, h₄, horigin, hseq⟩ := P₃.again hopen hyb hy hsb₃ hsy hheard_b
    exact ⟨o, y, s₄, hsteps.tail h₄, hy, horigin, hseq⟩

end Flood
