/-
**Programs that keep a log and may halt.**

A program works on a state and adds to a log of what it does.  It may be undefined, it may halt for
good, or it returns a value in a new state.  A triple says that a program started in a state and
after a log that satisfy its precondition is defined, that everything it adds to the log is
justified by what stands before it, and that it returns, if it does, in a state and after a log that
satisfy its postcondition.

Main definitions:

* `Program` — programs, which are a monad;
* `Program.emit`, `Program.halt`, `Program.access`, `Program.forEach` — what they are made of;
* `Program.Justified` — logs in which every entry is justified by those before it;
* `Program.Triple` — preconditions and postconditions.

Main results:

* `Program.Triple.bind`, `Program.Triple.forEach` — **the rules of composition**;
* `Program.justified_concat` — a justified log that grows by one entry.
-/

import Mathlib.Data.List.Basic

set_option relaxedAutoImplicit false
set_option autoImplicit false

/-- A program: undefined, or what it adds to the log, and, unless it halts, what it returns and the
new state. -/
def Program (σ ε α : Type) : Type := σ → Option (List ε × Option (α × σ))

namespace Program

variable {σ ε α β : Type}

/-! ### What programs are made of -/

/-- One program after another, unless the first one halts. -/
protected def bind (p : Program σ ε α) (f : α → Program σ ε β) : Program σ ε β := fun s =>
  match p s with
  | none => none
  | some (l, none) => some (l, none)
  | some (l, some (a, s')) => (f a s').map fun out => (l ++ out.1, out.2)

instance : Monad (Program σ ε) where
  pure a := fun s => some ([], some (a, s))
  bind := Program.bind

/-- The state. -/
def get : Program σ ε σ := fun s => some ([], some (s, s))

/-- Changing the state. -/
def modify (f : σ → σ) : Program σ ε Unit := fun s => some ([], some ((), f s))

/-- Adding an entry to the log. -/
def emit (x : ε) : Program σ ε Unit := fun s => some ([x], some ((), s))

/-- Doing nothing more. -/
def halt : Program σ ε α := fun _ => some ([], none)

/-- An operation that may be undefined. -/
def access (x : Option α) : Program σ ε α := fun s => x.map fun a => ([], some (a, s))

/-- One program for each element of a list. -/
def forEach (f : α → Program σ ε Unit) : List α → Program σ ε Unit
  | [] => pure ()
  | a :: as => do
      f a
      forEach f as

/-! ### Running programs -/

theorem pure_apply (a : α) (s : σ) : (pure a : Program σ ε α) s = some ([], some (a, s)) := rfl

theorem bind_of_return {p : Program σ ε α} {f : α → Program σ ε β} {s s' : σ} {l : List ε} {a : α}
    (h : p s = some (l, some (a, s'))) :
    (p >>= f) s = (f a s').map fun out => (l ++ out.1, out.2) := by
  change Program.bind p f s = _
  rw [Program.bind, h]

theorem bind_of_halt {p : Program σ ε α} {f : α → Program σ ε β} {s : σ} {l : List ε}
    (h : p s = some (l, none)) : (p >>= f) s = some (l, none) := by
  change Program.bind p f s = _
  rw [Program.bind, h]

section Running

variable {s : σ} {f : α → Program σ ε β}

@[simp] theorem pure_bind_apply (a : α) : ((pure a : Program σ ε α) >>= f) s = f a s := by
  rw [bind_of_return (pure_apply a s)]
  cases f a s <;> rfl

@[simp] theorem get_bind_apply {f : σ → Program σ ε β} : (get >>= f) s = f s s := by
  rw [bind_of_return (p := get) rfl]
  cases f s s <;> rfl

@[simp] theorem modify_bind_apply {g : σ → σ} {f : Unit → Program σ ε β} :
    (modify g >>= f) s = f () (g s) := by
  rw [bind_of_return (p := modify g) rfl]
  cases f () (g s) <;> rfl

@[simp] theorem emit_bind_apply {x : ε} {f : Unit → Program σ ε β} :
    (emit x >>= f) s = (f () s).map fun out => (x :: out.1, out.2) := by
  rw [bind_of_return (p := emit x) rfl]
  rfl

@[simp] theorem halt_apply : (halt : Program σ ε α) s = some ([], none) := rfl

@[simp] theorem access_bind_apply {a : α} : (access (some a) >>= f) s = f a s := by
  rw [bind_of_return (p := access (some a)) rfl]
  cases f a s <;> rfl

end Running

/-! ### Logs -/

/-- Every entry of the log is justified by those before it. -/
def Justified (J : List ε → ε → Prop) (h : List ε) : Prop :=
  ∀ pre x post, h = pre ++ x :: post → J pre x

variable {J : List ε → ε → Prop}

theorem justified_nil : Justified J [] := by
  intro pre x post h
  simp at h

/-- **A justified log that grows by one entry** stays justified if that one is. -/
theorem justified_concat {h : List ε} {x : ε} (H : Justified J h) (hx : J h x) :
    Justified J (h ++ [x]) := by
  intro pre y post heq
  rcases List.eq_nil_or_concat post with rfl | ⟨post', z, rfl⟩
  · obtain ⟨rfl, hxy⟩ := List.append_inj' heq rfl
    obtain rfl := List.singleton_inj.1 hxy
    exact hx
  · have heq' : h ++ [x] = (pre ++ y :: post') ++ [z] := by simpa using heq
    exact H pre y post' (List.append_inj' heq' rfl).1

/-- A log that is justified was so before its last entry, which is justified by the rest. -/
theorem Justified.of_concat {h : List ε} {x : ε} (H : Justified J (h ++ [x])) :
    Justified J h ∧ J h x := by
  refine ⟨?_, H h x [] rfl⟩
  rintro pre y post rfl
  exact H pre y (post ++ [x]) (by simp)

/-! ### Triples -/

/-- A program started after a justified log and in a state that satisfy `P` is defined, goes on with
a justified log, and returns, if it does, as `Q` says. -/
def Triple (J : List ε → ε → Prop) (P : List ε → σ → Prop) (p : Program σ ε α)
    (Q : α → List ε → σ → Prop) : Prop :=
  ∀ h s, Justified J h → P h s → ∃ l r, p s = some (l, r) ∧ Justified J (h ++ l) ∧
    ∀ a s', r = some (a, s') → Q a (h ++ l) s'

namespace Triple

variable {P P' : List ε → σ → Prop} {p : Program σ ε α} {Q Q' : α → List ε → σ → Prop}

theorem weaken (T : Triple J P p Q) (hP : ∀ h s, P' h s → P h s)
    (hQ : ∀ a h s, Q a h s → Q' a h s) : Triple J P' p Q' := by
  intro h s H hs
  obtain ⟨l, r, hrun, hl, hr⟩ := T h s H (hP h s hs)
  exact ⟨l, r, hrun, hl, fun a s' ha => hQ a _ _ (hr a s' ha)⟩

theorem of_exists {ι : Type} {P : ι → List ε → σ → Prop} (T : ∀ i, Triple J (P i) p Q) :
    Triple J (fun h s => ∃ i, P i h s) p Q := by
  rintro h s H ⟨i, hs⟩
  exact T i h s H hs

theorem pure {a : α} (hQ : ∀ h s, P h s → Q a h s) : Triple J P (Pure.pure a) Q := by
  intro h s H hs
  refine ⟨[], some (a, s), rfl, by rwa [List.append_nil], ?_⟩
  rintro a' s' ⟨⟩
  rw [List.append_nil]
  exact hQ h s hs

/-- **One program after another.** -/
theorem bind {f : α → Program σ ε β} {R : β → List ε → σ → Prop} (T : Triple J P p Q)
    (U : ∀ a, Triple J (Q a) (f a) R) : Triple J P (p >>= f) R := by
  intro h s H hs
  obtain ⟨l, r, hrun, hl, hr⟩ := T h s H hs
  cases r with
  | none => exact ⟨l, none, bind_of_halt hrun, hl, by simp⟩
  | some out =>
      obtain ⟨a, s'⟩ := out
      obtain ⟨l', r', hrun', hl', hr'⟩ := U a (h ++ l) s' hl (hr a s' rfl)
      refine ⟨l ++ l', r', ?_, ?_, ?_⟩
      · rw [bind_of_return hrun, hrun']
        rfl
      · rwa [← List.append_assoc]
      · rwa [← List.append_assoc]

/-- What the program does may depend on the state, and on what is known of it. -/
theorem get {f : σ → Program σ ε β} {R : β → List ε → σ → Prop}
    (T : ∀ d, Triple J (fun h s => s = d ∧ P h s) (f d) R) :
    Triple J P (Program.get >>= f) R := by
  intro h s H hs
  obtain ⟨l, r, hrun, hl, hr⟩ := T s h s H ⟨rfl, hs⟩
  refine ⟨l, r, ?_, hl, hr⟩
  rw [bind_of_return (p := Program.get) rfl, hrun]
  rfl

theorem modify {f : σ → σ} {Q : Unit → List ε → σ → Prop} (hQ : ∀ h s, P h s → Q () h (f s)) :
    Triple J P (Program.modify f) Q := by
  intro h s H hs
  refine ⟨[], some ((), f s), rfl, by rwa [List.append_nil], ?_⟩
  rintro a s' ⟨⟩
  rw [List.append_nil]
  exact hQ h s hs

theorem emit {x : ε} {Q : Unit → List ε → σ → Prop}
    (hQ : ∀ h s, P h s → J h x ∧ Q () (h ++ [x]) s) : Triple J P (Program.emit x) Q := by
  intro h s H hs
  refine ⟨[x], some ((), s), rfl, justified_concat H (hQ h s hs).1, ?_⟩
  rintro a s' ⟨⟩
  exact (hQ h s hs).2

theorem halt : Triple J P (Program.halt : Program σ ε α) Q := by
  intro h s H _
  exact ⟨[], none, rfl, by rwa [List.append_nil], by simp⟩

theorem access {x : Option α} (hQ : ∀ h s, P h s → ∃ a, x = some a ∧ Q a h s) :
    Triple J P (Program.access x) Q := by
  intro h s H hs
  obtain ⟨a, rfl, ha⟩ := hQ h s hs
  refine ⟨[], some (a, s), rfl, by rwa [List.append_nil], ?_⟩
  rintro a' s' ⟨⟩
  rwa [List.append_nil]

theorem ite {c : Prop} [Decidable c] {q : Program σ ε α} (T : c → Triple J P p Q)
    (U : ¬ c → Triple J P q Q) : Triple J P (if c then p else q) Q := by
  split
  · rename_i hc
    exact T hc
  · rename_i hc
    exact U hc

/-- **The rule of the loop**: what every round keeps, the loop keeps. -/
theorem forEach {f : α → Program σ ε Unit} {as : List α}
    (T : ∀ a ∈ as, Triple J P (f a) fun _ => P) : Triple J P (Program.forEach f as) fun _ => P := by
  induction as with
  | nil => exact pure fun _ _ hs => hs
  | cons a as ih =>
      refine bind (T a (List.mem_cons_self ..)) ?_
      intro _
      exact ih fun b hb => T b (List.mem_cons_of_mem a hb)

end Triple

end Program
