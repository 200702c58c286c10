/-
**Bounded logs, kept by key in a table of bounded size.**

A log of depth `D` keeps the last `D` items appended to it.  A table of at most `cap` such logs
is filled on a first-come basis: an item whose key already has a log is appended to that log, an
item with a new key opens the next log if there is room, and is dropped otherwise.  Nothing here
depends on what the items or the keys are.

Main definitions:

* `KeyedLog.push` — appending to a log of bounded depth;
* `KeyedLog.record` — recording one item in the table;
* `KeyedLog.recordAll` — recording a whole sequence, from the empty table.

Main results:

* `KeyedLog.push_rtake` — a bounded log that is appended to holds the end of the whole sequence;
* `KeyedLog.recordAll_eq` — **the table after a sequence**: its keys are the first `cap` distinct
  keys in order of first appearance, and the log of a key is the end of the subsequence of the
  items with that key;
* `KeyedLog.logAt_record` — recording an item changes the log at the place of its key only;
* `KeyedLog.map_sublist_of_getElem?` — items found at increasing places are a subsequence.
-/

import Mathlib.Data.List.DropRight
import Mathlib.Data.List.Nodup
import Mathlib.Data.List.Infix
import Mathlib.Data.List.TakeDrop

set_option relaxedAutoImplicit false
set_option autoImplicit false

namespace KeyedLog

variable {α κ : Type*}

/-! ### Logs of bounded depth -/

theorem length_rtake (l : List α) (D : ℕ) : (l.rtake D).length = min l.length D := by
  rw [List.rtake, List.length_drop]
  omega

theorem rtake_of_length_le {l : List α} {D : ℕ} (h : l.length ≤ D) : l.rtake D = l := by
  rw [List.rtake, Nat.sub_eq_zero_of_le h, List.drop_zero]

theorem rtake_sublist (l : List α) (D : ℕ) : (l.rtake D).Sublist l := List.drop_sublist _ _

theorem mem_of_mem_rtake {l : List α} {D : ℕ} {x : α} (h : x ∈ l.rtake D) : x ∈ l :=
  (rtake_sublist l D).subset h

/-- What was cut off the front before an item is appended would be cut off afterwards too. -/
theorem rtake_rtake_append (l : List α) (x : α) (D : ℕ) :
    (l.rtake D ++ [x]).rtake D = (l ++ [x]).rtake D := by
  cases D with
  | zero => simp [List.rtake]
  | succ D =>
      rw [List.rtake_concat_succ, List.rtake_concat_succ]
      congr 1
      simp only [List.rtake, List.length_drop, List.drop_drop]
      congr 1
      omega

/-- **Appending to a log of depth `D`**: the oldest item goes when there is no room. -/
def push (D : ℕ) (l : List α) (x : α) : List α := (l ++ [x]).rtake D

theorem push_of_lt {D : ℕ} {l : List α} (x : α) (h : l.length < D) : push D l x = l ++ [x] :=
  rtake_of_length_le (by simp; omega)

theorem push_of_full {D : ℕ} {l : List α} (x : α) (hD : 0 < D) (h : l.length = D) :
    push D l x = l.tail ++ [x] := by
  obtain ⟨E, rfl⟩ : ∃ E, D = E + 1 := ⟨D - 1, by omega⟩
  have hcut : l.length - E = 1 := by omega
  rw [push, List.rtake_concat_succ, List.rtake, hcut, List.drop_one]

/-- A log that is appended to holds the end of the sequence appended so far. -/
theorem push_rtake (D : ℕ) (l : List α) (x : α) : push D (l.rtake D) x = (l ++ [x]).rtake D :=
  rtake_rtake_append l x D

theorem length_push_le (D : ℕ) (l : List α) (x : α) : (push D l x).length ≤ D := by
  rw [push, length_rtake]
  exact min_le_right _ _

theorem push_ne_nil {D : ℕ} (hD : 0 < D) (l : List α) (x : α) : push D l x ≠ [] := by
  obtain ⟨E, rfl⟩ : ∃ E, D = E + 1 := ⟨D - 1, by omega⟩
  rw [push, List.rtake_concat_succ]
  simp

theorem mem_push {D : ℕ} {l : List α} {x y : α} (h : y ∈ push D l x) : y ∈ l ∨ y = x := by
  simpa using mem_of_mem_rtake h

/-! ### A table of logs -/

variable [DecidableEq κ] (key : α → κ) (D : ℕ)

/-- Recording one item in a table with room for `cap` more logs. -/
def record : ℕ → List (κ × List α) → α → List (κ × List α)
  | 0, t, _ => t
  | _ + 1, [], r => [(key r, push D [] r)]
  | cap + 1, (k, l) :: t, r =>
      if k = key r then (k, push D l r) :: t else (k, l) :: record cap t r

/-- Recording a sequence of items, from the empty table. -/
def recordAll (cap : ℕ) (rs : List α) : List (κ × List α) := rs.foldl (record key D cap) []

/-- The items of a sequence that have a given key. -/
def withKey (k : κ) (rs : List α) : List α := rs.filter fun r => key r = k

/-- The distinct keys of a sequence, in order of first appearance. -/
def firstKeys (rs : List α) : List κ := (rs.map key).eraseDups

theorem recordAll_append (cap : ℕ) (rs : List α) (r : α) :
    recordAll key D cap (rs ++ [r]) = record key D cap (recordAll key D cap rs) r := by
  rw [recordAll, List.foldl_append]
  rfl

variable {key D}

theorem withKey_append (k : κ) (rs : List α) (r : α) :
    withKey key k (rs ++ [r]) =
      if key r = k then withKey key k rs ++ [r] else withKey key k rs := by
  unfold withKey
  rw [List.filter_append]
  split <;> simp [*]

theorem mem_withKey {k : κ} {rs : List α} {r : α} : r ∈ withKey key k rs ↔ r ∈ rs ∧ key r = k := by
  simp [withKey]

theorem mem_firstKeys {k : κ} {rs : List α} : k ∈ firstKeys key rs ↔ ∃ r ∈ rs, key r = k := by
  simp [firstKeys, List.mem_eraseDups]

/-- Choosing by key before or after a map that keeps the keys. -/
theorem map_withKey {β : Type*} {key' : β → κ} {f : α → β} (h : ∀ r, key' (f r) = key r) (k : κ)
    (rs : List α) : (withKey key k rs).map f = withKey key' k (rs.map f) := by
  simp only [withKey, List.filter_map, Function.comp_def, h]

theorem firstKeys_append (rs : List α) (r : α) :
    firstKeys key (rs ++ [r]) =
      if key r ∈ firstKeys key rs then firstKeys key rs else firstKeys key rs ++ [key r] := by
  have happ : firstKeys key (rs ++ [r]) =
      firstKeys key rs ++ (List.removeAll [key r] (rs.map key)).eraseDups := by
    simp only [firstKeys, List.map_append, List.map_cons, List.map_nil, List.eraseDups_append]
  have hmem : key r ∈ firstKeys key rs ↔ key r ∈ rs.map key := List.mem_eraseDups
  rw [happ]
  by_cases h : key r ∈ rs.map key
  · have hrem : List.removeAll [key r] (rs.map key) = [] := by
      simpa [List.removeAll] using h
    rw [hrem, if_pos (hmem.2 h), List.eraseDups_nil, List.append_nil]
  · have hrem : List.removeAll [key r] (rs.map key) = [key r] := by
      simpa [List.removeAll] using h
    rw [hrem, if_neg (mt hmem.1 h), List.eraseDups_cons, List.filter_nil, List.eraseDups_nil]

theorem nodup_firstKeys (rs : List α) : (firstKeys key rs).Nodup := by
  induction rs using List.reverseRecOn with
  | nil => simp [firstKeys]
  | append_singleton rs r ih =>
      rw [firstKeys_append]
      split
      · exact ih
      · rename_i h
        exact ih.append (List.nodup_singleton _) (by simpa using h)

/-- Keys that are renamed one to one are collected in the same order. -/
theorem map_firstKeys {β κ' : Type*} [DecidableEq κ'] {key' : β → κ'} {f : α → β} {g : κ → κ'}
    (hg : Function.Injective g) {rs : List α} (h : ∀ r ∈ rs, key' (f r) = g (key r)) :
    (firstKeys key rs).map g = firstKeys key' (rs.map f) := by
  induction rs using List.reverseRecOn with
  | nil => simp [firstKeys]
  | append_singleton rs r ih =>
      have hrs := ih fun x hx => h x (List.mem_append_left _ hx)
      have hr := h r (by simp)
      rw [List.map_append, List.map_singleton, firstKeys_append, firstKeys_append, ← hrs, hr]
      simp only [List.mem_map_of_injective hg]
      split
      · rfl
      · rw [List.map_append, List.map_singleton]

/-- The keys are collected in order: a shorter sequence has a prefix of them. -/
theorem firstKeys_mono {rs rs' : List α} (h : rs <+: rs') :
    firstKeys key rs <+: firstKeys key rs' := by
  obtain ⟨t, rfl⟩ := h
  simp only [firstKeys, List.map_append, List.eraseDups_append]
  exact List.prefix_append _ _

/-- Recording an item whose key is in the table changes the log of that key only. -/
theorem record_of_mem {cap : ℕ} {ks : List κ} {f : κ → List α} {r : α} (hks : ks.Nodup)
    (hcap : ks.length ≤ cap) (h : key r ∈ ks) :
    record key D cap (ks.map fun k => (k, f k)) r =
      ks.map fun k => (k, if k = key r then push D (f k) r else f k) := by
  induction ks generalizing cap with
  | nil => simp at h
  | cons k ks ih =>
      obtain ⟨hk, hks⟩ := List.nodup_cons.1 hks
      obtain ⟨c, rfl⟩ : ∃ c, cap = c + 1 := ⟨cap - 1, by simp at hcap; omega⟩
      by_cases hkr : k = key r
      · have hrest : ks.map (fun k => (k, if k = key r then push D (f k) r else f k)) =
            ks.map fun k => (k, f k) := by
          refine List.map_congr_left ?_
          intro j hj
          rw [if_neg]
          rintro rfl
          exact hk (hkr ▸ hj)
        simp only [List.map_cons, record, if_pos hkr, hrest]
      · have hmem : key r ∈ ks := by
          rcases List.mem_cons.1 h with h | h
          · exact absurd h.symm hkr
          · exact h
        simp only [List.map_cons, record, if_neg hkr]
        rw [ih hks (by simpa using hcap) hmem]

/-- Recording an item with a new key opens a log at the end, if there is room for it. -/
theorem record_of_not_mem {cap : ℕ} {ks : List κ} {f : κ → List α} {r : α}
    (h : key r ∉ ks) :
    record key D cap (ks.map fun k => (k, f k)) r =
      (ks.map fun k => (k, f k)) ++ if ks.length < cap then [(key r, push D [] r)] else [] := by
  induction ks generalizing cap with
  | nil => cases cap <;> simp [record]
  | cons k ks ih =>
      cases cap with
      | zero => simp [record]
      | succ cap =>
          have hk : ¬ k = key r := fun e => h (e ▸ List.mem_cons_self ..)
          simp only [List.map_cons, record, if_neg hk, List.cons_append, List.length_cons,
            Nat.add_lt_add_iff_right]
          rw [ih fun hm => h (List.mem_cons_of_mem _ hm)]

/-- **The table after a sequence**: one log for each of the first `cap` distinct keys, in order of
first appearance, holding the end of the subsequence with that key. -/
theorem recordAll_eq (cap : ℕ) (rs : List α) :
    recordAll key D cap rs =
      ((firstKeys key rs).take cap).map fun k => (k, (withKey key k rs).rtake D) := by
  induction rs using List.reverseRecOn with
  | nil => simp [recordAll, firstKeys]
  | append_singleton rs r ih =>
      rw [recordAll_append, ih, firstKeys_append]
      have hnd : ((firstKeys key rs).take cap).Nodup :=
        (nodup_firstKeys rs).sublist (List.take_sublist cap _)
      have hother : ∀ k, k ≠ key r → withKey key k (rs ++ [r]) = withKey key k rs := fun k hk => by
        rw [withKey_append, if_neg (Ne.symm hk)]
      by_cases hin : key r ∈ (firstKeys key rs).take cap
      · -- a known key: one log is appended to
        rw [record_of_mem hnd (List.length_take_le _ _) hin, if_pos (List.mem_of_mem_take hin)]
        refine List.map_congr_left ?_
        intro k _
        by_cases hk : k = key r
        · rw [if_pos hk, withKey_append, if_pos hk.symm, push_rtake]
        · rw [if_neg hk, hother k hk]
      · rw [record_of_not_mem hin]
        have hsame : ((firstKeys key rs).take cap).map
              (fun k => (k, (withKey key k (rs ++ [r])).rtake D)) =
            ((firstKeys key rs).take cap).map fun k => (k, (withKey key k rs).rtake D) := by
          refine List.map_congr_left ?_
          intro k hk
          rw [hother k fun e => hin (e ▸ hk)]
        by_cases hroom : ((firstKeys key rs).take cap).length < cap
        · -- room for a new log
          have hlen : (firstKeys key rs).length < cap := by
            rw [List.length_take] at hroom
            omega
          have htake : (firstKeys key rs).take cap = firstKeys key rs :=
            List.take_of_length_le (by omega)
          rw [htake] at hin hsame ⊢
          have hnil : withKey key (key r) rs = [] := by
            refine List.filter_eq_nil_iff.2 ?_
            intro r' hr'
            simpa using fun e => hin (mem_firstKeys.2 ⟨r', hr', e⟩)
          rw [if_pos hlen, if_neg hin, List.take_of_length_le (by simp; omega), List.map_append,
            hsame, List.map_singleton, withKey_append, if_pos rfl, hnil, push]
        · -- the table is full: the item is dropped
          rw [if_neg hroom, List.append_nil, ← hsame]
          congr 1
          split
          · rfl
          · rw [List.take_append_of_le_length]
            rw [List.length_take] at hroom
            omega

theorem recordAll_keys (cap : ℕ) (rs : List α) :
    (recordAll key D cap rs).map Prod.fst = (firstKeys key rs).take cap := by
  rw [recordAll_eq, List.map_map]
  exact List.map_id _

theorem length_recordAll (cap : ℕ) (rs : List α) :
    (recordAll key D cap rs).length = ((firstKeys key rs).take cap).length := by
  rw [← recordAll_keys (D := D), List.length_map]

/-- The log at a key of the table. -/
theorem getElem?_recordAll {cap i : ℕ} {rs : List α} {k : κ}
    (h : ((firstKeys key rs).take cap)[i]? = some k) :
    (recordAll key D cap rs)[i]? = some (k, (withKey key k rs).rtake D) := by
  rw [recordAll_eq, List.getElem?_map]
  exact congrArg _ h

/-- Every log of the table is in use and belongs to its key. -/
theorem recordAll_logs {cap : ℕ} {rs : List α} (hD : 0 < D) {p : κ × List α}
    (hp : p ∈ recordAll key D cap rs) : p.2 ≠ [] ∧ ∀ x ∈ p.2, key x = p.1 := by
  rw [recordAll_eq] at hp
  obtain ⟨k, hk, rfl⟩ := List.mem_map.1 hp
  constructor
  · obtain ⟨r, hr, hrk⟩ := mem_firstKeys.1 (List.mem_of_mem_take hk)
    have hpos : 0 < (withKey key k rs).length :=
      List.length_pos_of_mem (mem_withKey.2 ⟨hr, hrk⟩)
    rw [← List.length_pos_iff, length_rtake]
    omega
  · intro x hx
    exact (mem_withKey.1 (mem_of_mem_rtake hx)).2

/-! ### The logs by their place in the table -/

/-- The log at a place of the table, empty past the end. -/
def logAt (t : List (κ × List α)) (i : ℕ) : List α := ((t[i]?).map Prod.snd).getD []

/-- Recording an item changes the log at the place of its key, and no other. -/
theorem logAt_record {cap : ℕ} {t : List (κ × List α)} {r : α}
    (h : key r ∈ t.map Prod.fst ∨ t.length < cap) (hcap : t.length ≤ cap) (i : ℕ) :
    logAt (record key D cap t r) i =
      if i = (t.map Prod.fst).idxOf (key r) then push D (logAt t i) r else logAt t i := by
  induction t generalizing cap i with
  | nil =>
      obtain ⟨c, rfl⟩ : ∃ c, cap = c + 1 := ⟨cap - 1, by simp at h; omega⟩
      cases i <;> simp [record, logAt]
  | cons p t ih =>
      obtain ⟨k, l⟩ := p
      obtain ⟨c, rfl⟩ : ∃ c, cap = c + 1 := ⟨cap - 1, by simp at hcap; omega⟩
      by_cases hk : k = key r
      · rw [record, if_pos hk]
        cases i with
        | zero => simp [logAt, hk]
        | succ i => simp [logAt, hk]
      · have h' : key r ∈ t.map Prod.fst ∨ t.length < c := by
          rcases h with h | h
          · rcases List.mem_cons.1 h with h | h
            · exact absurd h.symm hk
            · exact Or.inl h
          · exact Or.inr (by simpa using h)
        rw [record, if_neg hk]
        cases i with
        | zero => simp [logAt, List.idxOf_cons_ne _ hk]
        | succ i =>
            have := ih h' (by simpa using hcap) i
            simpa [logAt, List.idxOf_cons_ne _ hk] using this

/-! ### Items in the order of their places -/

/-- Items found at increasing places of a sequence are a subsequence of it. -/
theorem map_sublist_of_getElem? {β γ : Type*} {l : List β} {R : List γ} {p : β → ℕ} {f : β → γ}
    (hmono : l.Pairwise fun a b => p a < p b) (hf : ∀ a ∈ l, R[p a]? = some (f a)) :
    (l.map f).Sublist R := by
  have hlt : ∀ a ∈ l, p a < R.length := fun a ha => (List.getElem?_eq_some_iff.1 (hf a ha)).1
  have hplaces : (l.pmap (fun a h => (⟨p a, h⟩ : Fin R.length)) hlt).Pairwise (· < ·) := by
    rw [List.pairwise_pmap]
    exact hmono.imp fun h _ _ => h
  have hmap : (l.pmap (fun a h => (⟨p a, h⟩ : Fin R.length)) hlt).map (R[·]) = l.map f := by
    rw [List.map_pmap, List.pmap_eq_map_attach, ← List.attach_map_val (f := f)]
    refine List.map_congr_left ?_
    intro a _
    exact (List.getElem?_eq_some_iff.1 (hf a.1 a.2)).2
  exact hmap ▸ List.map_getElem_sublist hplaces

end KeyedLog
