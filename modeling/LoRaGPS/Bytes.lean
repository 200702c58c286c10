/-
**Words in memory, the lowest byte first.**

A record of 32-bit words is laid out in memory as the bytes of its words, one after the other.
Memory is a function of the address; an array is the memory from its start on, so that an index
past the end of the array is an address like any other.  A buffer also keeps the addresses it was
accessed at.

Main definitions:

* `Bytes.encode` — the bytes of a sequence of words;
* `Bytes.Memory.write`, `Bytes.Memory.words` — copying bytes to an address, and the words found
  from an address on;
* `Bytes.Buffer` — memory with a trace of the accesses to it.

Main results:

* `Bytes.words_write` — **what was written is read back**, whatever bytes precede it;
* `Bytes.words_congr` — words depend on their own bytes only.
-/

import Mathlib.Data.List.TakeDrop
import Mathlib.Logic.Function.Basic

set_option relaxedAutoImplicit false
set_option autoImplicit false

namespace Bytes

/-! ### Words and bytes -/

/-- The bytes of a word, the lowest first. -/
def ofWord (w : BitVec 32) : List (BitVec 8) :=
  [w.extractLsb' 0 8, w.extractLsb' 8 8, w.extractLsb' 16 8, w.extractLsb' 24 8]

/-- The word of four bytes, the lowest first. -/
def toWord (b₀ b₁ b₂ b₃ : BitVec 8) : BitVec 32 := b₃ ++ b₂ ++ b₁ ++ b₀

theorem toWord_ofWord (w : BitVec 32) :
    toWord (w.extractLsb' 0 8) (w.extractLsb' 8 8) (w.extractLsb' 16 8) (w.extractLsb' 24 8) =
      w := by
  rw [toWord, BitVec.extractLsb'_append_extractLsb'_eq_extractLsb' (by rfl),
    BitVec.extractLsb'_append_extractLsb'_eq_extractLsb' (by rfl),
    BitVec.extractLsb'_append_extractLsb'_eq_extractLsb' (by rfl)]
  exact BitVec.extractLsb'_eq_self

/-- The bytes of a sequence of words. -/
def encode (ws : List (BitVec 32)) : List (BitVec 8) := ws.flatMap ofWord

theorem encode_cons (w : BitVec 32) (ws : List (BitVec 32)) :
    encode (w :: ws) = ofWord w ++ encode ws := List.flatMap_cons

theorem length_encode (ws : List (BitVec 32)) : (encode ws).length = 4 * ws.length := by
  induction ws with
  | nil => rfl
  | cons w ws ih =>
      rw [encode_cons, List.length_append, ih, List.length_cons]
      simp only [ofWord, List.length_cons, List.length_nil]
      omega

/-! ### Memory -/

/-- Memory, by address. -/
abbrev Memory := ℕ → BitVec 8

namespace Memory

variable (m : Memory)

/-- Copying bytes to the address `a`. -/
def write (a : ℕ) (bs : List (BitVec 8)) : Memory :=
  fun i => if a ≤ i then (bs[i - a]?).getD (m i) else m i

/-- The word at the address `a`. -/
def word (a : ℕ) : BitVec 32 := toWord (m a) (m (a + 1)) (m (a + 2)) (m (a + 3))

/-- The `n` words from the address `a` on. -/
def words (a : ℕ) : ℕ → List (BitVec 32)
  | 0 => []
  | n + 1 => m.word a :: words (a + 4) n

end Memory

variable {m m' : Memory}

/-- The bytes of the word found at an address are those from the address on. -/
theorem ofWord_word (m : Memory) (a : ℕ) :
    ofWord (m.word a) = [m a, m (a + 1), m (a + 2), m (a + 3)] := by
  have h₀ : (m.word a).extractLsb' 0 8 = m a := BitVec.extractLsb'_append_eq_right
  have h₁ : (m.word a).extractLsb' 8 8 = m (a + 1) := by
    rw [Memory.word, toWord, BitVec.extractLsb'_append_eq_of_le (by omega)]
    exact BitVec.extractLsb'_append_eq_right
  have h₂ : (m.word a).extractLsb' 16 8 = m (a + 2) := by
    rw [Memory.word, toWord, BitVec.extractLsb'_append_eq_of_le (by omega),
      BitVec.extractLsb'_append_eq_of_le (by omega)]
    exact BitVec.extractLsb'_append_eq_right
  have h₃ : (m.word a).extractLsb' 24 8 = m (a + 3) := by
    rw [Memory.word, toWord, BitVec.extractLsb'_append_eq_of_le (by omega),
      BitVec.extractLsb'_append_eq_of_le (by omega), BitVec.extractLsb'_append_eq_of_le (by omega)]
    exact BitVec.extractLsb'_eq_self
  rw [ofWord, h₀, h₁, h₂, h₃]

/-- The last byte of the word found at an address. -/
theorem word_top (m : Memory) (a : ℕ) : (m.word a).extractLsb' 24 8 = m (a + 3) := by
  have h := ofWord_word m a
  simp only [ofWord, List.cons.injEq] at h
  exact h.2.2.2.1

/-- Words are made of the bytes from the address on. -/
theorem encode_words (m : Memory) (a n : ℕ) :
    encode (m.words a n) = (List.range' a (4 * n)).map m := by
  induction n generalizing a with
  | zero => rfl
  | succ n ih =>
      rw [Memory.words, encode_cons, ih, ofWord_word]
      simp [Nat.mul_succ, List.range'_succ]

theorem write_of_lt {a i : ℕ} (bs : List (BitVec 8)) (h : i < a) : m.write a bs i = m i := by
  rw [Memory.write, if_neg (by omega)]

theorem write_of_ge {a i : ℕ} {bs : List (BitVec 8)} (h : a + bs.length ≤ i) :
    m.write a bs i = m i := by
  rw [Memory.write]
  split
  · rw [List.getElem?_eq_none (by omega), Option.getD_none]
  · rfl

theorem write_add {a i : ℕ} {bs : List (BitVec 8)} {b : BitVec 8} (h : bs[i]? = some b) :
    m.write a bs (a + i) = b := by
  rw [Memory.write, if_pos (by omega), Nat.add_sub_cancel_left, h, Option.getD_some]

/-- What was there before does not show where bytes were written. -/
theorem write_congr {a i : ℕ} {bs : List (BitVec 8)} (h : a ≤ i) (h' : i < a + bs.length) :
    m.write a bs i = m'.write a bs i := by
  obtain ⟨k, rfl⟩ := Nat.exists_eq_add_of_le h
  have hbyte : bs[k]? = some bs[k] := List.getElem?_eq_getElem (by omega)
  rw [write_add hbyte, write_add hbyte]

/-- A byte past the end of what is written may be changed before or after. -/
theorem write_update {a i : ℕ} {bs : List (BitVec 8)} {b : BitVec 8} (h : a + bs.length ≤ i) :
    Memory.write (Function.update m i b) a bs = Function.update (m.write a bs) i b := by
  funext j
  by_cases hj : j = i
  · subst hj
    rw [write_of_ge h, Function.update_self, Function.update_self]
  · rw [Function.update_of_ne hj]
    simp only [Memory.write, Function.update_of_ne hj]

/-- Words depend on their own bytes only. -/
theorem words_congr {a n : ℕ} (h : ∀ i, a ≤ i → i < a + 4 * n → m i = m' i) :
    m.words a n = m'.words a n := by
  induction n generalizing a with
  | zero => rfl
  | succ n ih =>
      have hword : m.word a = m'.word a := by
        simp only [Memory.word]
        rw [h a, h (a + 1), h (a + 2), h (a + 3)] <;> omega
      rw [Memory.words, Memory.words, hword, ih]
      intro i hi hlt
      exact h i (by omega) (by omega)

theorem words_append (m : Memory) (a n k : ℕ) :
    m.words a (n + k) = m.words a n ++ m.words (a + 4 * n) k := by
  induction n generalizing a with
  | zero => simp [Memory.words]
  | succ n ih =>
      have hnext : a + 4 + 4 * n = a + 4 * (n + 1) := by omega
      rw [Nat.add_right_comm, Memory.words, Memory.words, ih, hnext, List.cons_append]

/-- **What was written is read back**, after whatever bytes it was written. -/
theorem words_write (m : Memory) (a : ℕ) (bs : List (BitVec 8)) (ws : List (BitVec 32)) :
    (m.write a (bs ++ encode ws)).words (a + bs.length) ws.length = ws := by
  induction ws generalizing bs with
  | nil => rfl
  | cons w ws ih =>
      have hbyte : ∀ (k : ℕ) (b : BitVec 8), (ofWord w)[k]? = some b →
          m.write a (bs ++ encode (w :: ws)) (a + bs.length + k) = b := by
        intro k b hk
        rw [Nat.add_assoc]
        refine write_add ?_
        rw [List.getElem?_append_right (by omega), Nat.add_sub_cancel_left, encode_cons,
          List.getElem?_append_left (List.getElem?_eq_some_iff.1 hk).1, hk]
      have hword : (m.write a (bs ++ encode (w :: ws))).word (a + bs.length) = w := by
        rw [Memory.word, hbyte 1 _ rfl, hbyte 2 _ rfl, hbyte 3 _ rfl]
        rw [show a + bs.length = a + bs.length + 0 from rfl, hbyte 0 _ rfl]
        exact toWord_ofWord w
      have hrest := ih (bs ++ ofWord w)
      rw [List.append_assoc, ← encode_cons, List.length_append] at hrest
      rw [List.length_cons, Memory.words, hword]
      exact congrArg _ hrest

/-- Past the end of what was written, memory is what it was. -/
theorem words_write_past (m : Memory) {a i n : ℕ} {bs : List (BitVec 8)} (h : a + bs.length ≤ i) :
    (m.write a bs).words i n = m.words i n :=
  words_congr fun _ hj _ => write_of_ge (Nat.le_trans h hj)

/-- Bytes that begin what is there already change nothing. -/
theorem write_prefix {a : ℕ} {bs bs' : List (BitVec 8)} (h : bs <+: bs') :
    (m.write a bs').write a bs = m.write a bs' := by
  funext i
  rcases Nat.lt_or_ge i a with hlt | hge
  · exact write_of_lt bs hlt
  · obtain ⟨k, rfl⟩ := Nat.exists_eq_add_of_le hge
    rcases Nat.lt_or_ge k bs.length with hk | hk
    · have hbyte : bs[k]? = some bs[k] := List.getElem?_eq_getElem hk
      have hbyte' : bs'[k]? = some bs[k] := List.prefix_iff_getElem?.1 h k hk
      rw [write_add hbyte, write_add hbyte']
    · exact write_of_ge (by omega)

/-- What was written begins what is found. -/
theorem prefix_write (m : Memory) (a : ℕ) {n : ℕ} {bs : List (BitVec 8)} (h : bs.length ≤ n) :
    bs <+: (List.range' a n).map (m.write a bs) := by
  rw [List.prefix_iff_getElem?]
  intro k hk
  have hbyte : bs[k]? = some bs[k] := List.getElem?_eq_getElem hk
  rw [List.getElem?_map, List.getElem?_range' (by omega), Option.map_some, Nat.one_mul,
    write_add hbyte]

/-- The C string at the address `a`, with its zero byte among the first `n + 1` bytes. -/
def Memory.cString (m : Memory) (a n : ℕ) : List (BitVec 8) :=
  ((List.range' a n).map m).takeWhile (· ≠ 0)

/-- A C string that was written without its zero byte goes on with what follows. -/
theorem cString_write (m : Memory) (a n : ℕ) {bs : List (BitVec 8)} (h : ∀ b ∈ bs, b ≠ 0) :
    (m.write a bs).cString a (bs.length + n) = bs ++ m.cString (a + bs.length) n := by
  have hbs : (List.range' a bs.length).map (m.write a bs) = bs :=
    ((prefix_write m a (Nat.le_refl _)).eq_of_length (by simp)).symm
  have hrest : (List.range' (a + bs.length) n).map (m.write a bs) =
      (List.range' (a + bs.length) n).map m := by
    refine List.map_congr_left fun i hi => write_of_ge ?_
    exact (List.mem_range'_1.1 hi).1
  rw [Memory.cString, ← List.range'_append_1, List.map_append, hbs, hrest,
    List.takeWhile_append_of_pos (by simpa using h)]
  rfl

/-- Bytes that are not zero begin a C string exactly if they are the first ones in the memory. -/
theorem prefix_cString_iff (m : Memory) (a : ℕ) {n : ℕ} {bs : List (BitVec 8)}
    (h : ∀ b ∈ bs, b ≠ 0) (hn : bs.length ≤ n) :
    bs <+: m.cString a n ↔ (List.range' a bs.length).map m = bs := by
  obtain ⟨k, rfl⟩ := Nat.exists_eq_add_of_le hn
  rw [Memory.cString, ← List.range'_append_1, List.map_append]
  constructor
  · intro hbs
    have hleft := List.prefix_append ((List.range' a bs.length).map m)
      ((List.range' (a + bs.length) k).map m)
    have hfirst := List.prefix_of_prefix_length_le
      (hbs.trans (List.takeWhile_prefix _)) hleft (by simp)
    exact (hfirst.eq_of_length (by simp)).symm
  · intro hbs
    rw [hbs, List.takeWhile_append_of_pos (by simpa using h)]
    exact List.prefix_append _ _

/-! ### Traced memory -/

/-- The memory from the start of an array on, and the indices that were written and read. -/
structure Buffer where
  mem : Memory
  written : List ℕ
  read : List ℕ

namespace Buffer

/-- A buffer that has not been accessed. -/
def start (m : Memory) : Buffer := ⟨m, [], []⟩

/-- Writing bytes from the index `a` on. -/
def store (b : Buffer) (a : ℕ) (bs : List (BitVec 8)) : Buffer :=
  { b with mem := b.mem.write a bs, written := b.written ++ List.range' a bs.length }

/-- Reading the `n` bytes from the index `a` on. -/
def load (b : Buffer) (a n : ℕ) : Buffer := { b with read := b.read ++ List.range' a n }

end Buffer

end Bytes
