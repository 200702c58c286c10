/-
**Formatted input.**

The conversions of `sscanf` that read an `unsigned long`, an `int` and a `float`, all of 32 bits,
on the text before the zero byte of a string.  A directive takes the longest part of the text that
is, or begins, what it matches; where that part does not match, the conversion ends, and what was
read before stands.  An integer that does not fit its variable leaves the behaviour undefined, and
the whole conversion is `none`.

Main definitions:

* `Scanf.readInt`, `Scanf.readFloat` — the parts of a text that `%d`, `%lu` and `%f` take;
* `Scanf.scan` — the values that a list of directives reads, in order.

Main results:

* `Scanf.int_eq_some_iff`, `Scanf.unsignedLong_toNat` — when an integer fits its variable;
* `Scanf.scan_literals`, `Scanf.scan_unsignedLong`, `Scanf.scan_int`, `Scanf.scan_float` — what was
  printed is read back, as long as the text behind it does not continue it;
* `Scanf.scan_int_append` — an integer at the end takes the digits behind it as well.
-/

import LoRaGPS.Decimal

set_option relaxedAutoImplicit false
set_option autoImplicit false

namespace Scanf

open Decimal

/-! ### Directives and the text they take -/

/-- A directive of a format. -/
inductive Directive
  | literal (c : Char)
  | space
  | unsignedLong
  | int
  | float
deriving DecidableEq, Repr

/-- White space: a blank, or one of the five control characters from tab to carriage return. -/
def isSpace (c : Char) : Bool := c == ' ' || (9 ≤ c.toNat && c.toNat ≤ 13)

/-- The text without the white space at its start. -/
def skipSpace (cs : List Char) : List Char := cs.dropWhile isSpace

/-- An optional sign, and the rest. -/
def takeSign : List Char → List Char × List Char
  | '-' :: cs => (['-'], cs)
  | '+' :: cs => (['+'], cs)
  | cs => ([], cs)

/-- A decimal integer, and the rest. -/
def readInt (cs : List Char) : Option (ℤ × List Char) :=
  let (sign, cs) := takeSign cs
  if digits cs = [] then none
  else some (signed (sign = ['-']) (Nat.ofDigitChars 10 (digits cs) 0), afterDigits cs)

/-- Digits with at most one point among them, and the rest. -/
def mantissa (isDigit : Char → Bool) (cs : List Char) : List Char × List Char :=
  match cs.dropWhile isDigit with
  | '.' :: rest => (cs.takeWhile isDigit ++ '.' :: rest.takeWhile isDigit, rest.dropWhile isDigit)
  | rest => (cs.takeWhile isDigit, rest)

/-- An exponent after one of the given marks, if there is such a mark, and the rest. -/
def exponent (marks : List Char) : List Char → Option (List Char × List Char)
  | [] => some ([], [])
  | c :: cs =>
      if c ∈ marks then
        let (sign, cs) := takeSign cs
        if digits cs = [] then none else some (c :: sign ++ digits cs, afterDigits cs)
      else some ([], c :: cs)

/-- Digits with an optional point and an optional exponent, and the rest. -/
def number (isDigit : Char → Bool) (marks : List Char) (cs : List Char) :
    Option (List Char × List Char) :=
  let (m, rest) := mantissa isDigit cs
  if m.any isDigit then (exponent marks rest).map fun (e, rest) => (m ++ e, rest) else none

/-- The number of characters that agree with the given word, but for the case. -/
def agreeing : List Char → List Char → ℕ
  | w :: ws, c :: cs => if c.toLower = w then agreeing ws cs + 1 else 0
  | _, _ => 0

/-- `inf` or `infinity`, and the rest. -/
def infinity (cs : List Char) : Option (List Char × List Char) :=
  let n := agreeing "infinity".toList cs
  if n = 3 ∨ n = 8 then some (cs.splitAt n) else none

/-- `nan`, with an optional word in parentheses, and the rest. -/
def nan (cs : List Char) : Option (List Char × List Char) :=
  let isWord := fun c : Char => c.isAlphanum || c == '_'
  if agreeing "nan".toList cs = 3 then
    match cs.drop 3 with
    | '(' :: rest =>
        match rest.dropWhile isWord with
        | ')' :: rest' => some (cs.take 4 ++ rest.takeWhile isWord ++ [')'], rest')
        | _ => none
    | rest => some (cs.take 3, rest)
  else none

/-- A floating-point number without its sign, and the rest. -/
def readMagnitude : List Char → Option (List Char × List Char)
  | c :: c' :: rest =>
      if c = 'i' ∨ c = 'I' then infinity (c :: c' :: rest)
      else if c = 'n' ∨ c = 'N' then nan (c :: c' :: rest)
      else if c = '0' ∧ (c' = 'x' ∨ c' = 'X') then
        (number Char.isHexDigit ['p', 'P'] rest).map fun (m, rest) => (c :: c' :: m, rest)
      else number Char.isDigit ['e', 'E'] (c :: c' :: rest)
  | cs => number Char.isDigit ['e', 'E'] cs

/-- A floating-point number, and the rest. -/
def readFloat (cs : List Char) : Option (List Char × List Char) :=
  let (sign, cs) := takeSign cs
  (readMagnitude cs).map fun (m, rest) => (sign ++ m, rest)

/-! ### The conversion -/

/-- An `unsigned long`; the negative of a number that fits is taken modulo `2 ^ 32`. -/
def unsignedLong (z : ℤ) : Option (BitVec 32) :=
  if -2 ^ 32 < z ∧ z < 2 ^ 32 then some (BitVec.ofInt 32 z) else none

/-- An `int`. -/
def int (z : ℤ) : Option (BitVec 32) :=
  if -2 ^ 31 ≤ z ∧ z < 2 ^ 31 then some (BitVec.ofInt 32 z) else none

section Conversion

-- the value of a floating-point number, as a bit pattern
variable (toFloat : List Char → BitVec 32)

/-- **The values that the directives read** from a text, in order. -/
def scan : List Directive → List Char → Option (List (BitVec 32))
  | [], _ => some []
  | .literal _ :: _, [] => some []
  | .literal c :: ds, c' :: cs => if c = c' then scan ds cs else some []
  | .space :: ds, cs => scan ds (skipSpace cs)
  | .unsignedLong :: ds, cs =>
      match readInt (skipSpace cs) with
      | none => some []
      | some (z, cs) => (unsignedLong z).bind fun w => (scan ds cs).map (w :: ·)
  | .int :: ds, cs =>
      match readInt (skipSpace cs) with
      | none => some []
      | some (z, cs) => (int z).bind fun w => (scan ds cs).map (w :: ·)
  | .float :: ds, cs =>
      match readFloat (skipSpace cs) with
      | none => some []
      | some (item, cs) => (scan ds cs).map (toFloat item :: ·)

end Conversion

/-! ### Integers that fit -/

theorem int_eq_some_iff {z : ℤ} {w : BitVec 32} : int z = some w ↔ z = w.toInt := by
  rw [int, Option.ite_none_right_eq_some, Option.some_inj]
  constructor
  · rintro ⟨⟨hlo, hhi⟩, rfl⟩
    rw [BitVec.toInt_ofInt, Int.bmod_eq_of_le (by omega) (by omega)]
  · rintro rfl
    refine ⟨⟨?_, ?_⟩, BitVec.ofInt_toInt⟩
    · have := BitVec.le_toInt w
      omega
    · have := BitVec.toInt_lt (x := w)
      omega

theorem unsignedLong_toNat (w : BitVec 32) : unsignedLong w.toNat = some w := by
  have hw := w.isLt
  rw [unsignedLong, if_pos ⟨by omega, by omega⟩]
  simp

/-! ### Reading back what was printed -/

theorem isSpace_of_isDigit {c : Char} (h : c.isDigit) : isSpace c = false := by
  have hblank : c ≠ ' ' := ne_of_isDigit h rfl
  rw [Char.isDigit_iff_toNat] at h
  have hlo : 48 ≤ c.toNat := h.1
  simp only [isSpace, beq_eq_false_iff_ne.2 hblank, Bool.false_or, Bool.and_eq_false_iff,
    decide_eq_false_iff_not]
  omega

theorem skipSpace_of_not_space {c : Char} {cs : List Char} (h : isSpace c = false) :
    skipSpace (c :: cs) = c :: cs := by
  rw [skipSpace, List.dropWhile_cons_of_neg (by simp [h])]

theorem takeSign_of_isDigit {c : Char} (h : c.isDigit) (cs : List Char) :
    takeSign (c :: cs) = ([], c :: cs) := by
  rw [takeSign]
  · intro cs' hcs
    exact ne_of_isDigit h rfl (List.cons_eq_cons.1 hcs).1
  · intro cs' hcs
    exact ne_of_isDigit h rfl (List.cons_eq_cons.1 hcs).1

/-- The digits of a number start with a digit. -/
theorem exists_toDigits (n : ℕ) : ∃ c ds, Nat.toDigits 10 n = c :: ds ∧ c.isDigit ∧
    ∀ d ∈ ds, d.isDigit := by
  have hall := isDigit_toDigits n
  cases h : Nat.toDigits 10 n with
  | nil => exact absurd h Nat.toDigits_ne_nil
  | cons c ds =>
      rw [h] at hall
      obtain ⟨hc, hds⟩ := List.forall_mem_cons.1 hall
      exact ⟨c, ds, rfl, hc, hds⟩

/-- White space and a sign are looked for in vain before the digits of a number. -/
theorem readInt_toDigits (n : ℕ) (cs : List Char) :
    readInt (skipSpace (Nat.toDigits 10 n ++ cs)) =
      some (((Nat.ofDigitChars 10 (Nat.toDigits 10 n ++ digits cs) 0 : ℕ) : ℤ),
        afterDigits cs) := by
  have hdigits := digits_append (isDigit_toDigits n) cs
  have hafter := afterDigits_append (isDigit_toDigits n) cs
  obtain ⟨c, ds, h, hc, -⟩ := exists_toDigits n
  rw [h] at hdigits hafter ⊢
  rw [List.cons_append] at hdigits hafter ⊢
  rw [skipSpace_of_not_space (isSpace_of_isDigit hc), readInt, takeSign_of_isDigit hc]
  simp only [hdigits, hafter]
  simp [signed]

/-- `%d` and `%lu` take the text of an integer and the digits behind it. -/
theorem readInt_ofInt (z : ℤ) (cs : List Char) :
    readInt (skipSpace (ofInt z ++ cs)) =
      some (continued z (digits cs), afterDigits cs) := by
  obtain ⟨htext, -⟩ := ofInt_eq z
  by_cases hz : z < 0
  · rw [htext, if_pos hz, List.append_assoc, List.singleton_append,
      skipSpace_of_not_space rfl, readInt, takeSign]
    simp only [digits_append (isDigit_toDigits _), afterDigits_append (isDigit_toDigits _)]
    simp [continued, hz]
  · rw [htext, if_neg hz, List.nil_append, readInt_toDigits, continued, signed,
      decide_eq_false hz]
    rfl

/-! ### Reading back a decimal fraction -/

theorem exponent_of_not_mark {marks cs : List Char} (h : ∀ c ∈ cs.head?, c ∉ marks) :
    exponent marks cs = some ([], cs) := by
  cases cs with
  | nil => rfl
  | cons c cs => rw [exponent, if_neg (h c rfl)]

theorem mantissa_decimal (n : ℕ) {f cs : List Char} (hf : ∀ c ∈ f, c.isDigit)
    (hcs : digits cs = []) :
    mantissa Char.isDigit (Nat.toDigits 10 n ++ '.' :: (f ++ cs)) =
      (Nat.toDigits 10 n ++ '.' :: f, cs) := by
  have hpoint : (Nat.toDigits 10 n ++ '.' :: (f ++ cs)).dropWhile Char.isDigit =
      '.' :: (f ++ cs) := afterDigits_append (isDigit_toDigits n) _
  have hwhole : (Nat.toDigits 10 n ++ '.' :: (f ++ cs)).takeWhile Char.isDigit =
      Nat.toDigits 10 n := by
    have htake := digits_append (isDigit_toDigits n) ('.' :: (f ++ cs))
    rwa [show digits ('.' :: (f ++ cs)) = [] from rfl, List.append_nil] at htake
  have hfraction : (f ++ cs).takeWhile Char.isDigit = f := by
    have htake := digits_append hf cs
    rwa [hcs, List.append_nil] at htake
  have hrest : (f ++ cs).dropWhile Char.isDigit = cs := by
    have hdrop := afterDigits_append hf cs
    rwa [afterDigits_of_digits_eq_nil hcs] at hdrop
  simp only [mantissa, hpoint, hwhole, hfraction, hrest]

theorem number_decimal (n : ℕ) {f cs marks : List Char} (hf : ∀ c ∈ f, c.isDigit)
    (hcs : digits cs = []) (hmark : ∀ c ∈ cs.head?, c ∉ marks) :
    number Char.isDigit marks (Nat.toDigits 10 n ++ '.' :: (f ++ cs)) =
      some (Nat.toDigits 10 n ++ '.' :: f, cs) := by
  have hany : (Nat.toDigits 10 n ++ '.' :: f).any Char.isDigit := by
    obtain ⟨c, ds, h, hc, -⟩ := exists_toDigits n
    rw [h, List.cons_append, List.any_cons, hc, Bool.true_or]
  rw [number, mantissa_decimal n hf hcs]
  simp only [hany, if_true, exponent_of_not_mark hmark, Option.map_some, List.append_nil]

/-- A digit that is not followed by an `x` starts a decimal number. -/
theorem readMagnitude_of_isDigit {c c' : Char} (hc : c.isDigit) (hc' : ¬ (c' = 'x' ∨ c' = 'X'))
    (cs : List Char) :
    readMagnitude (c :: c' :: cs) = number Char.isDigit ['e', 'E'] (c :: c' :: cs) := by
  have hi : ¬ (c = 'i' ∨ c = 'I') := not_or.2 ⟨ne_of_isDigit hc rfl, ne_of_isDigit hc rfl⟩
  have hn : ¬ (c = 'n' ∨ c = 'N') := not_or.2 ⟨ne_of_isDigit hc rfl, ne_of_isDigit hc rfl⟩
  rw [readMagnitude, if_neg hi, if_neg hn, if_neg fun h => hc' h.2]

/-- **A decimal fraction is read back** if what follows does not continue it. -/
theorem readMagnitude_decimal (n : ℕ) {f cs : List Char} (hf : ∀ c ∈ f, c.isDigit)
    (hcs : digits cs = []) (hmark : ∀ c ∈ cs.head?, c ∉ ['e', 'E']) :
    readMagnitude (Nat.toDigits 10 n ++ '.' :: (f ++ cs)) =
      some (Nat.toDigits 10 n ++ '.' :: f, cs) := by
  have hnumber := number_decimal n hf hcs hmark
  obtain ⟨c, ds, h, hc, hds⟩ := exists_toDigits n
  rw [h] at hnumber ⊢
  -- the second character is the point, or a digit
  cases ds with
  | nil =>
      rw [← hnumber]
      exact readMagnitude_of_isDigit hc (by simp) _
  | cons d ds =>
      have hdigit := hds d (List.mem_cons_self ..)
      have hd : ¬ (d = 'x' ∨ d = 'X') :=
        not_or.2 ⟨ne_of_isDigit hdigit rfl, ne_of_isDigit hdigit rfl⟩
      rw [← hnumber]
      exact readMagnitude_of_isDigit hc hd _

theorem readFloat_decimal (neg : Bool) (n : ℕ) {f cs : List Char} (hf : ∀ c ∈ f, c.isDigit)
    (hcs : digits cs = []) (hmark : ∀ c ∈ cs.head?, c ∉ ['e', 'E']) :
    readFloat (skipSpace ((if neg then ['-'] else []) ++ Nat.toDigits 10 n ++ '.' :: (f ++ cs))) =
      some ((if neg then ['-'] else []) ++ Nat.toDigits 10 n ++ '.' :: f, cs) := by
  have hmagnitude := readMagnitude_decimal n hf hcs hmark
  cases neg with
  | true =>
      rw [if_pos rfl, List.append_assoc, List.singleton_append,
        skipSpace_of_not_space rfl, readFloat, takeSign]
      simp only [hmagnitude]
      rfl
  | false =>
      rw [if_neg Bool.false_ne_true, List.nil_append]
      obtain ⟨c, ds, h, hc, -⟩ := exists_toDigits n
      rw [h, List.cons_append] at hmagnitude ⊢
      rw [skipSpace_of_not_space (isSpace_of_isDigit hc), readFloat, takeSign_of_isDigit hc]
      simp only [hmagnitude, Option.map_some, List.nil_append, List.cons_append]

/-! ### Reading back with directives -/

section Scan

variable (toFloat : List Char → BitVec 32) (ds : List Directive)

theorem scan_literals (s cs : List Char) :
    scan toFloat (s.map .literal ++ ds) (s ++ cs) = scan toFloat ds cs := by
  induction s with
  | nil => rfl
  | cons c s ih =>
      rw [List.map_cons, List.cons_append, List.cons_append, scan, if_pos rfl]
      exact ih

theorem scan_unsignedLong (w : BitVec 32) {cs : List Char} (h : digits cs = []) :
    scan toFloat (.unsignedLong :: ds) (Nat.toDigits 10 w.toNat ++ cs) =
      (scan toFloat ds cs).map (w :: ·) := by
  rw [scan, readInt_toDigits, h, List.append_nil, Nat.ofDigitChars_ten_toDigits,
    afterDigits_of_digits_eq_nil h]
  simp only [unsignedLong_toNat, Option.bind_some]

/-- **An integer takes the digits behind it** as well. -/
theorem scan_int_append (w : BitVec 32) (cs : List Char) :
    scan toFloat (.int :: ds) (ofInt w.toInt ++ cs) =
      (int (continued w.toInt (digits cs))).bind fun v =>
        (scan toFloat ds (afterDigits cs)).map (v :: ·) := by
  rw [scan, readInt_ofInt]

theorem scan_int (w : BitVec 32) {cs : List Char} (h : digits cs = []) :
    scan toFloat (.int :: ds) (ofInt w.toInt ++ cs) = (scan toFloat ds cs).map (w :: ·) := by
  have hz := (continued_eq_iff w.toInt (isDigit_digits cs)).2 (Or.inl h)
  rw [scan_int_append, hz, int_eq_some_iff.2 rfl, Option.bind_some,
    afterDigits_of_digits_eq_nil h]

theorem scan_float (neg : Bool) (n : ℕ) {f cs : List Char} (hf : ∀ c ∈ f, c.isDigit)
    (hcs : digits cs = []) (hmark : ∀ c ∈ cs.head?, c ∉ ['e', 'E']) :
    scan toFloat (.float :: ds)
        ((if neg then ['-'] else []) ++ Nat.toDigits 10 n ++ '.' :: (f ++ cs)) =
      (scan toFloat ds cs).map
        (toFloat ((if neg then ['-'] else []) ++ Nat.toDigits 10 n ++ '.' :: f) :: ·) := by
  rw [scan, readFloat_decimal neg n hf hcs hmark]

end Scan

end Scanf
