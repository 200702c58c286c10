/-
**Positions sent as text.**

`Node0_rcvrTry3.0.ino` sends its position as a line of text, without the zero byte that ends a C
string.  The listener receives the text into a buffer that is not initialised, takes the buffer for
a C string, and so reads on into what the buffer held before; a digit there continues the seconds.
A text that starts with `UID:` is added to the manifest whether or not the rest of it could be read.

Main definitions:

* `LoRaGPS.TextNode.sendLocation`, `LoRaGPS.TextNode.listenForNodes`,
  `LoRaGPS.TextNode.addToManifest` — the code;
* `LoRaGPS.TextNode.heard` — the call of `addToManifest` that a packet leads to;
* `LoRaGPS.TextNode.SenderForm` — the texts that have the form of what is sent.

Main results:

* `LoRaGPS.TextNode.scan_message` — what is read of a message and the text behind it;
* `LoRaGPS.TextNode.text_message_iff` — **a message is decoded to what was sent exactly if the
  buffer does not go on with digits**, or only with zeros after a zero;
* `LoRaGPS.TextNode.malformed_iff` — **a text that is not of the form leaves every manifest alone
  exactly if it does not start with `UID:`**.
-/

import LoRaGPS.Checked
import LoRaGPS.PacketFormat
import LoRaGPS.Scanf

set_option relaxedAutoImplicit false
set_option autoImplicit false

namespace LoRaGPS.TextNode

open Bytes Decimal Scanf

/-! ### The code -/

/-- `struct Location`. -/
structure Location where
  lat : BitVec 32
  lng : BitVec 32
  hour : BitVec 32
  minute : BitVec 32
  second : BitVec 32
deriving DecidableEq, Repr

/-- The globals `manifest` and `nodeCount`. -/
structure Listener where
  manifest : List Location
  nodeCount : ℕ
deriving DecidableEq, Repr

/-- The arguments of `addToManifest`. -/
structure Arguments where
  uid : BitVec 32
  lat : BitVec 32
  lon : BitVec 32
  hour : BitVec 32
  minute : BitVec 32
  second : BitVec 32
deriving DecidableEq, Repr

/-- The entry that the arguments make; the ID is only printed. -/
def Arguments.location (args : Arguments) : Location :=
  { lat := args.lat
    lng := args.lon
    hour := args.hour
    minute := args.minute
    second := args.second }

/-- `addToManifest`. -/
def addToManifest (s : Listener) (args : Arguments) : Option Listener :=
  if s.nodeCount < 50 then do
    let manifest ← Checked.store s.manifest s.nodeCount args.location
    some ⟨manifest, s.nodeCount + 1⟩
  else do
    let shifted ← Checked.shiftDown s.manifest 49
    let manifest ← Checked.store shifted 49 args.location
    some ⟨manifest, s.nodeCount⟩

/-- A decimal fraction with two decimals, no larger than a `float`. -/
structure TwoDecimals where
  neg : Bool
  whole : ℕ
  hundredths : Fin 100
  small : whole < 2 ^ 128

/-- The two decimals. -/
def TwoDecimals.fraction (x : TwoDecimals) : List Char :=
  [Nat.digitChar (x.hundredths / 10), Nat.digitChar (x.hundredths % 10)]

/-- The text of a decimal fraction. -/
def TwoDecimals.text (x : TwoDecimals) : List Char :=
  (if x.neg then ['-'] else []) ++ Nat.toDigits 10 x.whole ++ '.' :: x.fraction

/-- A byte as a character. -/
def ofByte (b : BitVec 8) : Char := Char.ofNat b.toNat

/-- A character as a byte. -/
def toByte (c : Char) : BitVec 8 := BitVec.ofNat 8 c.toNat

/-- The array `buf` of 255 bytes with the memory behind it, in which there is some zero byte. -/
structure LocalBuffer where
  mem : Memory
  last : ℕ
  behind : 255 ≤ last
  zero : mem last = 0

section Code

-- `print` is `String(float)`, `toFloat` the value of a number read by `%f`, and `unset` what the
-- local variables of `listenForNodes` hold before they are read
variable (R : Radios) (print : BitVec 32 → TwoDecimals) (toFloat : List Char → BitVec 32)
  (unset : Arguments)

/-- The `message` of `sendLocation`. -/
def message (nodeUID lat lon hour minute second : BitVec 32) : List Char :=
  ['U', 'I', 'D', ':'] ++ Nat.toDigits 10 nodeUID.toNat ++ [' ', 'L', 'O', 'C', ':'] ++
    (print lat).text ++ [','] ++ (print lon).text ++ [','] ++ ofInt hour.toInt ++ [':'] ++
    ofInt minute.toInt ++ [':'] ++ ofInt second.toInt

/-- `sendLocation`: the bytes of the message, without a zero byte. -/
def sendLocation (nodeUID lat lon hour minute second : BitVec 32) : List (BitVec 8) :=
  R.rf95Send ((message print nodeUID lat lon hour minute second).map toByte)

/-- `"%lu LOC:%f,%f,%d:%d:%d"`. -/
def locationFormat : List Directive :=
  .unsignedLong :: .space :: (['L', 'O', 'C', ':'].map .literal ++ .float :: ([','].map .literal ++
    .float :: ([','].map .literal ++ .int :: ([':'].map .literal ++
      .int :: ([':'].map .literal ++ [.int])))))

/-- The variables after `sscanf` has read the given values. -/
def Arguments.assign (unset : Arguments) (values : List (BitVec 32)) : Arguments :=
  { uid := values.getD 0 unset.uid
    lat := values.getD 1 unset.lat
    lon := values.getD 2 unset.lon
    hour := values.getD 3 unset.hour
    minute := values.getD 4 unset.minute
    second := values.getD 5 unset.second }

/-- `String received`: the buffer as a C string, once `recv` has copied the packet to it. -/
def received (b : LocalBuffer) (frame : List (BitVec 8)) : List Char :=
  ((R.rf95Recv b.mem 255 frame).cString 0 b.last).map ofByte

/-- The first four bytes of the buffer, once `recv` has copied the packet to it. -/
def firstBytes (b : LocalBuffer) (frame : List (BitVec 8)) : List (BitVec 8) :=
  (List.range 4).map (R.rf95Recv b.mem 255 frame)

/-- The variables after the call of `sscanf` on the text behind `UID:`. -/
def conversion (text : List Char) : Option Arguments :=
  (scan toFloat locationFormat (text.drop 4)).map unset.assign

/-- The call of `addToManifest` that a packet leads to, if any. -/
def heard (b : LocalBuffer) (frame : List (BitVec 8)) : Option (Option Arguments) :=
  if ['U', 'I', 'D', ':'] <+: received R b frame then
    (conversion toFloat unset (received R b frame)).map some
  else some none

/-- `listenForNodes`, for a packet that was received. -/
def listenForNodes (b : LocalBuffer) (s : Listener) (frame : List (BitVec 8)) :
    Option Listener := do
  match ← heard R toFloat unset b frame with
  | none => some s
  | some args => addToManifest s args

end Code

/-- With room left, the entry goes to the next cell. -/
theorem addToManifest_of_lt {s : Listener} (hcells : s.manifest.length = 50)
    (hroom : s.nodeCount < 50) (args : Arguments) :
    addToManifest s args = some ⟨s.manifest.set s.nodeCount args.location, s.nodeCount + 1⟩ := by
  rw [addToManifest, if_pos hroom, Checked.store_eq_some _ (by omega)]
  rfl

/-- Without room, the oldest entry is dropped. -/
theorem addToManifest_of_full {s : Listener} (hcells : s.manifest.length = 50)
    (hfull : 50 ≤ s.nodeCount) (args : Arguments) :
    addToManifest s args = some ⟨s.manifest.tail ++ [args.location], s.nodeCount⟩ := by
  rw [addToManifest, if_neg (Nat.not_lt.2 hfull)]
  simp only [Option.bind_eq_bind, ← Option.bind_assoc, Checked.shiftDown_store hcells,
    Option.bind_some]

/-! ### The text that is received -/

/-- A character that is a byte, and not the zero byte. -/
def Plain (c : Char) : Prop := 0 < c.toNat ∧ c.toNat < 256

theorem plain_of_all {cs : List Char}
    (h : (cs.all fun c => decide (0 < c.toNat) && decide (c.toNat < 256)) = true) :
    ∀ c ∈ cs, Plain c := by
  intro c hc
  have hplain := List.all_eq_true.1 h c hc
  rw [Bool.and_eq_true, decide_eq_true_iff, decide_eq_true_iff] at hplain
  exact hplain

theorem Plain.ofByte_toByte {c : Char} (h : Plain c) : ofByte (toByte c) = c := by
  have hbyte : (toByte c).toNat = c.toNat := by
    rw [toByte, BitVec.toNat_ofNat, Nat.mod_eq_of_lt h.2]
  rw [ofByte, hbyte, Char.ofNat_toNat]

theorem Plain.toByte_ne_zero {c : Char} (h : Plain c) : toByte c ≠ 0 := by
  intro hzero
  have hbyte := congrArg BitVec.toNat hzero
  rw [toByte, BitVec.toNat_ofNat, Nat.mod_eq_of_lt h.2] at hbyte
  exact absurd hbyte (Nat.ne_of_gt h.1)

theorem plain_of_isDigit {c : Char} (h : c.isDigit) : Plain c := by
  rw [Char.isDigit_iff_toNat] at h
  have hlo : 48 ≤ c.toNat := h.1
  have hhi : c.toNat ≤ 57 := h.2
  exact ⟨by omega, by omega⟩

theorem plain_toDigits (n : ℕ) : ∀ c ∈ Nat.toDigits 10 n, Plain c :=
  fun c hc => plain_of_isDigit (isDigit_toDigits n c hc)

theorem plain_ofInt (z : ℤ) : ∀ c ∈ ofInt z, Plain c := by
  cases z with
  | ofNat n => exact plain_toDigits n
  | negSucc n =>
      have hsign : ∀ c ∈ ['-'], Plain c := plain_of_all rfl
      exact List.forall_mem_append.2 ⟨hsign, plain_toDigits (n + 1)⟩

theorem TwoDecimals.isDigit_fraction (x : TwoDecimals) : ∀ c ∈ x.fraction, c.isDigit := by
  have htens : (Nat.digitChar (x.hundredths / 10)).isDigit := by
    rw [Nat.isDigit_digitChar, decide_eq_true_iff]
    omega
  have hones : (Nat.digitChar (x.hundredths % 10)).isDigit := by
    rw [Nat.isDigit_digitChar, decide_eq_true_iff]
    omega
  exact List.forall_mem_cons.2 ⟨htens, List.forall_mem_singleton.2 hones⟩

theorem TwoDecimals.plain_text (x : TwoDecimals) : ∀ c ∈ x.text, Plain c := by
  have hfraction : ∀ c ∈ x.fraction, Plain c :=
    fun c hc => plain_of_isDigit (x.isDigit_fraction c hc)
  have hpoint : ∀ c ∈ ['.'], Plain c := plain_of_all rfl
  have hsign : ∀ c ∈ if x.neg then ['-'] else [], Plain c := by
    cases x.neg with
    | true => exact plain_of_all rfl
    | false => exact fun c hc => (List.not_mem_nil hc).elim
  rw [text, List.forall_mem_append, List.forall_mem_append]
  exact ⟨⟨hsign, plain_toDigits _⟩, List.forall_mem_append.2 ⟨hpoint, hfraction⟩⟩

theorem length_ofInt_le (w : BitVec 32) : (ofInt w.toInt).length ≤ 11 := by
  have hlo : -2147483648 ≤ w.toInt := BitVec.le_toInt w
  have hhi : w.toInt < 2147483648 := BitVec.toInt_lt
  have hdigits : (Nat.toDigits 10 w.toInt.natAbs).length ≤ 10 := by
    rw [Nat.length_toDigits_le_iff (by decide) (by decide)]
    omega
  rw [(ofInt_eq w.toInt).1, List.length_append]
  split
  · rw [List.length_singleton]
    omega
  · rw [List.length_nil]
    omega

theorem TwoDecimals.length_text_le (x : TwoDecimals) : x.text.length ≤ 43 := by
  have hdigits : (Nat.toDigits 10 x.whole).length ≤ 39 := by
    rw [Nat.length_toDigits_le_iff (by decide) (by decide)]
    exact Nat.lt_of_lt_of_le x.small (by norm_num)
  rw [text, List.length_append, List.length_append, List.length_cons]
  have hsign : (if x.neg then ['-'] else []).length ≤ 1 := by cases x.neg <;> simp
  have hfraction : x.fraction.length = 2 := rfl
  omega

section Received

variable (R : Radios) (print : BitVec 32 → TwoDecimals) (b : LocalBuffer)
  (nodeUID lat lon hour minute second : BitVec 32)

theorem plain_message : ∀ c ∈ message print nodeUID lat lon hour minute second, Plain c := by
  have hUID : ∀ c ∈ ['U', 'I', 'D', ':'], Plain c := plain_of_all rfl
  have hLOC : ∀ c ∈ [' ', 'L', 'O', 'C', ':'], Plain c := plain_of_all rfl
  have hcomma : ∀ c ∈ [','], Plain c := plain_of_all rfl
  have hcolon : ∀ c ∈ [':'], Plain c := plain_of_all rfl
  simp only [message, List.forall_mem_append]
  exact ⟨⟨⟨⟨⟨⟨⟨⟨⟨⟨⟨hUID, plain_toDigits _⟩, hLOC⟩, (print lat).plain_text⟩, hcomma⟩,
    (print lon).plain_text⟩, hcomma⟩, plain_ofInt _⟩, hcolon⟩, plain_ofInt _⟩, hcolon⟩,
    plain_ofInt _⟩

/-- A message fits the buffer. -/
theorem length_message_le :
    (message print nodeUID lat lon hour minute second).length ≤ 142 := by
  have huid : (Nat.toDigits 10 nodeUID.toNat).length ≤ 10 := by
    rw [Nat.length_toDigits_le_iff (by decide) (by decide)]
    exact Nat.lt_of_lt_of_le nodeUID.isLt (by norm_num)
  have hlat := (print lat).length_text_le
  have hlon := (print lon).length_text_le
  have hhour := length_ofInt_le hour
  have hminute := length_ofInt_le minute
  have hsecond := length_ofInt_le second
  have hUID : ['U', 'I', 'D', ':'].length = 4 := rfl
  have hLOC : [' ', 'L', 'O', 'C', ':'].length = 5 := rfl
  have hcomma : [','].length = 1 := rfl
  have hcolon : [':'].length = 1 := rfl
  simp only [message, List.length_append]
  omega

/-- The text that the buffer holds from the index `n` on. -/
def LocalBuffer.textFrom (n : ℕ) : List Char := (b.mem.cString n (b.last - n)).map ofByte

/-- **What is received of a message** goes on with what the buffer held. -/
theorem received_sendLocation :
    received R b (sendLocation R print nodeUID lat lon hour minute second) =
      message print nodeUID lat lon hour minute second ++
        b.textFrom (message print nodeUID lat lon hour minute second).length := by
  have hplain := plain_message print nodeUID lat lon hour minute second
  have hlen := length_message_le print nodeUID lat lon hour minute second
  rw [received, sendLocation]
  generalize message print nodeUID lat lon hour minute second = text at hplain hlen
  obtain ⟨header, hheader, hsend⟩ := R.rf95Send_header (text.map toByte)
  have hframe : 4 ≤ (header ++ text.map toByte).length := by rw [List.length_append]; omega
  have hbytes : ((header ++ text.map toByte).drop 4).take 255 = text.map toByte := by
    rw [List.drop_left' hheader, List.take_of_length_le (by rw [List.length_map]; omega)]
  have hnonzero : ∀ x ∈ text.map toByte, x ≠ 0 := by
    intro x hx
    obtain ⟨c, hc, rfl⟩ := List.mem_map.1 hx
    exact (hplain c hc).toByte_ne_zero
  have hlast : b.last = (text.map toByte).length + (b.last - text.length) := by
    have := b.behind
    rw [List.length_map]
    omega
  have htext : (text.map toByte).map ofByte = text := by
    rw [List.map_map]
    exact (List.map_congr_left fun c hc => (hplain c hc).ofByte_toByte).trans (List.map_id text)
  rw [hsend, R.rf95Recv_strips _ _ _ hframe, hbytes, hlast, cString_write _ _ _ hnonzero,
    List.map_append, htext, Nat.zero_add, List.length_map, LocalBuffer.textFrom]

end Received

/-! ### What is read of a message -/

section Messages

variable (R : Radios) (print : BitVec 32 → TwoDecimals) (toFloat : List Char → BitVec 32)
  (unset : Arguments) (b : LocalBuffer) (nodeUID lat lon hour minute second : BitVec 32)

theorem scan_text (x : TwoDecimals) (ds : List Directive) {cs : List Char}
    (hcs : digits cs = []) (hmark : ∀ c ∈ cs.head?, c ∉ ['e', 'E']) :
    scan toFloat (.float :: ds) (x.text ++ cs) =
      (scan toFloat ds cs).map (toFloat x.text :: ·) := by
  have hfloat := scan_float toFloat ds x.neg x.whole x.isDigit_fraction hcs hmark
  rwa [← List.cons_append, ← List.append_assoc] at hfloat

/-- **All fields are read back**, but for the digits that follow the last one. -/
theorem scan_message (behind : List Char) :
    scan toFloat locationFormat
        ((message print nodeUID lat lon hour minute second ++ behind).drop 4) =
      (int (continued second.toInt (digits behind))).map fun s =>
        [nodeUID, toFloat (print lat).text, toFloat (print lon).text, hour, minute, s] := by
  have hdrop : (message print nodeUID lat lon hour minute second ++ behind).drop 4 =
      Nat.toDigits 10 nodeUID.toNat ++ ([' ', 'L', 'O', 'C', ':'] ++ ((print lat).text ++
        ([','] ++ ((print lon).text ++ ([','] ++ (ofInt hour.toInt ++ ([':'] ++
          (ofInt minute.toInt ++ ([':'] ++ (ofInt second.toInt ++ behind)))))))))) := by
    simp only [message, List.append_assoc]
    rfl
  have hspace : ∀ cs, skipSpace ([' ', 'L', 'O', 'C', ':'] ++ cs) = ['L', 'O', 'C', ':'] ++ cs :=
    fun _ => rfl
  rw [hdrop, locationFormat, scan_unsignedLong _ _ _ rfl, scan, hspace, scan_literals,
    scan_text _ _ _ rfl (by simp), scan_literals, scan_text _ _ _ rfl (by simp), scan_literals,
    scan_int _ _ _ rfl, scan_literals, scan_int _ _ _ rfl, scan_literals, scan_int_append, scan]
  cases int (continued second.toInt (digits behind)) <;> rfl

/-- The digits that follow a message in the buffer. -/
def LocalBuffer.digitsFrom (n : ℕ) : List Char := digits (b.textFrom n)

/-- **The call that a message leads to.** -/
theorem heard_sendLocation :
    heard R toFloat unset b (sendLocation R print nodeUID lat lon hour minute second) =
      (int (continued second.toInt
        (b.digitsFrom (message print nodeUID lat lon hour minute second).length))).map fun s =>
          some ⟨nodeUID, toFloat (print lat).text, toFloat (print lon).text, hour, minute, s⟩ := by
  have hstarts : ['U', 'I', 'D', ':'] <+:
      message print nodeUID lat lon hour minute second ++
        b.textFrom (message print nodeUID lat lon hour minute second).length := by
    simp only [message, List.append_assoc]
    exact List.prefix_append _ _
  rw [heard, received_sendLocation, if_pos hstarts, conversion, scan_message, Option.map_map,
    Option.map_map]
  rfl

/-- **A message is decoded to what was sent exactly if the buffer does not go on with digits**, or
the seconds are zero and it goes on with zeros. -/
theorem text_message_iff :
    heard R toFloat unset b (sendLocation R print nodeUID lat lon hour minute second) =
        some (some ⟨nodeUID, toFloat (print lat).text, toFloat (print lon).text, hour, minute,
          second⟩) ↔
      b.digitsFrom (message print nodeUID lat lon hour minute second).length = [] ∨
        second = 0 ∧
          ∀ c ∈ b.digitsFrom (message print nodeUID lat lon hour minute second).length,
            c = '0' := by
  have hzero : second.toInt = 0 ↔ second = 0 := by
    rw [← BitVec.toInt_inj]
    rfl
  have hdigits : ∀ c ∈ b.digitsFrom (message print nodeUID lat lon hour minute second).length,
      c.isDigit := isDigit_digits _
  rw [heard_sendLocation, Option.map_eq_some_iff]
  rw [← hzero, ← continued_eq_iff second.toInt hdigits]
  constructor
  · rintro ⟨s, hs, hargs⟩
    have hsecond : s = second := congrArg Arguments.second (Option.some_inj.1 hargs)
    rw [hsecond] at hs
    exact int_eq_some_iff.1 hs
  · intro h
    exact ⟨second, int_eq_some_iff.2 h, rfl⟩

end Messages

/-- A message that follows one with a longer text, the last character of which is still in the
buffer: `12:34:5` is taken for `12:34:59`. -/
theorem digit_continues_seconds :
    heard Radios.broadcast (fun _ => 0) ⟨0, 0, 0, 0, 0, 0⟩
        ⟨fun i => if i = 27 then 0x39 else 0, 255, by decide, rfl⟩
        (sendLocation Radios.broadcast (fun _ => ⟨false, 0, 0, by decide⟩) 1 0 0 12 34 5) ≠
      some (some ⟨1, 0, 0, 12, 34, 5⟩) := by
  rw [heard_sendLocation]
  decide

/-! ### Texts that are not of the form -/

/-- A decimal number. -/
def IsUnsigned (cs : List Char) : Prop := cs ≠ [] ∧ ∀ c ∈ cs, c.isDigit

/-- A decimal number with an optional minus sign. -/
def IsInt (cs : List Char) : Prop :=
  ∃ sign ∈ [[], ['-']], ∃ magnitude, IsUnsigned magnitude ∧ cs = sign ++ magnitude

/-- A decimal number with an optional minus sign and optional decimals. -/
def IsReal (cs : List Char) : Prop :=
  ∃ whole, IsInt whole ∧
    (cs = whole ∨ ∃ decimals, IsUnsigned decimals ∧ cs = whole ++ '.' :: decimals)

/-- The form `UID:<unsigned> LOC:<real>,<real>,<int>:<int>:<int>` of what is sent. -/
def SenderForm (text : List Char) : Prop :=
  ∃ uid lat lon hour minute second, IsUnsigned uid ∧ IsReal lat ∧ IsReal lon ∧ IsInt hour ∧
    IsInt minute ∧ IsInt second ∧
    text = ['U', 'I', 'D', ':'] ++ uid ++ [' ', 'L', 'O', 'C', ':'] ++ lat ++ [','] ++ lon ++
      [','] ++ hour ++ [':'] ++ minute ++ [':'] ++ second

theorem isUnsigned_toDigits (n : ℕ) : IsUnsigned (Nat.toDigits 10 n) :=
  ⟨Nat.toDigits_ne_nil, isDigit_toDigits n⟩

theorem isInt_ofInt (z : ℤ) : IsInt (ofInt z) := by
  cases z with
  | ofNat n => exact ⟨[], by simp, _, isUnsigned_toDigits n, rfl⟩
  | negSucc n => exact ⟨['-'], by simp, _, isUnsigned_toDigits (n + 1), rfl⟩

theorem TwoDecimals.isReal_text (x : TwoDecimals) : IsReal x.text := by
  refine ⟨(if x.neg then ['-'] else []) ++ Nat.toDigits 10 x.whole, ?_,
    Or.inr ⟨x.fraction, ?_, rfl⟩⟩
  · refine ⟨if x.neg then ['-'] else [], ?_, _, isUnsigned_toDigits x.whole, rfl⟩
    cases x.neg <;> simp
  · exact ⟨List.cons_ne_nil _ _, x.isDigit_fraction⟩

/-- What is sent has the form. -/
theorem senderForm_message (print : BitVec 32 → TwoDecimals)
    (nodeUID lat lon hour minute second : BitVec 32) :
    SenderForm (message print nodeUID lat lon hour minute second) :=
  ⟨_, _, _, _, _, _, isUnsigned_toDigits _, (print lat).isReal_text, (print lon).isReal_text,
    isInt_ofInt _, isInt_ofInt _, isInt_ofInt _, rfl⟩

/-- A text of the form has four colons. -/
theorem SenderForm.four_le_count {text : List Char} (h : SenderForm text) :
    4 ≤ text.count ':' := by
  obtain ⟨uid, lat, lon, hour, minute, second, -, -, -, -, -, -, rfl⟩ := h
  have hUID : ['U', 'I', 'D', ':'].count ':' = 1 := rfl
  have hLOC : [' ', 'L', 'O', 'C', ':'].count ':' = 1 := rfl
  have hcolon : [':'].count ':' = 1 := rfl
  simp only [List.count_append, hUID, hLOC, hcolon]
  omega

section Malformed

variable (R : Radios) (toFloat : List Char → BitVec 32) (unset : Arguments) (b : LocalBuffer)

theorem toByte_ofByte (x : BitVec 8) : toByte (ofByte x) = x := by
  have hvalid : x.toNat.isValidChar := Or.inl (by omega)
  have hchar : (Char.ofNat x.toNat).toNat = x.toNat := by
    rw [Char.ofNat, dif_pos hvalid]
    rfl
  rw [toByte, ofByte, hchar, BitVec.ofNat_toNat, BitVec.setWidth_eq]

/-- The first bytes in the buffer are those of the packet, and where there are less than four, those
that it held before. -/
theorem firstBytes_eq {frame : List (BitVec 8)} (h : 4 ≤ frame.length) :
    firstBytes R b frame =
      (List.range 4).map fun i => (((frame.drop 4).take 255)[i]?).getD (b.mem i) := by
  refine List.map_congr_left ?_
  intro i _
  rw [R.rf95Recv_strips _ _ _ h, Memory.write, if_pos (Nat.zero_le i), Nat.sub_zero]

/-- What `startsWith` looks at. -/
theorem prefix_received_iff (frame : List (BitVec 8)) :
    ['U', 'I', 'D', ':'] <+: received R b frame ↔
      firstBytes R b frame = ['U', 'I', 'D', ':'].map toByte := by
  have hlast := b.behind
  have hbytes : ∀ x ∈ ['U', 'I', 'D', ':'].map toByte, x ≠ 0 := by decide
  have hcString : ['U', 'I', 'D', ':'].map toByte <+:
      (R.rf95Recv b.mem 255 frame).cString 0 b.last ↔
        firstBytes R b frame = ['U', 'I', 'D', ':'].map toByte :=
    prefix_cString_iff _ 0 hbytes (show 4 ≤ b.last by omega)
  rw [← hcString, received]
  constructor
  · intro h
    have hmap := h.map toByte
    have hback : toByte ∘ ofByte = id := funext toByte_ofByte
    rwa [List.map_map, hback, List.map_id] at hmap
  · exact fun h => h.map ofByte

/-- A packet that does not start with `UID:` leaves the manifest alone. -/
theorem listenForNodes_eq_self {frame : List (BitVec 8)}
    (h : firstBytes R b frame ≠ ['U', 'I', 'D', ':'].map toByte) (s : Listener) :
    listenForNodes R toFloat unset b s frame = some s := by
  rw [listenForNodes, heard, if_neg (mt (prefix_received_iff R b frame).1 h)]
  rfl

/-- A packet that starts with `UID:` is counted as long as there is room. -/
theorem listenForNodes_ne_self {frame : List (BitVec 8)}
    (h : firstBytes R b frame = ['U', 'I', 'D', ':'].map toByte) {s : Listener}
    (hcells : s.manifest.length = 50) (hroom : s.nodeCount < 50) :
    listenForNodes R toFloat unset b s frame ≠ some s := by
  rw [listenForNodes, heard, if_pos ((prefix_received_iff R b frame).2 h)]
  cases conversion toFloat unset (received R b frame) with
  | none => simp
  | some args =>
      intro hsame
      have hadd : addToManifest s args = some s := hsame
      rw [addToManifest_of_lt hcells hroom] at hadd
      have hcount := congrArg Listener.nodeCount (Option.some_inj.1 hadd)
      simp at hcount

/-- **Only a text of the form changes any manifest, exactly if the text does not start with
`UID:`**, or is of the form. -/
theorem malformed_iff (frame : List (BitVec 8)) :
    (∀ s : Listener, s.manifest.length = 50 → listenForNodes R toFloat unset b s frame ≠ some s →
        SenderForm ((frame.drop 4).map ofByte)) ↔
      firstBytes R b frame ≠ ['U', 'I', 'D', ':'].map toByte ∨
        SenderForm ((frame.drop 4).map ofByte) := by
  constructor
  · intro h
    by_cases hstarts : firstBytes R b frame = ['U', 'I', 'D', ':'].map toByte
    · -- the manifest at boot has room
      have hcells : (List.replicate 50 (⟨0, 0, 0, 0, 0⟩ : Location)).length = 50 := rfl
      have hchanges := listenForNodes_ne_self R toFloat unset b hstarts (s := ⟨_, 0⟩) hcells
        (by decide)
      exact Or.inr (h _ hcells hchanges)
    · exact Or.inl hstarts
  · rintro (hstarts | hform) s hcells hchanges
    · exact absurd (listenForNodes_eq_self R toFloat unset b hstarts s) hchanges
    · exact hform

end Malformed

/-- A text that stops in the minutes, as a packet. -/
def stopsInMinutes : List (BitVec 8) :=
  [255, 255, 0, 0] ++ "UID:7 LOC:41.90,-87.60,12:3".toList.map toByte

/-- The text is not of the form. -/
theorem not_senderForm_stopsInMinutes : ¬ SenderForm ((stopsInMinutes.drop 4).map ofByte) := by
  intro h
  exact absurd h.four_le_count (by decide)

/-- So it changes some manifest. -/
theorem malformed_iff_stopsInMinutes :
    ¬ ∀ s : Listener, s.manifest.length = 50 →
      listenForNodes Radios.broadcast (fun _ => 0) ⟨0, 0, 0, 0, 0, 59⟩
          ⟨fun _ => 0, 255, by decide, rfl⟩ s stopsInMinutes ≠ some s →
        SenderForm ((stopsInMinutes.drop 4).map ofByte) := by
  rw [malformed_iff]
  rintro (h | h)
  · rw [firstBytes_eq _ _ (by decide)] at h
    exact h (by decide)
  · exact not_senderForm_stopsInMinutes h

/-- The entry that is added to a manifest with one entry was not sent: the seconds are what the
variable held before. -/
theorem truncated_text_added :
    listenForNodes Radios.broadcast (fun _ => 0) ⟨0, 0, 0, 0, 0, 59⟩
        ⟨fun _ => 0, 255, by decide, rfl⟩
        ⟨⟨1, 2, 3, 4, 5⟩ :: List.replicate 49 ⟨0, 0, 0, 0, 0⟩, 1⟩ stopsInMinutes =
      some ⟨⟨1, 2, 3, 4, 5⟩ :: ⟨0, 0, 12, 3, 59⟩ :: List.replicate 48 ⟨0, 0, 0, 0, 0⟩, 2⟩ ∧
    ¬ SenderForm ((stopsInMinutes.drop 4).map ofByte) :=
  ⟨by decide, not_senderForm_stopsInMinutes⟩

end LoRaGPS.TextNode
