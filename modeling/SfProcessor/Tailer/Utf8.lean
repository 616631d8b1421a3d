import Mathlib.Data.List.Basic

/-!
# UTF-8 as Go's `unicode/utf8` reads and writes it

The tailer decodes the bytes it reads with `utf8.DecodeRune` and writes each rune into the
partial buffer with `bytes.Buffer.WriteRune`, which encodes it as `utf8.EncodeRune` does. Both
are Go library functions; they are given here as the library computes them, bytes as `UInt8`
and runes as their code points.

`ValidUtf8` is the syntax of a UTF-8 octet sequence of RFC 3629 §4, one constructor of
`Utf8Char` per alternative.

## Main result

`decodeRune_append`: on a valid character followed by any bytes, `DecodeRune` returns the
character's rune and width, as on the character alone. It reads no further than the
character.

`encodeRune_utf8Char`: whatever the rune, `EncodeRune` writes one valid character, so what the
tailer writes into a partial buffer is valid UTF-8 whatever bytes it read.
-/

namespace SfProcessor.Tailer

/-- A `rune`, by its code point. -/
abbrev Rune := Nat

/-- `utf8.RuneError`, U+FFFD, the rune `DecodeRune` returns for an invalid encoding. -/
def runeError : Rune := 0xFFFD

/-- `first`: what the first byte of an encoding says, as the entry of Go's table: `0xF0` for
ASCII, `0xF1` for a byte no encoding starts with, and otherwise the index of the accept range
of the second byte in the high nibble and the size of the encoding in the low one. -/
def first (p0 : UInt8) : Nat :=
  let b := p0.toNat
  if b < 0x80 then 0xF0
  else if b < 0xC2 then 0xF1
  else if b < 0xE0 then 0x02
  else if b = 0xE0 then 0x13
  else if b < 0xED then 0x03
  else if b = 0xED then 0x23
  else if b < 0xF0 then 0x03
  else if b = 0xF0 then 0x34
  else if b < 0xF4 then 0x04
  else if b = 0xF4 then 0x44
  else 0xF1

/-- `acceptRanges`: the least and the greatest second byte, by the index `first` gives. -/
def acceptRanges : Nat → Nat × Nat
  | 0 => (0x80, 0xBF)
  | 1 => (0xA0, 0xBF)
  | 2 => (0x80, 0x9F)
  | 3 => (0x90, 0xBF)
  | 4 => (0x80, 0x8F)
  | _ => (0, 0)

/-- `utf8.DecodeRune` unpacks the first UTF-8 encoding in `p` and returns the rune and its
width in bytes: `(RuneError, 0)` on no bytes, and `(RuneError, 1)` when the encoding is invalid
or cut short. Past the length check Go indexes the bytes it needs; the arms for missing bytes
are not reached. A continuation byte lies between `locb = 0x80` and `hicb = 0xBF`. -/
def decodeRune : List UInt8 → Rune × Nat
  | [] => (runeError, 0)
  | p0 :: rest =>
    let x := first p0
    if 0xF0 ≤ x then
      -- `mask` is all ones for `xx` and zero for `as`
      (if x % 2 = 1 then runeError else p0.toNat, 1)
    else
      let sz := x % 8
      let accept := acceptRanges (x / 16)
      if rest.length + 1 < sz then (runeError, 1)
      else match rest with
        | [] => (runeError, 1)
        | b1 :: rest =>
          if b1.toNat < accept.1 ∨ accept.2 < b1.toNat then (runeError, 1)
          else if sz ≤ 2 then ((p0.toNat % 0x20) * 0x40 + b1.toNat % 0x40, 2)
          else match rest with
            | [] => (runeError, 1)
            | b2 :: rest =>
              if b2.toNat < 0x80 ∨ 0xBF < b2.toNat then (runeError, 1)
              else if sz ≤ 3 then
                ((p0.toNat % 0x10) * 0x1000 + (b1.toNat % 0x40) * 0x40 + b2.toNat % 0x40, 3)
              else match rest with
                | [] => (runeError, 1)
                | b3 :: _ =>
                  if b3.toNat < 0x80 ∨ 0xBF < b3.toNat then (runeError, 1)
                  else ((p0.toNat % 0x08) * 0x40000 + (b1.toNat % 0x40) * 0x1000 +
                    (b2.toNat % 0x40) * 0x40 + b3.toNat % 0x40, 4)

/-- `utf8.EncodeRune`, as `bytes.Buffer.WriteRune` writes a rune: a surrogate or a code point
past U+10FFFF is written as `RuneError`. -/
def encodeRune (r : Rune) : List UInt8 :=
  if r ≤ 0x7F then [r.toUInt8]
  else if r ≤ 0x7FF then [(0xC0 + r / 0x40).toUInt8, (0x80 + r % 0x40).toUInt8]
  else
    let r := if 0x10FFFF < r ∨ (0xD800 ≤ r ∧ r ≤ 0xDFFF) then runeError else r
    if r ≤ 0xFFFF then
      [(0xE0 + r / 0x1000).toUInt8, (0x80 + r / 0x40 % 0x40).toUInt8, (0x80 + r % 0x40).toUInt8]
    else
      [(0xF0 + r / 0x40000).toUInt8, (0x80 + r / 0x1000 % 0x40).toUInt8,
        (0x80 + r / 0x40 % 0x40).toUInt8, (0x80 + r % 0x40).toUInt8]

theorem toUInt8_eq_iff {n : Nat} {a : UInt8} : n.toUInt8 = a ↔ n % 256 = a.toNat := by
  constructor
  · rintro rfl
    simp [Nat.toUInt8, UInt8.ofNat, UInt8.toNat]
  · intro h
    exact UInt8.eq_of_val_eq
      (Fin.ext (by simpa [Nat.toUInt8, UInt8.ofNat, UInt8.val, UInt8.toNat] using h))

@[simp] theorem toUInt8_toNat (a : UInt8) : a.toNat.toUInt8 = a :=
  toUInt8_eq_iff.mpr (Nat.mod_eq_of_lt a.toNat_lt_size)

theorem toNat_toUInt8 (n : Nat) : n.toUInt8.toNat = n % 256 := (toUInt8_eq_iff.mp rfl).symm

/-! ### `EncodeRune` by the size of the encoding -/

section Encode

variable {r : Nat} {a b c d : UInt8}

theorem encodeRune_one (fits : r ≤ 0x7F) (byte : r = a.toNat) : encodeRune r = [a] := by
  rw [encodeRune, if_pos fits, byte, toUInt8_toNat]

theorem encodeRune_two (lo : 0x80 ≤ r) (hi : r ≤ 0x7FF) (first : 0xC0 + r / 0x40 = a.toNat)
    (second : 0x80 + r % 0x40 = b.toNat) : encodeRune r = [a, b] := by
  rw [encodeRune, if_neg (show ¬r ≤ 0x7F by omega), if_pos hi, first, second]
  simp only [toUInt8_toNat]

theorem encodeRune_three (lo : 0x800 ≤ r) (hi : r ≤ 0xFFFF)
    (notSurrogate : r < 0xD800 ∨ 0xDFFF < r)
    (first : 0xE0 + r / 0x1000 = a.toNat) (second : 0x80 + r / 0x40 % 0x40 = b.toNat)
    (third : 0x80 + r % 0x40 = c.toNat) : encodeRune r = [a, b, c] := by
  rw [encodeRune, if_neg (show ¬r ≤ 0x7F by omega), if_neg (show ¬r ≤ 0x7FF by omega)]
  dsimp only
  rw [if_neg (show ¬(0x10FFFF < r ∨ 0xD800 ≤ r ∧ r ≤ 0xDFFF) by omega), if_pos hi, first,
    second, third]
  simp only [toUInt8_toNat]

theorem encodeRune_four (lo : 0x10000 ≤ r) (hi : r ≤ 0x10FFFF)
    (first : 0xF0 + r / 0x40000 = a.toNat) (second : 0x80 + r / 0x1000 % 0x40 = b.toNat)
    (third : 0x80 + r / 0x40 % 0x40 = c.toNat) (fourth : 0x80 + r % 0x40 = d.toNat) :
    encodeRune r = [a, b, c, d] := by
  rw [encodeRune, if_neg (show ¬r ≤ 0x7F by omega), if_neg (show ¬r ≤ 0x7FF by omega)]
  dsimp only
  rw [if_neg (show ¬(0x10FFFF < r ∨ 0xD800 ≤ r ∧ r ≤ 0xDFFF) by omega),
    if_neg (show ¬r ≤ 0xFFFF by omega), first, second, third, fourth]
  simp only [toUInt8_toNat]

end Encode

/-! ### RFC 3629 -/

/-- `UTF8-tail = %x80-BF` -/
def Tail (b : UInt8) : Prop := 0x80 ≤ b.toNat ∧ b.toNat ≤ 0xBF

/-- `UTF8-char = UTF8-1 / UTF8-2 / UTF8-3 / UTF8-4`, one constructor per alternative. -/
inductive Utf8Char : List UInt8 → Prop where
  -- `UTF8-1 = %x00-7F`
  | one {a : UInt8} : a.toNat ≤ 0x7F → Utf8Char [a]
  -- `UTF8-2 = %xC2-DF UTF8-tail`
  | two {a b : UInt8} : 0xC2 ≤ a.toNat → a.toNat ≤ 0xDF → Tail b → Utf8Char [a, b]
  -- `UTF8-3 = %xE0 %xA0-BF UTF8-tail`
  | e0 {a b c : UInt8} : a.toNat = 0xE0 → 0xA0 ≤ b.toNat → b.toNat ≤ 0xBF → Tail c →
      Utf8Char [a, b, c]
  -- `/ %xE1-EC 2( UTF8-tail )`
  | e1ec {a b c : UInt8} : 0xE1 ≤ a.toNat → a.toNat ≤ 0xEC → Tail b → Tail c → Utf8Char [a, b, c]
  -- `/ %xED %x80-9F UTF8-tail`
  | ed {a b c : UInt8} : a.toNat = 0xED → 0x80 ≤ b.toNat → b.toNat ≤ 0x9F → Tail c →
      Utf8Char [a, b, c]
  -- `/ %xEE-EF 2( UTF8-tail )`
  | eeef {a b c : UInt8} : 0xEE ≤ a.toNat → a.toNat ≤ 0xEF → Tail b → Tail c → Utf8Char [a, b, c]
  -- `UTF8-4 = %xF0 %x90-BF 2( UTF8-tail )`
  | f0 {a b c d : UInt8} : a.toNat = 0xF0 → 0x90 ≤ b.toNat → b.toNat ≤ 0xBF → Tail c → Tail d →
      Utf8Char [a, b, c, d]
  -- `/ %xF1-F3 3( UTF8-tail )`
  | f1f3 {a b c d : UInt8} : 0xF1 ≤ a.toNat → a.toNat ≤ 0xF3 → Tail b → Tail c → Tail d →
      Utf8Char [a, b, c, d]
  -- `/ %xF4 %x80-8F 2( UTF8-tail )`
  | f4 {a b c d : UInt8} : a.toNat = 0xF4 → 0x80 ≤ b.toNat → b.toNat ≤ 0x8F → Tail c → Tail d →
      Utf8Char [a, b, c, d]

/-- `UTF8-octets = *( UTF8-char )` -/
inductive ValidUtf8 : List UInt8 → Prop where
  | nil : ValidUtf8 []
  | cons {c rest : List UInt8} : Utf8Char c → ValidUtf8 rest → ValidUtf8 (c ++ rest)

/-! ### `DecodeRune` on valid characters -/

section Lead

variable {a : UInt8}

theorem first_of_le_7f (h : a.toNat ≤ 0x7F) : first a = 0xF0 := by
  simp (disch := omega) only [first, if_pos, if_neg]

theorem first_of_two (lo : 0xC2 ≤ a.toNat) (hi : a.toNat ≤ 0xDF) : first a = 0x02 := by
  simp (disch := omega) only [first, if_pos, if_neg]

theorem first_of_e0 (h : a.toNat = 0xE0) : first a = 0x13 := by
  simp (disch := omega) only [first, if_pos, if_neg]

theorem first_of_three (h : 0xE1 ≤ a.toNat ∧ a.toNat ≤ 0xEC ∨ 0xEE ≤ a.toNat ∧ a.toNat ≤ 0xEF) :
    first a = 0x03 := by
  rcases h with h | h <;> simp (disch := omega) only [first, if_pos, if_neg]

theorem first_of_ed (h : a.toNat = 0xED) : first a = 0x23 := by
  simp (disch := omega) only [first, if_pos, if_neg]

theorem first_of_f0 (h : a.toNat = 0xF0) : first a = 0x34 := by
  simp (disch := omega) only [first, if_pos, if_neg]

theorem first_of_four (lo : 0xF1 ≤ a.toNat) (hi : a.toNat ≤ 0xF3) : first a = 0x04 := by
  simp (disch := omega) only [first, if_pos, if_neg]

theorem first_of_f4 (h : a.toNat = 0xF4) : first a = 0x44 := by
  simp (disch := omega) only [first, if_pos, if_neg]

end Lead

section Sizes

variable {a b c d : UInt8} (rest : List UInt8)

theorem decodeRune_one (h : a.toNat ≤ 0x7F) : decodeRune (a :: rest) = (a.toNat, 1) := by
  simp [decodeRune, first_of_le_7f h]

theorem decodeRune_two (lead : first a = 0x02) (tail : Tail b) :
    decodeRune (a :: b :: rest) = ((a.toNat % 0x20) * 0x40 + b.toNat % 0x40, 2) := by
  obtain ⟨lo, hi⟩ := tail
  simp (disch := omega) only [decodeRune, lead, acceptRanges, if_pos, if_neg, List.length_cons]

variable {x lo hi : Nat} (lead : first a = x) (range : acceptRanges (x / 16) = (lo, hi))
  (second : lo ≤ b.toNat ∧ b.toNat ≤ hi) (third : Tail c)
include lead range second third

theorem decodeRune_three (size : x = 0x03 ∨ x = 0x13 ∨ x = 0x23) :
    decodeRune (a :: b :: c :: rest) =
      ((a.toNat % 0x10) * 0x1000 + (b.toNat % 0x40) * 0x40 + c.toNat % 0x40, 3) := by
  obtain ⟨lo_b, hi_b⟩ := second
  obtain ⟨lo_c, hi_c⟩ := third
  have : x % 8 = 3 := by omega
  simp (disch := omega) only [decodeRune, lead, range, this, if_pos, if_neg, List.length_cons]

theorem decodeRune_four (fourth : Tail d) (size : x = 0x04 ∨ x = 0x34 ∨ x = 0x44) :
    decodeRune (a :: b :: c :: d :: rest) =
      ((a.toNat % 0x08) * 0x40000 + (b.toNat % 0x40) * 0x1000 + (c.toNat % 0x40) * 0x40 +
        d.toNat % 0x40, 4) := by
  obtain ⟨lo_b, hi_b⟩ := second
  obtain ⟨lo_c, hi_c⟩ := third
  obtain ⟨lo_d, hi_d⟩ := fourth
  have : x % 8 = 4 := by omega
  simp (disch := omega) only [decodeRune, lead, range, this, if_pos, if_neg, List.length_cons]

end Sizes

theorem decodeRune_append {c : List UInt8} (valid : Utf8Char c) (rest : List UInt8) :
    decodeRune (c ++ rest) = decodeRune c ∧ (decodeRune c).2 = c.length := by
  cases valid with
  | one h => simp [decodeRune_one _ h]
  | two lo hi tail => simp [decodeRune_two _ (first_of_two lo hi) tail]
  | e0 h lo hi tail =>
    simp [decodeRune_three _ (first_of_e0 h) rfl ⟨lo, hi⟩ tail (by omega)]
  | e1ec lo hi second tail =>
    simp [decodeRune_three _ (first_of_three (.inl ⟨lo, hi⟩)) rfl second tail (by omega)]
  | ed h lo hi tail =>
    simp [decodeRune_three _ (first_of_ed h) rfl ⟨lo, hi⟩ tail (by omega)]
  | eeef lo hi second tail =>
    simp [decodeRune_three _ (first_of_three (.inr ⟨lo, hi⟩)) rfl second tail (by omega)]
  | f0 h lo hi third tail =>
    simp [decodeRune_four _ (first_of_f0 h) rfl ⟨lo, hi⟩ third tail (by omega)]
  | f1f3 lo hi second third tail =>
    simp [decodeRune_four _ (first_of_four lo hi) rfl second third tail (by omega)]
  | f4 h lo hi third tail =>
    simp [decodeRune_four _ (first_of_f4 h) rfl ⟨lo, hi⟩ third tail (by omega)]

section Assemble

variable {a b c d : UInt8}

/-- `EncodeRune` takes apart a three-byte rune as `DecodeRune` assembles it. -/
theorem encodeRune_assemble_three (lead : 0xE0 ≤ a.toNat ∧ a.toNat ≤ 0xEF) (second : Tail b)
    (third : Tail c) (wide : 0x800 ≤ (a.toNat % 0x10) * 0x1000 + (b.toNat % 0x40) * 0x40)
    (notSurrogate : a.toNat ≠ 0xED ∨ b.toNat ≤ 0x9F) :
    encodeRune ((a.toNat % 0x10) * 0x1000 + (b.toNat % 0x40) * 0x40 + c.toNat % 0x40) =
      [a, b, c] := by
  obtain ⟨lo_b, hi_b⟩ := second
  obtain ⟨lo_c, hi_c⟩ := third
  exact encodeRune_three (by omega) (by omega) (by omega) (by omega) (by omega) (by omega)

/-- `EncodeRune` takes apart a four-byte rune as `DecodeRune` assembles it. -/
theorem encodeRune_assemble_four (lead : 0xF0 ≤ a.toNat ∧ a.toNat ≤ 0xF4) (second : Tail b)
    (third : Tail c) (fourth : Tail d)
    (scalar : 0x10000 ≤ (a.toNat % 0x08) * 0x40000 + (b.toNat % 0x40) * 0x1000 ∧
      (a.toNat % 0x08) * 0x40000 + (b.toNat % 0x40) * 0x1000 ≤ 0x10F000) :
    encodeRune ((a.toNat % 0x08) * 0x40000 + (b.toNat % 0x40) * 0x1000 +
      (c.toNat % 0x40) * 0x40 + d.toNat % 0x40) = [a, b, c, d] := by
  obtain ⟨lo_b, hi_b⟩ := second
  obtain ⟨lo_c, hi_c⟩ := third
  obtain ⟨lo_d, hi_d⟩ := fourth
  exact encodeRune_four (by omega) (by omega) (by omega) (by omega) (by omega) (by omega)

end Assemble

/-- `EncodeRune` undoes `DecodeRune` on a valid character. -/
theorem encodeRune_decodeRune {c : List UInt8} (valid : Utf8Char c) :
    encodeRune (decodeRune c).1 = c := by
  cases valid with
  | one h => rw [decodeRune_one [] h]; exact encodeRune_one h rfl
  | two lo hi tail =>
    obtain ⟨lo_b, hi_b⟩ := tail
    rw [decodeRune_two [] (first_of_two lo hi) ⟨lo_b, hi_b⟩]
    exact encodeRune_two (by omega) (by omega) (by omega) (by omega)
  | e0 h lo hi tail =>
    rw [decodeRune_three [] (first_of_e0 h) rfl ⟨lo, hi⟩ tail (by omega)]
    exact encodeRune_assemble_three (by omega) ⟨by omega, hi⟩ tail (by omega) (by omega)
  | e1ec lo hi second tail =>
    rw [decodeRune_three [] (first_of_three (.inl ⟨lo, hi⟩)) rfl second tail (by omega)]
    exact encodeRune_assemble_three (by omega) second tail (by omega) (by omega)
  | ed h lo hi tail =>
    rw [decodeRune_three [] (first_of_ed h) rfl ⟨lo, hi⟩ tail (by omega)]
    exact encodeRune_assemble_three (by omega) ⟨lo, by omega⟩ tail (by omega) (.inr hi)
  | eeef lo hi second tail =>
    rw [decodeRune_three [] (first_of_three (.inr ⟨lo, hi⟩)) rfl second tail (by omega)]
    exact encodeRune_assemble_three (by omega) second tail (by omega) (by omega)
  | f0 h lo hi third tail =>
    rw [decodeRune_four [] (first_of_f0 h) rfl ⟨lo, hi⟩ third tail (by omega)]
    exact encodeRune_assemble_four (by omega) ⟨by omega, hi⟩ third tail (by omega)
  | f1f3 lo hi second third tail =>
    rw [decodeRune_four [] (first_of_four lo hi) rfl second third tail (by omega)]
    exact encodeRune_assemble_four (by omega) second third tail (by omega)
  | f4 h lo hi third tail =>
    rw [decodeRune_four [] (first_of_f4 h) rfl ⟨lo, hi⟩ third tail (by omega)]
    exact encodeRune_assemble_four (by omega) ⟨lo, by omega⟩ third tail (by omega)

/-- A byte below `0x80` in a valid character is the whole character. -/
theorem Utf8Char.eq_of_mem_ascii {c : List UInt8} (valid : Utf8Char c) {b : UInt8} (mem : b ∈ c)
    (ascii : b.toNat < 0x80) : c = [b] := by
  cases valid with
  | one _ => rw [List.mem_singleton.mp mem]
  | _ =>
    simp only [Tail, List.mem_cons, List.mem_singleton, List.not_mem_nil, or_false] at *
    rcases mem with rfl | rfl | rfl | rfl <;> omega

/-- Valid UTF-8 is closed under concatenation. -/
theorem ValidUtf8.append {s t : List UInt8} (hs : ValidUtf8 s) (ht : ValidUtf8 t) :
    ValidUtf8 (s ++ t) := by
  induction hs with
  | nil => exact ht
  | cons c _ ih => rw [List.append_assoc]; exact .cons c ih

/-! ### What `EncodeRune` writes -/

section Write

variable {r : Nat}

theorem toNat_toUInt8_of_lt {n : Nat} (small : n < 256) : n.toUInt8.toNat = n := by
  rw [toNat_toUInt8, Nat.mod_eq_of_lt small]

/-- Every continuation byte `EncodeRune` writes is a `UTF8-tail`. -/
theorem tail_toUInt8 (n : Nat) : Tail (0x80 + n % 0x40).toUInt8 := by
  rw [Tail, toNat_toUInt8_of_lt (by omega)]
  omega

theorem utf8Char_two (lo : 0x80 ≤ r) (hi : r ≤ 0x7FF) :
    Utf8Char [(0xC0 + r / 0x40).toUInt8, (0x80 + r % 0x40).toUInt8] := by
  have first := toNat_toUInt8_of_lt (show 0xC0 + r / 0x40 < 256 by omega)
  exact .two (by omega) (by omega) (tail_toUInt8 r)

theorem utf8Char_three (lo : 0x800 ≤ r) (hi : r ≤ 0xFFFF)
    (notSurrogate : r < 0xD800 ∨ 0xDFFF < r) :
    Utf8Char [(0xE0 + r / 0x1000).toUInt8, (0x80 + r / 0x40 % 0x40).toUInt8,
      (0x80 + r % 0x40).toUInt8] := by
  have first := toNat_toUInt8_of_lt (show 0xE0 + r / 0x1000 < 256 by omega)
  have second := toNat_toUInt8_of_lt (show 0x80 + r / 0x40 % 0x40 < 256 by omega)
  by_cases e0 : r < 0x1000
  · exact .e0 (by omega) (by omega) (by omega) (tail_toUInt8 r)
  by_cases e1ec : r < 0xD000
  · exact .e1ec (by omega) (by omega) (tail_toUInt8 _) (tail_toUInt8 r)
  by_cases ed : r < 0xE000
  · exact .ed (by omega) (by omega) (by omega) (tail_toUInt8 r)
  · exact .eeef (by omega) (by omega) (tail_toUInt8 _) (tail_toUInt8 r)

theorem utf8Char_four (lo : 0x10000 ≤ r) (hi : r ≤ 0x10FFFF) :
    Utf8Char [(0xF0 + r / 0x40000).toUInt8, (0x80 + r / 0x1000 % 0x40).toUInt8,
      (0x80 + r / 0x40 % 0x40).toUInt8, (0x80 + r % 0x40).toUInt8] := by
  have first := toNat_toUInt8_of_lt (show 0xF0 + r / 0x40000 < 256 by omega)
  have second := toNat_toUInt8_of_lt (show 0x80 + r / 0x1000 % 0x40 < 256 by omega)
  by_cases f0 : r < 0x40000
  · exact .f0 (by omega) (by omega) (by omega) (tail_toUInt8 _) (tail_toUInt8 r)
  by_cases f1f3 : r < 0x100000
  · exact .f1f3 (by omega) (by omega) (tail_toUInt8 _) (tail_toUInt8 _) (tail_toUInt8 r)
  · exact .f4 (by omega) (by omega) (by omega) (tail_toUInt8 _) (tail_toUInt8 r)

/-- What `EncodeRune` writes is one UTF-8 character, whatever the rune: a surrogate or a code
point past U+10FFFF is written as `RuneError`. -/
theorem encodeRune_utf8Char (r : Nat) : Utf8Char (encodeRune r) := by
  by_cases ascii : r ≤ 0x7F
  · rw [encodeRune, if_pos ascii]
    exact .one (by rw [toNat_toUInt8]; omega)
  by_cases two : r ≤ 0x7FF
  · rw [encodeRune, if_neg ascii, if_pos two]
    exact utf8Char_two (by omega) two
  rw [encodeRune, if_neg ascii, if_neg two]
  dsimp only
  by_cases replaced : 0x10FFFF < r ∨ 0xD800 ≤ r ∧ r ≤ 0xDFFF
  · rw [if_pos replaced, if_pos (show runeError ≤ 0xFFFF by decide)]
    exact utf8Char_three (by decide) (by decide) (by decide)
  rw [if_neg replaced]
  by_cases three : r ≤ 0xFFFF
  · rw [if_pos three]
    exact utf8Char_three (by omega) three (by omega)
  · rw [if_neg three]
    exact utf8Char_four (by omega) (by omega)

theorem two_le_length_encodeRune (wide : 0x7F < r) : 2 ≤ (encodeRune r).length := by
  rw [encodeRune, if_neg (show ¬r ≤ 0x7F by omega)]
  simp only [apply_ite List.length, List.length_cons, List.length_nil]
  split_ifs <;> omega

/-- An ASCII byte is in what `EncodeRune` writes only as the whole encoding of itself. -/
theorem eq_of_mem_encodeRune {b : UInt8} (mem : b ∈ encodeRune r) (ascii : b.toNat < 0x80) :
    r = b.toNat := by
  by_cases fits : r ≤ 0x7F
  · rw [encodeRune, if_pos fits, List.mem_singleton] at mem
    rw [mem, toNat_toUInt8]
    omega
  · have single := (encodeRune_utf8Char r).eq_of_mem_ascii mem ascii
    have wide := two_le_length_encodeRune (show 0x7F < r by omega)
    simp [single] at wide

end Write

end SfProcessor.Tailer
