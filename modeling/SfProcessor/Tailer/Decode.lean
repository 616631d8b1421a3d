import SfProcessor.Tailer.Utf8

/-!
# Decoding read bytes into lines

`decodeAndSend` and `sendLine` (`logstream/decode.go`): the bytes of one read are decoded rune
by rune; `\r` is eaten, `\n` sends the partial buffer as a line, and every other rune is
written to the partial buffer, which carries over to the next read.

## Main result

`decodeAndSend_append`: when `s1` is valid UTF-8, a call on `s1` and then one on `s2` send the
lines and leave the partial buffer that one call on `s1 ++ s2` does. Validity of `s1` puts the
read boundary between two characters; `decodeAndSend_split_in_rune` is a boundary inside one.

## Proof strategy

`decodeAndSend_step` unfolds one turn of the loop, whatever the fuel (`decodeAndSendFuel_eq`,
as every turn consumes a byte). On a valid character `DecodeRune` reads no further than the
character (`decodeRune_append`), so the turn on `c ++ rest` is the turn on `c`; induction on
the characters of `s1` does the rest.
-/

namespace SfProcessor.Tailer

/-- `LogLine` as `logline.New` builds it: the log filename the line was read from, and the
text of the line up to the newline. Its context is left out. -/
structure LogLine where
  filename : String
  line : List UInt8
  deriving DecidableEq, Repr

/-- What `decodeAndSend` writes: the lines sent on `lines`, in order, and the partial buffer
`partial`. -/
structure Output where
  sent : List LogLine
  buffer : List UInt8
  deriving DecidableEq, Repr

/-- `sendLine` sends the partial buffer as a line and resets it. Go's `lines <- ...` blocks
until the stream's consumer takes the line; the model takes a consumer that receives each line
as it is sent, so that a send is no step of its own and `sent` is what the consumer has
received. -/
def sendLine (pathname : String) (out : Output) : Output :=
  ⟨out.sent ++ [⟨pathname, out.buffer⟩], []⟩

/-- One turn of the loop of `decodeAndSend`, on the rune `r`: its `switch`. -/
def handleRune (pathname : String) (out : Output) (r : Rune) : Output :=
  if r = '\r'.toNat then out
  else if r = '\n'.toNat then sendLine pathname out
  else { out with buffer := out.buffer ++ encodeRune r }

/-- The loop of `decodeAndSend` over the bytes `b`, before offset `n`, for at most `fuel`
turns. -/
def decodeAndSendFuel (pathname : String) : Nat → Nat → List UInt8 → Output → Output
  | 0, _, _, out => out
  | fuel + 1, n, b, out =>
    if b = [] ∨ n = 0 then out
    else
      let (r, width) := decodeRune b
      decodeAndSendFuel pathname fuel (n - width) (b.drop width) (handleRune pathname out r)

/-- `decodeAndSend` transforms the bytes `b` into unicode in the partial buffer, sending a
line as each newline is decoded. Every turn consumes a byte, so `b.length` turns are enough. -/
def decodeAndSend (pathname : String) (n : Nat) (b : List UInt8) (out : Output) : Output :=
  decodeAndSendFuel pathname b.length n b out

/-! ### One turn of the loop -/

theorem decodeRune_width_pos (p0 : UInt8) (rest : List UInt8) :
    0 < (decodeRune (p0 :: rest)).2 := by
  unfold decodeRune
  dsimp only
  by_cases ascii : 0xF0 ≤ first p0
  · rw [if_pos ascii]; exact Nat.succ_pos _
  by_cases short : rest.length + 1 < first p0 % 8
  · rw [if_neg ascii, if_pos short]; exact Nat.succ_pos _
  rw [if_neg ascii, if_neg short]
  repeat' split
  all_goals exact Nat.succ_pos _

section Loop

variable (pathname : String)

theorem decodeAndSendFuel_eq {f₁ f₂ n : Nat} {b : List UInt8} (out : Output)
    (enough₁ : b.length ≤ f₁) (enough₂ : b.length ≤ f₂) :
    decodeAndSendFuel pathname f₁ n b out = decodeAndSendFuel pathname f₂ n b out := by
  induction f₁ generalizing f₂ n b out with
  | zero => cases b <;> cases f₂ <;> simp_all [decodeAndSendFuel]
  | succ f₁ ih =>
    cases b with
    | nil => cases f₂ <;> simp [decodeAndSendFuel]
    | cons p0 rest =>
      rw [List.length_cons] at enough₁ enough₂
      obtain ⟨f₂, rfl⟩ : ∃ f, f₂ = f + 1 := ⟨f₂ - 1, by omega⟩
      have := decodeRune_width_pos p0 rest
      simp only [decodeAndSendFuel]
      split
      · rfl
      · exact ih _ (by rw [List.length_drop, List.length_cons]; omega)
          (by rw [List.length_drop, List.length_cons]; omega)

/-- One turn of the loop: the first rune of `b` is handled, and the loop goes on after it. -/
theorem decodeAndSend_step {n : Nat} {b : List UInt8} (out : Output) (nonempty : b ≠ [])
    (before : n ≠ 0) :
    decodeAndSend pathname n b out =
      decodeAndSend pathname (n - (decodeRune b).2) (b.drop (decodeRune b).2)
        (handleRune pathname out (decodeRune b).1) := by
  obtain ⟨p0, rest, rfl⟩ := List.exists_cons_of_ne_nil nonempty
  have := decodeRune_width_pos p0 rest
  simp only [decodeAndSend, List.length_cons, decodeAndSendFuel, nonempty, before, or_self,
    if_false]
  exact decodeAndSendFuel_eq pathname _ (by simp; omega) le_rfl

theorem Utf8Char.ne_nil {c : List UInt8} (valid : Utf8Char c) : c ≠ [] := by
  cases valid <;> simp

theorem ValidUtf8.of_char {c : List UInt8} (valid : Utf8Char c) : ValidUtf8 c := by
  simpa using ValidUtf8.cons valid .nil

/-- The turn on a valid character handles its rune and goes on after it, whatever follows. -/
theorem decodeAndSend_char {c : List UInt8} (valid : Utf8Char c) (rest : List UInt8)
    (out : Output) :
    decodeAndSend pathname (c ++ rest).length (c ++ rest) out =
      decodeAndSend pathname rest.length rest (handleRune pathname out (decodeRune c).1) := by
  obtain ⟨same, width⟩ := decodeRune_append valid rest
  have nonempty := valid.ne_nil
  rw [decodeAndSend_step pathname out (by simp [nonempty]) (by simp [nonempty]), same, width]
  simp

end Loop

/-! ### Read boundaries -/

/-- Two reads whose boundary falls between characters decode as one. -/
theorem decodeAndSend_append {s1 : List UInt8} (valid : ValidUtf8 s1) (s2 : List UInt8)
    (pathname : String) (out : Output) :
    decodeAndSend pathname s2.length s2 (decodeAndSend pathname s1.length s1 out) =
      decodeAndSend pathname (s1 ++ s2).length (s1 ++ s2) out := by
  induction valid generalizing out with
  | nil => simp [decodeAndSend, decodeAndSendFuel]
  | cons char _ ih =>
    rw [decodeAndSend_char pathname char, List.append_assoc, decodeAndSend_char pathname char, ih]

/-- `é`, the bytes `C3 A9`. -/
theorem utf8Char_e9 : Utf8Char [0xC3, 0xA9] := .two (by decide) (by decide) ⟨by decide, by decide⟩

theorem decodeAndSend_append_after_e9 :
    ValidUtf8 [0xC3, 0xA9] ∧
      decodeAndSend "log" [0x0A, 0xC3].length [0x0A, 0xC3]
          (decodeAndSend "log" [0xC3, 0xA9].length [0xC3, 0xA9] ⟨[], []⟩) =
        decodeAndSend "log" ([0xC3, 0xA9] ++ [0x0A, 0xC3]).length ([0xC3, 0xA9] ++ [0x0A, 0xC3])
          ⟨[], []⟩ :=
  ⟨.of_char utf8Char_e9, decodeAndSend_append (.of_char utf8Char_e9) [0x0A, 0xC3] "log" ⟨[], []⟩⟩

/-- `é` read in two reads of a byte each: each half decodes as `RuneError`, and the partial
buffer receives U+FFFD twice, where one read of both bytes writes `é`. -/
theorem decodeAndSend_split_in_rune :
    ValidUtf8 [0xC3, 0xA9] ∧
      decodeAndSend "log" 1 [0xA9] (decodeAndSend "log" 1 [0xC3] ⟨[], []⟩) =
        ⟨[], [0xEF, 0xBF, 0xBD, 0xEF, 0xBF, 0xBD]⟩ ∧
      decodeAndSend "log" 2 [0xC3, 0xA9] ⟨[], []⟩ = ⟨[], [0xC3, 0xA9]⟩ :=
  ⟨.of_char utf8Char_e9, by decide, by decide⟩

end SfProcessor.Tailer
