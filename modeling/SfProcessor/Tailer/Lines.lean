import SfProcessor.Tailer.Decode

/-!
# The lines `decodeAndSend` sends

What one call of `decodeAndSend` is for, said without its loop: the partial buffer followed by
the bytes read is cut at each newline, carriage returns are dropped, every segment but the last
is sent as a line, and the last is the new partial buffer.

## Main result

`decodeAndSend_eq_lineSegments`: on valid UTF-8, and a partial buffer that holds no newline or
carriage return (as every buffer the loop leaves does), the loop computes `lineSegments`.

## Proof strategy

Dropping carriage returns commutes with cutting at newlines (`map_filter_splitOn`), so the
segments are those of the bytes without carriage returns. The loop handles one valid character
at a time (`decodeAndSend_char`), and each turn is the matching step of `lineSegments`
(`lineSegments_char`): a carriage return changes nothing, a newline sends the buffer, and any
other character, which holds neither byte, is appended.
-/

namespace SfProcessor.Tailer

/-- The byte of `\n`. -/
def newline : UInt8 := 0x0A

/-- The byte of `\r`. -/
def carriageReturn : UInt8 := 0x0D

/-- What `decodeAndSend` is for: the segments of the partial buffer followed by `s`, cut at
each newline and with every carriage return removed; all segments but the last are sent, in
order, and the last is left in the partial buffer. -/
def lineSegments (pathname : String) (out : Output) (s : List UInt8) : Output :=
  let segments := ((out.buffer ++ s).splitOn newline).map (·.filter (· != carriageReturn))
  ⟨out.sent ++ segments.dropLast.map (LogLine.mk pathname), segments.getLast?.getD []⟩

/-! ### Carriage returns and newlines -/

section Segments

variable {f : List UInt8 → List UInt8} {x : UInt8}

theorem map_modifyHead_of_drop (drops : ∀ l, f (x :: l) = f l) (ls : List (List UInt8)) :
    (ls.modifyHead (x :: ·)).map f = ls.map f := by
  cases ls <;> simp [drops]

theorem map_modifyHead_of_keep (keeps : ∀ l, f (x :: l) = x :: f l) (ls : List (List UInt8)) :
    (ls.modifyHead (x :: ·)).map f = (ls.map f).modifyHead (x :: ·) := by
  cases ls <;> simp [keeps]

theorem not_beq_of_not_mem {bs : List UInt8} (absent : x ∉ bs) : ∀ b ∈ bs, ¬(b == x) = true :=
  fun b mem => by simpa using ne_of_mem_of_not_mem mem absent

/-- Filtering out a byte that `bs` does not hold leaves `bs` as it is. -/
theorem filter_of_not_mem {bs : List UInt8} (absent : x ∉ bs) : bs.filter (· != x) = bs :=
  List.filter_eq_self.mpr fun b mem => by simpa using not_beq_of_not_mem absent b mem

end Segments

/-- Dropping carriage returns commutes with cutting at newlines. -/
theorem map_filter_splitOn (bs : List UInt8) :
    (bs.splitOn newline).map (·.filter (· != carriageReturn)) =
      (bs.filter (· != carriageReturn)).splitOn newline := by
  unfold newline carriageReturn
  induction bs with
  | nil => rfl
  | cons b bs ih =>
    simp only [List.splitOn, List.splitOnP_cons] at ih ⊢
    by_cases nl : b = 0x0A
    · subst nl
      simp [ih]
    · have sep : (b == 0x0A) = false := by simpa using nl
      by_cases cr : b = 0x0D
      · subst cr
        rw [if_neg (by decide), map_modifyHead_of_drop (by simp), ih]
        simp
      · have keep : (b != 0x0D) = true := by simpa using cr
        rw [sep, if_neg Bool.false_ne_true, map_modifyHead_of_keep (by simp [keep]), ih]
        simp [List.filter_cons, keep, sep, List.splitOnP_cons]

/-! ### One character -/

/-- ASCII text is valid UTF-8. -/
theorem ValidUtf8.ascii : ∀ (bs : List UInt8), (∀ b ∈ bs, b.toNat ≤ 0x7F) → ValidUtf8 bs
  | [], _ => .nil
  | b :: bs, ascii =>
    .cons (.one (ascii b (List.mem_cons_self _ _)))
      (ValidUtf8.ascii bs fun b' mem => ascii b' (List.mem_cons_of_mem _ mem))

/-- The turn on a valid character: a carriage return changes nothing, a newline sends the
partial buffer, and any other character is appended to it. -/
theorem handleRune_decodeRune {c : List UInt8} (valid : Utf8Char c) (pathname : String)
    (out : Output) :
    handleRune pathname out (decodeRune c).1 =
      if c = [carriageReturn] then out
      else if c = [newline] then sendLine pathname out
      else { out with buffer := out.buffer ++ c } := by
  have roundTrip := encodeRune_decodeRune valid
  by_cases cr : c = [carriageReturn]
  · subst cr; rfl
  · by_cases nl : c = [newline]
    · subst nl; rfl
    · have notCr : (decodeRune c).1 ≠ '\r'.toNat := fun same =>
        cr (by rw [← roundTrip, same]; rfl)
      have notNl : (decodeRune c).1 ≠ '\n'.toNat := fun same =>
        nl (by rw [← roundTrip, same]; rfl)
      rw [handleRune, if_neg notCr, if_neg notNl, roundTrip, if_neg cr, if_neg nl]

/-! ### The loop computes `lineSegments` -/

/-- A carriage return changes nothing. -/
theorem lineSegments_carriageReturn (pathname : String) (out : Output) (rest : List UInt8) :
    lineSegments pathname out rest = lineSegments pathname out ([carriageReturn] ++ rest) := by
  simp only [lineSegments, map_filter_splitOn, List.filter_append]
  rfl

/-- Any other character is appended to the partial buffer. -/
theorem lineSegments_append (pathname : String) (out : Output) (c rest : List UInt8) :
    lineSegments pathname { out with buffer := out.buffer ++ c } rest =
      lineSegments pathname out (c ++ rest) := by
  simp [lineSegments]

section Step

variable (pathname : String) {out : Output} (noNewline : newline ∉ out.buffer)
  (noReturn : carriageReturn ∉ out.buffer)
include noNewline noReturn

theorem lineSegments_nil : lineSegments pathname out [] = out := by
  have whole : out.buffer.splitOn newline = [out.buffer] :=
    List.splitOnP_eq_single _ _ (not_beq_of_not_mem noNewline)
  simp [lineSegments, whole, filter_of_not_mem noReturn]

/-- A newline after the partial buffer sends it. -/
theorem lineSegments_newline (rest : List UInt8) :
    lineSegments pathname (sendLine pathname out) rest =
      lineSegments pathname out ([newline] ++ rest) := by
  have filtered : (out.buffer ++ ([newline] ++ rest)).filter (· != carriageReturn) =
      out.buffer ++ newline :: rest.filter (· != carriageReturn) := by
    rw [List.filter_append, filter_of_not_mem noReturn]
    rfl
  have first : (out.buffer ++ newline :: rest.filter (· != carriageReturn)).splitOn newline =
      out.buffer :: (rest.filter (· != carriageReturn)).splitOn newline :=
    List.splitOnP_first _ _ (not_beq_of_not_mem noNewline) _ (by simp) _
  obtain ⟨seg, segs, split⟩ :=
    List.exists_cons_of_ne_nil
      (List.splitOnP_ne_nil (· == newline) (rest.filter (· != carriageReturn)))
  simp only [lineSegments, map_filter_splitOn, filtered, first, sendLine, List.nil_append]
  simp only [List.splitOn] at split ⊢
  rw [split, List.dropLast_cons_of_ne_nil (List.cons_ne_nil _ _), List.getLast?_cons_cons]
  simp

/-- The step of `lineSegments` on a valid character is the loop's turn on it, and the partial
buffer it leaves holds no newline or carriage return. -/
theorem lineSegments_char {c : List UInt8} (valid : Utf8Char c) (rest : List UInt8) :
    lineSegments pathname (handleRune pathname out (decodeRune c).1) rest =
        lineSegments pathname out (c ++ rest) ∧
      newline ∉ (handleRune pathname out (decodeRune c).1).buffer ∧
      carriageReturn ∉ (handleRune pathname out (decodeRune c).1).buffer := by
  rw [handleRune_decodeRune valid]
  split_ifs with cr nl
  · subst cr
    exact ⟨lineSegments_carriageReturn pathname out rest, noNewline, noReturn⟩
  · subst nl
    exact ⟨lineSegments_newline pathname noNewline noReturn rest, by simp [sendLine],
      by simp [sendLine]⟩
  · refine ⟨lineSegments_append pathname out c rest, ?_, ?_⟩
    · simpa using ⟨noNewline, fun mem => nl (valid.eq_of_mem_ascii mem (by decide))⟩
    · simpa using ⟨noReturn, fun mem => cr (valid.eq_of_mem_ascii mem (by decide))⟩

end Step

/-- On valid UTF-8, and a partial buffer with no newline or carriage return, `decodeAndSend`
sends the segments of the buffer and the bytes between newlines, but the last, without their
carriage returns, and keeps the last as the partial buffer. -/
theorem decodeAndSend_eq_lineSegments {s : List UInt8} (valid : ValidUtf8 s) (pathname : String)
    (out : Output) (noNewline : newline ∉ out.buffer) (noReturn : carriageReturn ∉ out.buffer) :
    decodeAndSend pathname s.length s out = lineSegments pathname out s := by
  induction valid generalizing out with
  | nil =>
    rw [lineSegments_nil pathname noNewline noReturn]
    simp [decodeAndSend, decodeAndSendFuel]
  | cons char _ ih =>
    obtain ⟨step, noNewline', noReturn'⟩ := lineSegments_char pathname noNewline noReturn char _
    rw [decodeAndSend_char pathname char, ih _ noNewline' noReturn', step]

theorem decodeAndSend_eq_lineSegments_crlf :
    ValidUtf8 [0x61, 0x0D, 0x0A, 0x62] ∧ newline ∉ [0x78] ∧ carriageReturn ∉ [0x78] ∧
      decodeAndSend "log" [0x61, 0x0D, 0x0A, 0x62].length [0x61, 0x0D, 0x0A, 0x62]
          ⟨[], [0x78]⟩ =
        lineSegments "log" ⟨[], [0x78]⟩ [0x61, 0x0D, 0x0A, 0x62] :=
  have valid := ValidUtf8.ascii [0x61, 0x0D, 0x0A, 0x62] (by decide)
  ⟨valid, by decide, by decide,
    decodeAndSend_eq_lineSegments valid "log" ⟨[], [0x78]⟩ (by decide) (by decide)⟩

/-- `x` in the partial buffer, then `a\r\nb`: the line `xa` is sent and `b` is kept. -/
example : lineSegments "log" ⟨[], [0x78]⟩ [0x61, 0x0D, 0x0A, 0x62] =
    ⟨[⟨"log", [0x78, 0x61]⟩], [0x62]⟩ := by decide

end SfProcessor.Tailer
