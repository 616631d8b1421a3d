import SfProcessor.Tailer.FileStream
import SfProcessor.Tailer.Lines

/-!
# The read loop reads whole lines

The loop of `fs.stream` reads `defaultReadBufferSize` bytes at a time and hands each read to
`decodeAndSend`, with the partial buffer carried from one read to the next. Against
`lineSegments`, which cuts all the bytes at once, this is an optimisation: the two agree
whenever every read ends between two characters, as it does on ASCII text.

## Main result

`read_loop_eq_lineSegments`: a running goroutine at the top of its loop, with the file holding
`rest` past its offset, reads to the end of the file in one read per `defaultReadBufferSize`
bytes and a last, empty one; it then stands at the end-of-file stat, having sent the segments
of its partial buffer and `rest`, and keeps the last segment as its partial buffer.

## Proof strategy

On valid UTF-8 `decodeAndSend` computes `lineSegments` and leaves a partial buffer with no
newline or carriage return (`decodeAndSend_lineSegments`), and `lineSegments` composes over a
concatenation whose first part is valid (`lineSegments_append_of_valid`). Induction on the
number of reads then follows the loop.
-/

namespace SfProcessor.Tailer

/-! ### One read -/

section Decode

variable (pathname : String)

/-- On valid UTF-8 `decodeAndSend` sends the segments `lineSegments` cuts, and the partial
buffer it leaves holds no newline or carriage return. -/
theorem decodeAndSend_lineSegments {s : List UInt8} (valid : ValidUtf8 s) {out : Output}
    (noNewline : newline ∉ out.buffer) (noReturn : carriageReturn ∉ out.buffer) :
    decodeAndSend pathname s.length s out = lineSegments pathname out s ∧
      newline ∉ (lineSegments pathname out s).buffer ∧
      carriageReturn ∉ (lineSegments pathname out s).buffer := by
  induction valid generalizing out with
  | nil =>
    rw [lineSegments_nil pathname noNewline noReturn]
    exact ⟨by simp [decodeAndSend, decodeAndSendFuel], noNewline, noReturn⟩
  | cons char _ ih =>
    obtain ⟨step, noNewline', noReturn'⟩ := lineSegments_char pathname noNewline noReturn char _
    rw [decodeAndSend_char pathname char, ← step]
    exact ih noNewline' noReturn'

/-- `lineSegments` of a concatenation cuts the first part, then goes on from its output, when
the first part is valid UTF-8. -/
theorem lineSegments_append_of_valid {a : List UInt8} (valid : ValidUtf8 a) (b : List UInt8)
    {out : Output} (noNewline : newline ∉ out.buffer) (noReturn : carriageReturn ∉ out.buffer) :
    lineSegments pathname out (a ++ b) = lineSegments pathname (lineSegments pathname out a) b := by
  induction valid generalizing out with
  | nil => rw [List.nil_append, lineSegments_nil pathname noNewline noReturn]
  | cons char _ ih =>
    obtain ⟨step, noNewline', noReturn'⟩ := lineSegments_char pathname noNewline noReturn char _
    obtain ⟨stepAll, -, -⟩ := lineSegments_char pathname noNewline noReturn char (_ ++ b)
    rw [List.append_assoc, ← stepAll, ← step]
    exact ih noNewline' noReturn'

end Decode

/-! ### The loop -/

/-- Every read of `rest`, `defaultReadBufferSize` bytes at a time, ends between two
characters. -/
def ChunksValid (rest : List UInt8) : Prop :=
  ∀ k, ValidUtf8 ((rest.drop (k * defaultReadBufferSize)).take defaultReadBufferSize)

/-- ASCII text is read between characters whatever the reads. -/
theorem ChunksValid.of_ascii {rest : List UInt8} (ascii : ∀ b ∈ rest, b.toNat ≤ 0x7F) :
    ChunksValid rest := fun _ =>
  ValidUtf8.ascii _ fun b mem => ascii b (List.mem_of_mem_drop (List.mem_of_mem_take mem))

section Loop

variable {pathname : String} {streamFromStart : Bool} {s : State} {i : Nat} {r : Reader}

/-- A read that returns bytes: `decodeAndSend`, and back to the top of the loop. -/
theorem step_read (at_i : s.readers[i]? = some r) (reading : r.pc = .read)
    (live : s.cancelled = false) (nonempty : s.fs.read r.fd r.offset ≠ []) :
    step pathname streamFromStart s (.advance i) =
      some { s with
        sent := (decodeAndSend pathname (s.fs.read r.fd r.offset).length (s.fs.read r.fd r.offset)
          ⟨s.sent, r.buffer⟩).sent,
        readers := s.readers.set i { r with
          offset := r.offset + (s.fs.read r.fd r.offset).length,
          buffer := (decodeAndSend pathname (s.fs.read r.fd r.offset).length
            (s.fs.read r.fd r.offset) ⟨s.sent, r.buffer⟩).buffer,
          pc := .read } } := by
  simp [step, at_i, State.advance, reading, State.readStep, nonempty, live]

/-- The read at the end of the file: on to the stat. -/
theorem step_read_eof (at_i : s.readers[i]? = some r) (reading : r.pc = .read)
    (empty : s.fs.read r.fd r.offset = []) :
    step pathname streamFromStart s (.advance i) =
      some (s.setReader i { r with pc := .eofStat }) := by
  simp [step, at_i, State.advance, reading, State.readStep, empty]

theorem read_loop_of_reads (k : Nat) : ∀ {s : State} {r : Reader} {rest : List UInt8},
    s.readers[i]? = some r → r.pc = .read → s.cancelled = false → newline ∉ r.buffer →
    carriageReturn ∉ r.buffer → (s.fs.contents r.fd).drop r.offset = rest → ChunksValid rest →
    (rest.length + defaultReadBufferSize - 1) / defaultReadBufferSize = k →
    run pathname streamFromStart s (List.replicate (k + 1) (.advance i)) =
      some { s with
        sent := (lineSegments pathname ⟨s.sent, r.buffer⟩ rest).sent,
        readers := s.readers.set i { r with
          offset := r.offset + rest.length,
          buffer := (lineSegments pathname ⟨s.sent, r.buffer⟩ rest).buffer,
          pc := .eofStat } } := by
  induction k with
  | zero =>
    intro s r rest at_i reading _ noNewline noReturn remaining _ reads
    obtain rfl : rest = [] :=
      List.eq_nil_of_length_eq_zero (by unfold defaultReadBufferSize at reads; omega)
    have eof : s.fs.read r.fd r.offset = [] := by simp [FileSystem.read, remaining]
    simp [run, step_read_eof at_i reading eof,
      @lineSegments_nil pathname ⟨s.sent, r.buffer⟩ noNewline noReturn, State.setReader]
  | succ k ih =>
    intro s r rest at_i reading live noNewline noReturn remaining chunks reads
    have nonempty : rest ≠ [] := by
      rintro rfl
      simp [defaultReadBufferSize] at reads
    have read_eq : s.fs.read r.fd r.offset = rest.take defaultReadBufferSize := by
      rw [FileSystem.read, remaining]
    have first : ValidUtf8 (rest.take defaultReadBufferSize) := by simpa using chunks 0
    obtain ⟨decoded, noNewline₁, noReturn₁⟩ :=
      @decodeAndSend_lineSegments pathname _ first ⟨s.sent, r.buffer⟩ noNewline noReturn
    have stepped := @step_read pathname streamFromStart _ _ _ at_i reading live
      (by rw [read_eq]; simpa [defaultReadBufferSize] using nonempty)
    rw [read_eq, decoded] at stepped
    have lt := (List.getElem?_eq_some_iff.mp at_i).1
    have dropped : rest.drop (rest.take defaultReadBufferSize).length =
        rest.drop defaultReadBufferSize := by
      rw [List.length_take]
      by_cases short : rest.length ≤ defaultReadBufferSize
      · rw [List.drop_eq_nil_of_le (by omega), List.drop_eq_nil_of_le short]
      · rw [Nat.min_eq_left (by omega)]
    set out₁ := lineSegments pathname ⟨s.sent, r.buffer⟩ (rest.take defaultReadBufferSize)
    set r₁ : Reader :=
      ⟨r.fd, r.offset + (rest.take defaultReadBufferSize).length, r.fi, out₁.buffer, .read⟩
    have next := @ih ⟨s.fs, s.newPc, s.readers.set i r₁, s.completed, s.stopped, s.cancelled,
      out₁.sent⟩ r₁
      (rest.drop defaultReadBufferSize) (List.getElem?_set_self lt) rfl live noNewline₁ noReturn₁
      (by dsimp only; rw [← List.drop_drop, remaining, dropped])
      (fun j => by rw [List.drop_drop, Nat.add_comm, ← Nat.succ_mul]; exact chunks (j + 1))
      (by rw [List.length_drop]; unfold defaultReadBufferSize at reads ⊢; omega)
    rw [List.replicate_succ, run, stepped, Option.some_bind, next]
    have whole : lineSegments pathname ⟨out₁.sent, out₁.buffer⟩ (rest.drop defaultReadBufferSize) =
        lineSegments pathname ⟨s.sent, r.buffer⟩ rest := by
      rw [← @lineSegments_append_of_valid pathname _ first _ ⟨s.sent, r.buffer⟩ noNewline noReturn,
        List.take_append_drop]
    have length : (rest.take defaultReadBufferSize).length +
        (rest.drop defaultReadBufferSize).length = rest.length := by
      rw [← List.length_append, List.take_append_drop]
    simp only [whole, List.set_set, Nat.add_assoc, length, r₁]

/-- The read loop of a running goroutine, from the top of the loop to the end-of-file stat:
one read per `defaultReadBufferSize` bytes past the offset and a last, empty one. When every
read ends between two characters, the goroutine sends the segments `lineSegments` cuts from
its partial buffer and the rest of the file, and keeps the last as its partial buffer. -/
theorem read_loop_eq_lineSegments (at_i : s.readers[i]? = some r) (reading : r.pc = .read)
    (live : s.cancelled = false) (noNewline : newline ∉ r.buffer)
    (noReturn : carriageReturn ∉ r.buffer)
    (chunks : ChunksValid ((s.fs.contents r.fd).drop r.offset)) :
    run pathname streamFromStart s
        (List.replicate
          ((((s.fs.contents r.fd).drop r.offset).length + defaultReadBufferSize - 1) /
            defaultReadBufferSize + 1)
          (.advance i)) =
      some { s with
        sent := (lineSegments pathname ⟨s.sent, r.buffer⟩
          ((s.fs.contents r.fd).drop r.offset)).sent,
        readers := s.readers.set i { r with
          offset := r.offset + ((s.fs.contents r.fd).drop r.offset).length,
          buffer := (lineSegments pathname ⟨s.sent, r.buffer⟩
            ((s.fs.contents r.fd).drop r.offset)).buffer,
          pc := .eofStat } } :=
  read_loop_of_reads _ at_i reading live noNewline noReturn rfl chunks rfl

/-- `New` has opened `a\r\nb` from its start, and its goroutine is about to read. -/
def crlfState : State :=
  ⟨⟨[[0x61, 0x0D, 0x0A, 0x62]], some 0⟩, .returned, [⟨0, 0, ⟨0, 4⟩, [], .read⟩], false, false,
    false, []⟩

/-- One read sends `a`; the read at the end of the file leaves `b` in the partial buffer. -/
theorem read_loop_eq_lineSegments_crlf :
    ∃ s', run "log" true crlfState (List.replicate 2 (.advance 0)) = some s' ∧
      s'.sent = [⟨"log", [0x61]⟩] ∧ s'.readers = [⟨0, 4, ⟨0, 4⟩, [0x62], .eofStat⟩] :=
  have at_0 : crlfState.readers[0]? = some ⟨0, 0, ⟨0, 4⟩, [], .read⟩ := rfl
  ⟨_, read_loop_eq_lineSegments at_0 rfl rfl (by decide) (by decide)
    (ChunksValid.of_ascii (by decide)), by decide, by decide⟩

end Loop

end SfProcessor.Tailer
