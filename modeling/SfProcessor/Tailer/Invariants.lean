import SfProcessor.Tailer.FileStream
import SfProcessor.Tailer.Lines

/-!
# What every run of a file stream keeps

Two invariants of the file stream, over every interleaving of its goroutines' steps with the
writers, the rotations, truncations and removals of the file, `Stop` and cancellation.

## Main results

`sent_lines_clean`: in every reachable state every line sent is a line of the stream's
pathname whose text is valid UTF-8 with no newline and no carriage return, and so is every
goroutine's partial buffer, whatever bytes the files hold. `DecodeRune` turns an invalid
encoding into `RuneError`, which `WriteRune` writes as a valid character, and the two control
bytes are never written.

`one_reader_running`: in every reachable state at most one goroutine of the stream runs. A
successor is started only by a goroutine that returns as it starts it.

## Proof strategy

`Output.Clean` is kept by each turn of `decodeAndSend` (`Output.Clean.handleRune`), hence by
the loop; a step of the stream keeps `State.Clean` goroutine by goroutine, by `step_cases`.
For the goroutines, `State.OneReader` says that every one but the last started has returned;
only a running goroutine can step, so only the last steps.
-/

namespace SfProcessor.Tailer

/-! ### The text of a line -/

/-- The text of a line as the stream may send it: valid UTF-8, with no newline and no carriage
return. -/
structure LineText (bs : List UInt8) : Prop where
  valid : ValidUtf8 bs
  noNewline : newline ∉ bs
  noReturn : carriageReturn ∉ bs

theorem LineText.nil : LineText [] := ⟨.nil, List.not_mem_nil _, List.not_mem_nil _⟩

/-- Writing a rune other than `\r` and `\n` keeps the text of a line. -/
theorem LineText.append_encodeRune {bs : List UInt8} {r : Rune} (text : LineText bs)
    (notReturn : r ≠ '\r'.toNat) (notNewline : r ≠ '\n'.toNat) :
    LineText (bs ++ encodeRune r) where
  valid := text.valid.append (.of_char (encodeRune_utf8Char r))
  noNewline := by
    rw [List.mem_append, not_or]
    exact ⟨text.noNewline, fun mem => notNewline (eq_of_mem_encodeRune mem (by decide))⟩
  noReturn := by
    rw [List.mem_append, not_or]
    exact ⟨text.noReturn, fun mem => notReturn (eq_of_mem_encodeRune mem (by decide))⟩

/-! ### One call of `decodeAndSend` -/

/-- An output whose lines are lines of `pathname`, and whose lines and partial buffer have the
text of a line. -/
structure Output.Clean (pathname : String) (out : Output) : Prop where
  sent : ∀ l ∈ out.sent, l.filename = pathname ∧ LineText l.line
  buffer : LineText out.buffer

namespace Output.Clean

variable {pathname : String} {out : Output}

theorem sendLine (clean : out.Clean pathname) : (Tailer.sendLine pathname out).Clean pathname where
  sent l mem := by
    rcases List.mem_append.mp mem with old | sent
    · exact clean.sent l old
    · rw [List.mem_singleton.mp sent]
      exact ⟨rfl, clean.buffer⟩
  buffer := .nil

theorem flushPartial (clean : out.Clean pathname) :
    (Tailer.flushPartial pathname out).Clean pathname := by
  unfold Tailer.flushPartial
  split
  · exact clean
  · exact clean.sendLine

theorem handleRune (clean : out.Clean pathname) (r : Rune) :
    (Tailer.handleRune pathname out r).Clean pathname := by
  unfold Tailer.handleRune
  split_ifs with cr nl
  · exact clean
  · exact clean.sendLine
  · exact ⟨clean.sent, clean.buffer.append_encodeRune cr nl⟩

theorem decodeAndSendFuel (clean : out.Clean pathname) (fuel n : Nat) (b : List UInt8) :
    (Tailer.decodeAndSendFuel pathname fuel n b out).Clean pathname := by
  induction fuel generalizing n b out with
  | zero => exact clean
  | succ fuel ih =>
    unfold Tailer.decodeAndSendFuel
    split
    · exact clean
    · exact ih (clean.handleRune _) _ _

end Output.Clean

/-! ### Every reachable state -/

/-- A state whose lines are lines of `pathname`, and whose lines and partial buffers have the
text of a line. -/
structure State.Clean (pathname : String) (s : State) : Prop where
  sent : ∀ l ∈ s.sent, l.filename = pathname ∧ LineText l.line
  buffers : ∀ r ∈ s.readers, LineText r.buffer

namespace State.Clean

variable {pathname : String} {s : State} {i : Nat} {r : Reader}

theorem output (clean : s.Clean pathname) (mem : r ∈ s.readers) :
    Output.Clean pathname ⟨s.sent, r.buffer⟩ :=
  ⟨clean.sent, clean.buffers r mem⟩

/-- Goroutine `i` becomes `r'`, and `out` is the output of its turn. -/
theorem update (clean : s.Clean pathname) {out : Output} (outClean : out.Clean pathname)
    {s' : State} {r' : Reader} (sent : s'.sent = out.sent)
    (readers : s'.readers = s.readers.set i r') (buffer : r'.buffer = out.buffer) :
    s'.Clean pathname where
  sent := sent ▸ outClean.sent
  buffers x mem := by
    rw [readers] at mem
    rcases List.mem_or_eq_of_mem_set mem with old | rfl
    · exact clean.buffers x old
    · exact buffer ▸ outClean.buffer

theorem setReader (clean : s.Clean pathname) {r' : Reader} (text : LineText r'.buffer) :
    (s.setReader i r').Clean pathname :=
  clean.update (show Output.Clean pathname ⟨s.sent, r'.buffer⟩ from ⟨clean.sent, text⟩) rfl rfl rfl

theorem complete (clean : s.Clean pathname) (mem : r ∈ s.readers) :
    (s.complete pathname i r).Clean pathname :=
  clean.update (clean.output mem).flushPartial rfl rfl rfl

theorem advance (clean : s.Clean pathname) (at_i : s.readers[i]? = some r) {s' : State}
    (advanced : s.advance pathname i r = some s') : s'.Clean pathname := by
  have mem : r ∈ s.readers := List.mem_iff_getElem?.mpr ⟨i, at_i⟩
  have text := clean.buffers r mem
  cases pc : r.pc <;> simp only [State.advance, pc, Option.some.injEq, reduceCtorEq] at advanced <;>
    subst advanced
  case read =>
    dsimp only [readStep]
    split
    · exact clean.setReader text
    · exact clean.update ((clean.output mem).decodeAndSendFuel _ _ _) rfl rfl rfl
  case eofStat =>
    dsimp only [eofStatStep]
    split
    · exact clean.complete mem
    · split_ifs
      · exact clean.setReader text
      · exact clean.update (clean.output mem).flushPartial rfl rfl rfl
      · exact clean.setReader text
  case sleep =>
    dsimp only [sleepStep]
    split_ifs
    · exact clean.complete mem
    · exact clean.setReader text
  case wait => exact clean.setReader text
  case reopen fi =>
    have returned : (s.setReader i { r with pc := .exited }).Clean pathname := clean.setReader text
    dsimp only [reopenStep]
    split
    · refine ⟨returned.sent, fun x mem => ?_⟩
      rcases List.mem_append.mp mem with old | started
      · exact returned.buffers x old
      · rw [List.mem_singleton.mp started]; exact .nil
    · exact returned

end State.Clean

section Clean

variable {pathname : String} {streamFromStart : Bool} {fs₀ : FileSystem} {s s' : State}

theorem State.Clean.newStep (clean : s.Clean pathname) (started : s.newStep streamFromStart = some s') :
    s'.Clean pathname := by
  unfold State.newStep at started
  split at started
  · cases started; exact ⟨clean.sent, clean.buffers⟩
  · cases started
    split
    · refine ⟨clean.sent, fun x mem => ?_⟩
      rcases List.mem_append.mp mem with old | started
      · exact clean.buffers x old
      · rw [List.mem_singleton.mp started]; exact .nil
    · exact ⟨clean.sent, clean.buffers⟩
  · cases started

theorem State.Clean.step {a : Action} (clean : s.Clean pathname)
    (stepped : step pathname streamFromStart s a = some s') : s'.Clean pathname := by
  rcases step_cases stepped with ⟨-, readers, -, sent⟩ | ⟨-, started⟩ |
      ⟨i, r, -, at_i, advanced⟩ | ⟨i, r, -, at_i, -, rfl⟩
  · exact ⟨sent ▸ clean.sent, readers ▸ clean.buffers⟩
  · exact clean.newStep started
  · exact clean.advance at_i advanced
  · exact clean.setReader (clean.buffers r (List.mem_iff_getElem?.mpr ⟨i, at_i⟩))

/-- In every reachable state, every line sent is a line of the stream's pathname whose text is
valid UTF-8 with no newline and no carriage return, and every goroutine's partial buffer has
the text of a line, whatever bytes the files hold. -/
theorem sent_lines_clean (reach : Reachable pathname streamFromStart fs₀ s) :
    s.Clean pathname := by
  induction reach with
  | init => exact ⟨fun _ => nofun, fun _ => nofun⟩
  | step _ stepped clean => exact clean.step stepped

/-- A file holding `a`, the invalid byte `0xFF` and `\r\n`: the line sent is `a` followed by the
encoding of `RuneError`, without the carriage return. -/
theorem sent_lines_clean_invalid :
    ∃ s, Reachable "app.log" true ⟨[[0x61, 0xFF, 0x0D, 0x0A]], some 0⟩ s ∧
      s.sent = [⟨"app.log", [0x61, 0xEF, 0xBF, 0xBD]⟩] ∧ s.Clean "app.log" :=
  have reach := reachable_run .init (rfl : run "app.log" true
    (State.init ⟨[[0x61, 0xFF, 0x0D, 0x0A]], some 0⟩) [.runNew, .runNew, .advance 0] = some _)
  ⟨_, reach, rfl, sent_lines_clean reach⟩

end Clean

/-! ### One goroutine at a time -/

theorem set_of_last {α : Type} {l : List α} {i : Nat} (last : i + 1 = l.length) (x : α) :
    l.set i x = l.dropLast ++ [x] := by
  obtain ⟨init, y, rfl⟩ := (List.eq_nil_or_concat l).resolve_left (by rintro rfl; simp at last)
  obtain rfl : i = init.length := by simpa using last
  rw [List.concat_eq_append, List.set_append_right _ _ le_rfl, Nat.sub_self, List.set_cons_zero,
    List.dropLast_concat]

namespace State

variable {pathname : String} {s s' : State} {i : Nat} {r : Reader}

/-- A goroutine's step leaves `New` where it is, changes the goroutine, and starts a successor
only as it returns. -/
theorem advance_shape (advanced : s.advance pathname i r = some s') :
    s'.newPc = s.newPc ∧ ∃ r', s'.readers = s.readers.set i r' ∨
      r'.pc = .exited ∧ ∃ next, s'.readers = s.readers.set i r' ++ [next] := by
  cases pc : r.pc <;> simp only [advance, pc, Option.some.injEq, reduceCtorEq] at advanced <;>
    subst advanced
  case read =>
    dsimp only [readStep]
    split
    · exact ⟨rfl, _, .inl rfl⟩
    · exact ⟨rfl, _, .inl rfl⟩
  case eofStat =>
    dsimp only [eofStatStep]
    split
    · exact ⟨rfl, _, .inl rfl⟩
    · split_ifs <;> exact ⟨rfl, _, .inl rfl⟩
  case sleep =>
    dsimp only [sleepStep]
    split_ifs <;> exact ⟨rfl, _, .inl rfl⟩
  case wait => exact ⟨rfl, _, .inl rfl⟩
  case reopen fi =>
    dsimp only [reopenStep]
    split
    · exact ⟨rfl, _, .inr ⟨rfl, _, rfl⟩⟩
    · exact ⟨rfl, _, .inl rfl⟩

theorem running_of_advance (advanced : s.advance pathname i r = some s') : r.pc ≠ .exited := by
  intro exited
  simp [advance, exited] at advanced

/-- Every goroutine of the stream but the last one started has returned, and none is started
before `New` opens the file. -/
structure OneReader (s : State) : Prop where
  returned : ∀ r ∈ s.readers.dropLast, r.pc = .exited
  unopened : s.newPc ≠ .returned → s.readers = []

namespace OneReader

/-- Only the last goroutine started can be running. -/
theorem last_of_running (one : s.OneReader) (at_i : s.readers[i]? = some r)
    (running : r.pc ≠ .exited) : i + 1 = s.readers.length := by
  have lt := (List.getElem?_eq_some_iff.mp at_i).1
  by_contra notLast
  have earlier : s.readers.dropLast[i]? = some r := by
    rw [List.getElem?_dropLast, if_pos (by omega), at_i]
  exact running (one.returned r (List.mem_iff_getElem?.mpr ⟨i, earlier⟩))

/-- The last goroutine becomes `r'`, and a successor may be started as it returns. -/
theorem replace_last (one : s.OneReader) (at_i : s.readers[i]? = some r)
    (running : r.pc ≠ .exited) {r' : Reader} {extra : List Reader}
    (readers : s'.readers = s.readers.set i r' ++ extra) (newPc : s'.newPc = s.newPc)
    (successor : extra = [] ∨ r'.pc = .exited ∧ extra.length = 1) : s'.OneReader where
  returned x mem := by
    rw [readers, set_of_last (one.last_of_running at_i running)] at mem
    rcases successor with rfl | ⟨exited, single⟩
    · rw [List.append_nil, List.dropLast_concat] at mem
      exact one.returned x mem
    · obtain ⟨next, rfl⟩ := List.length_eq_one.mp single
      rw [List.dropLast_concat] at mem
      rcases List.mem_append.mp mem with old | this
      · exact one.returned x old
      · rw [List.mem_singleton.mp this]; exact exited
  unopened notReturned := by
    have empty := one.unopened (newPc ▸ notReturned)
    simp [empty] at at_i

theorem newStep {streamFromStart : Bool} (one : s.OneReader)
    (started : s.newStep streamFromStart = some s') : s'.OneReader := by
  unfold State.newStep at started
  split at started
  next stat =>
    cases started
    have empty := one.unopened (by rw [stat]; nofun)
    exact ⟨by simp [empty], fun _ => empty⟩
  next fi opening =>
    have empty := one.unopened (by rw [opening]; nofun)
    cases started
    split
    · exact ⟨by simp [empty], fun returned => absurd rfl returned⟩
    · exact ⟨by simp [empty], fun _ => empty⟩
  next => cases started

theorem step {streamFromStart : Bool} {a : Action} (one : s.OneReader)
    (stepped : step pathname streamFromStart s a = some s') : s'.OneReader := by
  rcases step_cases stepped with ⟨newPc, readers, -, -⟩ | ⟨-, started⟩ |
      ⟨i, r, -, at_i, advanced⟩ | ⟨i, r, -, at_i, read, rfl⟩
  · exact ⟨readers ▸ one.returned, fun h => readers ▸ one.unopened (newPc ▸ h)⟩
  · exact one.newStep started
  · obtain ⟨newPc, r', shape⟩ := advance_shape advanced
    rcases shape with readers | ⟨exited, next, readers⟩
    · exact one.replace_last at_i (running_of_advance advanced)
        (by rw [readers, List.append_nil]) newPc (.inl rfl)
    · exact one.replace_last at_i (running_of_advance advanced) readers newPc (.inr ⟨exited, rfl⟩)
  · exact one.replace_last at_i (by rw [read]; nofun) (List.append_nil _).symm rfl (.inl rfl)

end OneReader

end State

section OneRunning

variable {pathname : String} {streamFromStart : Bool} {fs₀ : FileSystem} {s : State}

theorem oneReader_of_reachable (reach : Reachable pathname streamFromStart fs₀ s) :
    s.OneReader := by
  induction reach with
  | init => exact ⟨fun _ => nofun, fun _ => rfl⟩
  | step _ stepped one => exact one.step stepped

/-- In every reachable state at most one goroutine of the stream is running: two goroutines
that have not returned are the same. -/
theorem one_reader_running (reach : Reachable pathname streamFromStart fs₀ s) {i j : Nat}
    {ri rj : Reader} (at_i : s.readers[i]? = some ri) (at_j : s.readers[j]? = some rj)
    (running_i : ri.pc ≠ .exited) (running_j : rj.pc ≠ .exited) : i = j := by
  have one := oneReader_of_reachable reach
  have last_i := one.last_of_running at_i running_i
  have last_j := one.last_of_running at_j running_j
  omega

/-- After a rotation the first goroutine has returned and its successor runs. -/
theorem one_reader_running_rotated :
    ∃ s, Reachable "app.log" true ⟨[[]], some 0⟩ s ∧
      s.readers.map (·.pc) = [.exited, .read] ∧ (1 : Nat) = 1 :=
  have reach := reachable_run .init (rfl : run "app.log" true (State.init ⟨[[]], some 0⟩)
    [.runNew, .runNew, .rotate, .advance 0, .advance 0, .advance 0] = some _)
  ⟨_, reach, rfl, one_reader_running reach rfl rfl (by decide) (by decide)⟩

end OneRunning

end SfProcessor.Tailer
