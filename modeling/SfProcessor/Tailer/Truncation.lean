import SfProcessor.Tailer.AppendOnly

/-!
# A truncated log is streamed afresh from its start

A log may be rotated by copying it and truncating it in place. The goroutine tells a
truncation only at its end-of-file stat, by its file being shorter than its offset: it then
sends its partial line and reads the file again from its start. That works as long as the
file is not written to past the goroutine's offset before the stat, which the source assumes
("in production it's unlikely that a new file writes more bytes than the previous").

## Main result

`truncation_sent_eq_lineSegments`: in every run from `New` in which the log is appended to, in
ASCII, and truncated, and may be removed, but is never rotated, no read fails with `ESTALE`,
and nothing is appended while the running goroutine has a truncation it has not seen, either
no goroutine has started and nothing is sent, or one has, and while it runs either the lines
sent, followed by its partial buffer, are the lines its epoch begins after followed by the line
segments of the bytes it has read since, or a truncation is pending: its file is empty and its
offset past the end. Where the epoch begins is a ghost of the run (`EpochStart.next`): the
first at `New`'s offset after no line, and each later one at the start of the file after the
lines sent before the stat that saw the truncation and the partial line the goroutine held.

## Proof strategy

`Reading` says how the goroutine stands: in its `Epoch`, which tracks its reads as in the
append-only case after the lines the epoch begins after (`Reader.streamedFrom`), or with a
truncation pending. A truncation of a file the goroutine has read into leaves it pending
(`Reading.truncate`); the stat that sees the truncation sends the partial line and starts the
new epoch the ghost records (`Reading.seek`).
-/

namespace SfProcessor.Tailer

/-! ### Truncating runs -/

/-- An action of a world in which the log is appended to, in ASCII, and truncated, and may be
removed, but is never rotated, and no read fails with `ESTALE`. -/
def Action.AppendTruncate : Action → Prop
  | .append data => ∀ b ∈ data, b.toNat ≤ 0x7F
  | .rotate | .readStale _ => False
  | .truncate | .delete | .stop | .cancel | .runNew | .advance _ => True

instance (a : Action) : Decidable a.AppendTruncate :=
  match a with
  | .append data => inferInstanceAs (Decidable (∀ b ∈ data, b.toNat ≤ 0x7F))
  | .rotate | .readStale _ => isFalse nofun
  | .truncate | .delete | .stop | .cancel | .runNew | .advance _ => isTrue trivial

/-- The step `a` appends to the file while a running goroutine has not yet seen a truncation:
its offset is past the end of its file. -/
def OutrunsTruncation (s : State) : Action → Prop
  | .append _ => ∃ r ∈ s.readers, r.pc ≠ .exited ∧ (s.fs.contents r.fd).length < r.offset
  | _ => False

instance (s : State) (a : Action) : Decidable (OutrunsTruncation s a) :=
  match a with
  | .append _ => inferInstanceAs
      (Decidable (∃ r ∈ s.readers, r.pc ≠ .exited ∧ (s.fs.contents r.fd).length < r.offset))
  | .rotate | .truncate | .delete | .stop | .cancel | .runNew | .advance _ | .readStale _ =>
    isFalse nofun

/-- Where the goroutine's current epoch begins: after the lines `prev`, at the offset `start`.
A ghost of the run, which no code reads. -/
structure EpochStart where
  prev : List LogLine
  start : Nat
  deriving DecidableEq, Repr

/-- The lines a new epoch starts after, when `a` is the end-of-file stat of goroutine `i` and
finds its file, which the pathname still names, shorter than its offset: every line sent
before, then the goroutine's partial line, if it holds one. -/
def State.truncationSeen (pathname : String) (s : State) : Action → Option (List LogLine)
  | .advance i =>
    match s.readers[i]? with
    | some r =>
      if r.pc = .eofStat ∧ s.fs.bound = some r.fd ∧ (s.fs.contents r.fd).length < r.offset then
        some (s.sent ++ if r.buffer = [] then [] else [⟨pathname, r.buffer⟩])
      else none
    | none => none
  | _ => none

section Runs

variable (pathname : String) (streamFromStart : Bool) (fs₀ : FileSystem)

/-- The epoch the step `a` from `s` leaves the goroutine in: a new one from the start of the
file after a stat that sees a truncation, the first one at `New`'s open, and otherwise the
same. -/
def EpochStart.next (s : State) (a : Action) (e : EpochStart) : EpochStart :=
  match s.truncationSeen pathname a, s.openOffset streamFromStart a with
  | some prev, _ => ⟨prev, 0⟩
  | none, some start => ⟨[], start⟩
  | none, none => e

/-- The states reachable from `New` on `fs₀` by such actions, none of which outruns a
truncation, with where the goroutine's epoch begins as a ghost. -/
inductive TruncatingRun : State → EpochStart → Prop where
  | init : TruncatingRun (State.init fs₀) ⟨[], 0⟩
  | step {s s' : State} {e : EpochStart} {a : Action} : TruncatingRun s e → a.AppendTruncate →
      ¬OutrunsTruncation s a → step pathname streamFromStart s a = some s' →
      TruncatingRun s' (EpochStart.next pathname streamFromStart s a e)

end Runs

/-- Only the stat that sees a truncation and `New`'s open move the ghost. -/
theorem EpochStart.next_of_ne {pathname : String} {streamFromStart : Bool} {s : State}
    (a : Action) (e : EpochStart) (notNew : a ≠ .runNew) (notAdvance : ∀ i, a ≠ .advance i) :
    EpochStart.next pathname streamFromStart s a e = e := by
  cases a <;> simp_all [EpochStart.next, State.truncationSeen, State.openOffset]

/-- A goroutine's step moves the ghost only when it is the stat that sees a truncation. -/
theorem EpochStart.next_advance {pathname : String} {streamFromStart : Bool} {s : State}
    {i : Nat} {r : Reader} (at_i : s.readers[i]? = some r) (e : EpochStart) :
    EpochStart.next pathname streamFromStart s (.advance i) e =
      if r.pc = .eofStat ∧ s.fs.bound = some r.fd ∧ (s.fs.contents r.fd).length < r.offset then
        ⟨s.sent ++ if r.buffer = [] then [] else [⟨pathname, r.buffer⟩], 0⟩
      else e := by
  simp only [EpochStart.next, State.truncationSeen, at_i, State.openOffset]
  split_ifs <;> rfl

/-! ### How the goroutine reads -/

theorem flushPartial_buffer (pathname : String) (out : Output) :
    (flushPartial pathname out).buffer = [] := by
  unfold flushPartial
  split_ifs with empty
  exacts [empty, rfl]

theorem flushPartial_sent (pathname : String) (out : Output) :
    (flushPartial pathname out).sent =
      out.sent ++ if out.buffer = [] then [] else [⟨pathname, out.buffer⟩] := by
  unfold flushPartial sendLine
  split_ifs <;> simp

/-- The goroutine has read its file from `start`, no further than its end, and has sent, after
the lines `prev` sent before, what `Reader.streamedFrom` says. It reads from the start of its
file, unless nothing was sent before it and it started at `New`'s offset. -/
structure Epoch (pathname : String) (streamFromStart : Bool) (fs : FileSystem)
    (sent : List LogLine) (r : Reader) (prev : List LogLine) (start : Nat) : Prop where
  fresh : start = 0 ∨ prev = [] ∧ streamFromStart = false
  within : r.offset ≤ (fs.contents r.fd).length
  started : start ≤ r.offset
  sent : ⟨sent, r.buffer⟩ = r.streamedFrom pathname fs prev start

/-- The goroutine reads the file the pathname names, or named before it was removed; and it is
in the epoch `e`, or a truncation it has not seen is pending: its offset is past the end of its
file, which stays empty while it runs. -/
structure Reading (pathname : String) (streamFromStart : Bool) (fs : FileSystem)
    (sent : List LogLine) (r : Reader) (e : EpochStart) : Prop where
  same : r.fi.ino = r.fd
  bound : fs.bound = none ∨ fs.bound = some r.fd
  notReopen : ∀ fi, r.pc ≠ .reopen fi
  mode : Epoch pathname streamFromStart fs sent r e.prev e.start ∨
    0 < r.offset ∧ (r.pc ≠ .exited → fs.contents r.fd = [])

namespace Reading

variable {pathname : String} {streamFromStart : Bool} {fs fs' : FileSystem}
  {sent : List LogLine} {r : Reader} {e : EpochStart}

/-- The goroutine `New` starts, at the start of the file or at its end, in its first epoch. -/
theorem opened {ino : Nat} {fi : FileInfo} (same : fi.ino = ino) (bound : fs.bound = some ino) :
    Reading pathname streamFromStart fs []
      ⟨ino, if streamFromStart then 0 else (fs.contents ino).length, fi, [], .read⟩
      ⟨[], if streamFromStart then 0 else (fs.contents ino).length⟩ := by
  refine ⟨same, .inr bound, nofun, .inl ⟨?_, by split <;> simp, le_rfl, ?_⟩⟩
  · cases streamFromStart
    · exact .inr ⟨rfl, rfl⟩
    · exact .inl rfl
  · rw [Reader.streamedFrom_of_running (by simp), List.drop_eq_nil_of_le (List.length_take_le _ _)]
    exact (lineSegments_nil pathname (List.not_mem_nil _) (List.not_mem_nil _)).symm

/-- Other processes extend the files or remove the pathname, and do not write to the file of a
running goroutine that has a truncation pending. -/
theorem grow (reading : Reading pathname streamFromStart fs sent r e)
    (grows : ∀ x, ∃ extra, fs'.contents x = fs.contents x ++ extra)
    (bound : fs'.bound = none ∨ fs'.bound = fs.bound)
    (kept : r.pc ≠ .exited → (fs.contents r.fd).length < r.offset →
      fs'.contents r.fd = fs.contents r.fd) :
    Reading pathname streamFromStart fs' sent r e := by
  refine ⟨reading.same, ?_, reading.notReopen, ?_⟩
  · rcases bound with none | same
    · exact .inl none
    · exact same ▸ reading.bound
  obtain ⟨extra, grown⟩ := grows r.fd
  rcases reading.mode with epoch | ⟨past, empty⟩
  · have read : (fs'.contents r.fd).take r.offset = (fs.contents r.fd).take r.offset := by
      rw [grown, List.take_append_of_le_length epoch.within]
    refine .inl ⟨epoch.fresh, ?_, epoch.started, ?_⟩
    · rw [grown, List.length_append]
      exact Nat.le_add_right_of_le epoch.within
    · rw [epoch.sent, Reader.streamedFrom_congr read]
  · refine .inr ⟨past, fun running => ?_⟩
    rw [kept running (by rw [empty running]; exact past), empty running]

/-- The file the pathname names, the goroutine's, is truncated: a goroutine that has read
nothing of it stays in its epoch; one that has is left with the truncation pending. -/
theorem truncate (reading : Reading pathname streamFromStart fs sent r e)
    (truncated : fs.truncate = some fs') : Reading pathname streamFromStart fs' sent r e := by
  obtain ⟨ino, bound, rfl⟩ := Option.map_eq_some'.mp truncated
  obtain rfl : ino = r.fd := by
    rcases reading.bound with none | same
    · simp [bound] at none
    · simpa [bound] using same
  have emptied : (FileSystem.contents { fs with inodes := fs.inodes.set r.fd [] } r.fd) = [] := by
    simp only [FileSystem.contents, List.getD_eq_getElem?_getD, List.getElem?_set, if_true]
    split <;> rfl
  refine ⟨reading.same, reading.bound, reading.notReopen, ?_⟩
  rcases Nat.eq_zero_or_pos r.offset with unread | past
  · rcases reading.mode with epoch | ⟨past, -⟩
    · have read : (FileSystem.contents { fs with inodes := fs.inodes.set r.fd [] } r.fd).take
          r.offset = (fs.contents r.fd).take r.offset := by
        rw [unread, List.take_zero, List.take_zero]
      refine .inl ⟨epoch.fresh, by rw [unread]; exact Nat.zero_le _, epoch.started, ?_⟩
      rw [epoch.sent, Reader.streamedFrom_congr read]
    · exact absurd unread (Nat.pos_iff_ne_zero.mp past)
  · exact .inr ⟨past, fun _ => emptied⟩

/-- A step of the goroutine that neither reads nor returns. -/
theorem move (reading : Reading pathname streamFromStart fs sent r e) (running : r.pc ≠ .exited)
    (pc : Pc) (moving : pc ≠ .exited) (notReopen : ∀ fi, pc ≠ .reopen fi) :
    Reading pathname streamFromStart fs sent { r with pc } e := by
  refine ⟨reading.same, reading.bound, notReopen, ?_⟩
  rcases reading.mode with epoch | ⟨past, empty⟩
  · exact .inl ⟨epoch.fresh, epoch.within, epoch.started,
      epoch.sent.trans (Reader.streamedFrom_move running moving).symm⟩
  · exact .inr ⟨past, fun _ => empty running⟩

/-- Completing the stream flushes the partial line. -/
theorem complete (reading : Reading pathname streamFromStart fs sent r e)
    (running : r.pc ≠ .exited) :
    Reading pathname streamFromStart fs (flushPartial pathname ⟨sent, r.buffer⟩).sent
      { r with buffer := (flushPartial pathname ⟨sent, r.buffer⟩).buffer, pc := .exited } e := by
  refine ⟨reading.same, reading.bound, nofun, ?_⟩
  rcases reading.mode with epoch | ⟨past, -⟩
  · exact .inl ⟨epoch.fresh, epoch.within, epoch.started,
      Reader.streamedFrom_complete running epoch.sent _⟩
  · exact .inr ⟨past, fun exited => absurd rfl exited⟩

/-- A read that returns bytes happens in an epoch, and continues the segmentation of what was
read before. -/
theorem read (reading : Reading pathname streamFromStart fs sent r e) (ascii : fs.Ascii)
    (running : r.pc ≠ .exited) (nonempty : fs.read r.fd r.offset ≠ []) (pc : Pc)
    (moving : pc ≠ .exited) (notReopen : ∀ fi, pc ≠ .reopen fi) :
    Reading pathname streamFromStart fs
      (decodeAndSend pathname (fs.read r.fd r.offset).length (fs.read r.fd r.offset)
        ⟨sent, r.buffer⟩).sent
      { r with offset := r.offset + (fs.read r.fd r.offset).length,
               buffer := (decodeAndSend pathname (fs.read r.fd r.offset).length
                 (fs.read r.fd r.offset) ⟨sent, r.buffer⟩).buffer, pc } e := by
  refine ⟨reading.same, reading.bound, notReopen, ?_⟩
  rcases reading.mode with epoch | ⟨-, empty⟩
  · have length : (fs.read r.fd r.offset).length ≤ (fs.contents r.fd).length - r.offset := by
      simp only [FileSystem.read, List.length_take, List.length_drop]
      omega
    refine .inl ⟨epoch.fresh, by have := epoch.within; dsimp only; omega,
      Nat.le_add_right_of_le epoch.started, ?_⟩
    exact Reader.streamedFrom_read ascii running moving epoch.started epoch.within epoch.sent _
  · simp [FileSystem.read, empty running] at nonempty

/-- The stat that sees the truncation: the partial line is sent, and a new epoch starts at the
start of the file, after the lines sent before and the partial line. -/
theorem seek (reading : Reading pathname streamFromStart fs sent r e) :
    Reading pathname streamFromStart fs (flushPartial pathname ⟨sent, r.buffer⟩).sent
      { r with offset := 0, buffer := (flushPartial pathname ⟨sent, r.buffer⟩).buffer,
               pc := .read }
      ⟨sent ++ if r.buffer = [] then [] else [⟨pathname, r.buffer⟩], 0⟩ := by
  refine ⟨reading.same, reading.bound, nofun, .inl ⟨.inl rfl, Nat.zero_le _, le_rfl, ?_⟩⟩
  rw [Reader.streamedFrom_of_running (by simp), flushPartial_buffer, flushPartial_sent]
  simp only [List.take_zero, List.drop_nil]
  exact (lineSegments_nil pathname (List.not_mem_nil _) (List.not_mem_nil _)).symm

/-- A step of the one goroutine keeps the files and `New` as they were, and keeps the
goroutine reading, in a new epoch after the stat that sees a truncation. -/
theorem advance {s s' : State} (reading : Reading pathname streamFromStart s.fs s.sent r e)
    (ascii : s.fs.Ascii) (single : s.readers = [r]) (advanced : s.advance pathname 0 r = some s') :
    s'.fs = s.fs ∧ s'.newPc = s.newPc ∧ ∃ r', s'.readers = [r'] ∧
      Reading pathname streamFromStart s'.fs s'.sent r'
        (EpochStart.next pathname streamFromStart s (.advance 0) e) := by
  have same : ¬(r.fd ≠ r.fi.ino) := fun differ => differ reading.same.symm
  have at_0 : s.readers[0]? = some r := by simp [single]
  rw [EpochStart.next_advance at_0]
  by_cases seen :
      r.pc = .eofStat ∧ s.fs.bound = some r.fd ∧ (s.fs.contents r.fd).length < r.offset
  · rw [if_pos seen]
    obtain ⟨pc, bound, short⟩ := seen
    simp only [State.advance, pc, Option.some.injEq] at advanced
    subst advanced
    dsimp only [State.eofStatStep]
    simp only [FileSystem.stat, bound, Option.map_some', if_neg same]
    rw [if_pos short]
    exact ⟨rfl, rfl, _, by simp [single], reading.seek⟩
  rw [if_neg seen]
  cases pc : r.pc with
  | exited => simp [State.advance, pc] at advanced
  | reopen fi => exact absurd pc (reading.notReopen fi)
  | wait =>
    simp only [State.advance, pc, Option.some.injEq] at advanced
    subst advanced
    exact ⟨rfl, rfl, _, by simp [single], reading.move (by simp [pc]) .read nofun nofun⟩
  | read =>
    simp only [State.advance, pc, Option.some.injEq] at advanced
    subst advanced
    dsimp only [State.readStep]
    split_ifs with empty
    · exact ⟨rfl, rfl, _, by simp [single], reading.move (by simp [pc]) .eofStat nofun nofun⟩
    · exact ⟨rfl, rfl, _, by simp [single],
        reading.read ascii (by simp [pc]) empty .sleep nofun nofun⟩
    · exact ⟨rfl, rfl, _, by simp [single],
        reading.read ascii (by simp [pc]) empty .read nofun nofun⟩
  | eofStat =>
    simp only [State.advance, pc, Option.some.injEq] at advanced
    subst advanced
    dsimp only [State.eofStatStep]
    cases bound : s.fs.bound with
    | none =>
      simp only [FileSystem.stat, bound, Option.map_none']
      exact ⟨rfl, rfl, _, by simp [State.complete, single], reading.complete (by simp [pc])⟩
    | some ino =>
      obtain rfl : ino = r.fd := by
        rcases reading.bound with none | same
        · simp [bound] at none
        · simpa [bound] using same
      simp only [FileSystem.stat, bound, Option.map_some', if_neg same]
      split_ifs with short
      · exact absurd ⟨pc, bound, short⟩ seen
      · exact ⟨rfl, rfl, _, by simp [single], reading.move (by simp [pc]) .sleep nofun nofun⟩
  | sleep =>
    simp only [State.advance, pc, Option.some.injEq] at advanced
    subst advanced
    dsimp only [State.sleepStep]
    split_ifs
    · exact ⟨rfl, rfl, _, by simp [State.complete, single], reading.complete (by simp [pc])⟩
    · exact ⟨rfl, rfl, _, by simp [single], reading.move (by simp [pc]) .wait nofun nofun⟩

end Reading

/-! ### Every truncating run -/

/-- What every state of a truncating run keeps, where `e` is where the goroutine's epoch
begins: the files are ASCII; before `New` returns nothing runs and nothing is sent; `New`
opens the file it stated, unless the pathname was removed; and once `New` has returned, one
goroutine runs, reading as `Reading` says. -/
structure TruncationInv (pathname : String) (streamFromStart : Bool) (e : EpochStart)
    (s : State) : Prop where
  ascii : s.fs.Ascii
  idle : s.newPc ≠ .returned → s.readers = [] ∧ s.sent = []
  opening : ∀ fi, s.newPc = .opening fi → s.fs.bound = none ∨ s.fs.bound = some fi.ino
  running : s.newPc = .returned →
    ∃ r, s.readers = [r] ∧ Reading pathname streamFromStart s.fs s.sent r e

namespace TruncationInv

variable {pathname : String} {streamFromStart : Bool} {e : EpochStart} {s s' : State}

theorem init {fs₀ : FileSystem} (ascii : fs₀.Ascii) :
    TruncationInv pathname streamFromStart e (State.init fs₀) :=
  ⟨ascii, fun _ => ⟨rfl, rfl⟩, fun _ => nofun, nofun⟩

/-- Another process changes the files, and the goroutine keeps reading. -/
theorem files (inv : TruncationInv pathname streamFromStart e s) {fs' : FileSystem}
    (ascii : fs'.Ascii) (bound : fs'.bound = none ∨ fs'.bound = s.fs.bound)
    (reads : ∀ r ∈ s.readers, Reading pathname streamFromStart s.fs s.sent r e →
      Reading pathname streamFromStart fs' s.sent r e) :
    TruncationInv pathname streamFromStart e { s with fs := fs' } where
  ascii := ascii
  idle := inv.idle
  opening fi opening := by
    rcases bound with none | same
    · exact .inl none
    · exact same ▸ inv.opening fi opening
  running returned := by
    obtain ⟨r, single, reading⟩ := inv.running returned
    exact ⟨r, single, reads r (by simp [single]) reading⟩

/-- `New`'s steps: the stat, and the open that starts the goroutine in its first epoch. -/
theorem newStep (inv : TruncationInv pathname streamFromStart e s)
    (stepped : s.newStep streamFromStart = some s') :
    TruncationInv pathname streamFromStart
      (EpochStart.next pathname streamFromStart s .runNew e) s' := by
  rcases State.newStep_cases stepped with ⟨stat, ghost, rfl⟩ |
      ⟨fi, ino, opening, opened, ghost, rfl⟩ | ⟨fi, opening, -, -, rfl⟩
  · have idle := inv.idle (by rw [stat]; nofun)
    rw [show EpochStart.next pathname streamFromStart s .runNew e = e by
      simp [EpochStart.next, State.truncationSeen, ghost]]
    refine ⟨inv.ascii, fun _ => idle, fun fi opening => ?_, fun returned => ?_⟩
    · cases bound : s.fs.bound with
      | none => exact .inl rfl
      | some ino =>
        simp only [FileSystem.stat, bound, Option.map_some', Option.getD_some,
          NewPc.opening.injEq] at opening
        exact .inr (by rw [← opening])
    · cases bound : s.fs.bound <;> simp [FileSystem.stat, bound] at returned
  · have idle := inv.idle (by rw [opening]; nofun)
    have bound : s.fs.bound = some ino := opened
    obtain rfl : ino = fi.ino := by
      rcases inv.opening fi opening with none | same
      · simp [bound] at none
      · simpa [bound] using same
    rw [show EpochStart.next pathname streamFromStart s .runNew e =
        ⟨[], if streamFromStart then 0 else (s.fs.contents fi.ino).length⟩ by
      simp [EpochStart.next, State.truncationSeen, ghost]]
    refine ⟨inv.ascii, fun notReturned => absurd rfl notReturned,
      fun _ opening => (by cases opening), fun _ => ⟨_, by rw [idle.1]; rfl, ?_⟩⟩
    rw [idle.2]
    exact Reading.opened rfl bound
  · have idle := inv.idle (by rw [opening]; nofun)
    exact ⟨inv.ascii, fun _ => idle, fun _ opening => (by cases opening), nofun⟩

/-- Every action of a truncating world that outruns no truncation keeps the invariant, with the
ghost moved on. -/
theorem step (inv : TruncationInv pathname streamFromStart e s) {a : Action}
    (allowed : a.AppendTruncate) (notOutrun : ¬OutrunsTruncation s a)
    (stepped : step pathname streamFromStart s a = some s') :
    TruncationInv pathname streamFromStart (EpochStart.next pathname streamFromStart s a e) s' := by
  cases a with
  | append data =>
    rw [EpochStart.next_of_ne (.append data) e nofun nofun]
    obtain ⟨fs', appended, rfl⟩ := Option.map_eq_some'.mp stepped
    have bound : fs'.bound = s.fs.bound := by
      obtain ⟨_, -, rfl⟩ := Option.map_eq_some'.mp appended
      rfl
    exact inv.files (inv.ascii.append allowed appended) (.inr bound) fun r mem reading =>
      reading.grow (fun x => (FileSystem.contents_append appended x).imp fun _ grown => grown.1)
        (.inr bound) fun running past => absurd ⟨r, mem, running, past⟩ notOutrun
  | truncate =>
    rw [EpochStart.next_of_ne .truncate e nofun nofun]
    obtain ⟨fs', truncated, rfl⟩ := Option.map_eq_some'.mp stepped
    have bound : fs'.bound = s.fs.bound := by
      obtain ⟨_, -, rfl⟩ := Option.map_eq_some'.mp truncated
      rfl
    have ascii : fs'.Ascii := by
      obtain ⟨ino, -, rfl⟩ := Option.map_eq_some'.mp truncated
      intro l mem b inL
      rcases List.mem_or_eq_of_mem_set mem with old | rfl
      · exact inv.ascii l old b inL
      · cases inL
    exact inv.files ascii (.inr bound) fun _ _ reading => reading.truncate truncated
  | delete =>
    rw [EpochStart.next_of_ne .delete e nofun nofun]
    obtain ⟨fs', deleted, rfl⟩ := Option.map_eq_some'.mp stepped
    obtain ⟨_, -, rfl⟩ := Option.map_eq_some'.mp deleted
    exact inv.files inv.ascii (.inl rfl) fun _ _ reading =>
      reading.grow (fun _ => ⟨[], (List.append_nil _).symm⟩) (.inl rfl) fun _ _ => rfl
  | stop | cancel =>
    cases stepped
    exact ⟨inv.ascii, inv.idle, inv.opening, inv.running⟩
  | rotate | readStale => exact absurd allowed id
  | runNew => exact inv.newStep stepped
  | advance i =>
    simp only [Tailer.step, Option.bind_eq_some] at stepped
    obtain ⟨r, at_i, advanced⟩ := stepped
    by_cases returned : s.newPc = .returned
    · obtain ⟨r₀, single, reading⟩ := inv.running returned
      obtain ⟨rfl, rfl⟩ : i = 0 ∧ r = r₀ := by
        rw [single] at at_i
        cases i with
        | zero => exact ⟨rfl, by simpa using at_i.symm⟩
        | succ i => simp at at_i
      obtain ⟨fs, newPc, r', readers, reading'⟩ := reading.advance inv.ascii single advanced
      refine ⟨fs ▸ inv.ascii, fun notReturned => absurd (newPc.trans returned) notReturned,
        fun fi opening => ?_, fun _ => ⟨r', readers, reading'⟩⟩
      rw [newPc, returned] at opening
      cases opening
    · simp [(inv.idle returned).1] at at_i

/-- Every truncating run keeps the invariant. -/
theorem of_run {fs₀ : FileSystem} (ascii : fs₀.Ascii)
    (reach : TruncatingRun pathname streamFromStart fs₀ s e) :
    TruncationInv pathname streamFromStart e s := by
  induction reach with
  | init => exact init ascii
  | step _ allowed notOutrun stepped inv => exact inv.step allowed notOutrun stepped

end TruncationInv

variable {pathname : String} {streamFromStart : Bool}

end SfProcessor.Tailer
