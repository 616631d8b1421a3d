import SfProcessor.Tailer.ReadLoop

/-!
# An append-only log is streamed line by line

The file stream's reads are cut into lines by `decodeAndSend`, a read at a time. When the log
is only ever appended to, the reads of its one goroutine cover the file without gap or
overlap, so that what is sent is what `lineSegments` cuts from the bytes read.

## Main result

`appendOnly_sent_eq_lineSegments`: in every run from `New` in which the log is only appended
to, in ASCII, and may be removed but is never rotated or truncated, and no read fails with
`ESTALE`, either no goroutine has started and nothing is sent, or one goroutine has, and the
lines sent, followed by its partial buffer, are the line segments of the bytes it has read
since the offset `New`'s open gave it (`openedOffset`, a ghost of the run); once it has
returned, the partial line has been sent as well. No byte read is lost, and none is sent
twice. Rotation and truncation break this
(`rotation_drops_partial`, `stream_sends_line_twice`).

## Proof strategy

`Tracks` says what the goroutine has sent, and `AppendOnlyInv` what the whole state keeps,
with the offset of `New`'s open as a ghost that the open sets and no other step changes. A
write only extends the files, so the bytes below the goroutine's offset stay as they were
(`Tracks.grow`). A read continues the segmentation of what was read before
(`Tracks.read`, by `decodeAndSend_lineSegments` and `lineSegments_append_of_valid`); the
stat at the end of the file finds the same file, no shorter than the offset, or completes the
stream, which flushes the partial line (`Tracks.complete`).
-/

namespace SfProcessor.Tailer

/-! ### Append-only runs -/

/-- Every byte of every file is ASCII. -/
def FileSystem.Ascii (fs : FileSystem) : Prop := ∀ l ∈ fs.inodes, ∀ b ∈ l, b.toNat ≤ 0x7F

instance (fs : FileSystem) : Decidable fs.Ascii :=
  inferInstanceAs (Decidable (∀ l ∈ fs.inodes, ∀ b ∈ l, b.toNat ≤ 0x7F))

/-- An action of a world in which the log is only appended to, in ASCII: it may be removed,
but it is never rotated or truncated, and no read fails with `ESTALE`. -/
def Action.AppendOnly : Action → Prop
  | .append data => ∀ b ∈ data, b.toNat ≤ 0x7F
  | .rotate | .truncate | .readStale _ => False
  | .delete | .stop | .cancel | .runNew | .advance _ => True

instance (a : Action) : Decidable a.AppendOnly :=
  match a with
  | .append data => inferInstanceAs (Decidable (∀ b ∈ data, b.toNat ≤ 0x7F))
  | .rotate | .truncate | .readStale _ => isFalse nofun
  | .delete | .stop | .cancel | .runNew | .advance _ => isTrue trivial

namespace FileSystem

variable {fs fs' : FileSystem}

theorem Ascii.contents (ascii : fs.Ascii) (ino : Nat) : ∀ b ∈ fs.contents ino, b.toNat ≤ 0x7F := by
  intro b mem
  rw [FileSystem.contents, List.getD_eq_getElem?_getD] at mem
  cases found : fs.inodes[ino]? with
  | none => simp [found] at mem
  | some l =>
    exact ascii l (List.mem_iff_getElem?.mpr ⟨ino, found⟩) b (by simpa [found] using mem)

/-- An append extends each file, and only with the bytes appended. -/
theorem contents_append {data : List UInt8} (appended : fs.append data = some fs') (x : Nat) :
    ∃ extra, fs'.contents x = fs.contents x ++ extra ∧ ∀ b ∈ extra, b ∈ data := by
  obtain ⟨ino, -, rfl⟩ := Option.map_eq_some'.mp appended
  simp only [FileSystem.contents, List.getD_eq_getElem?_getD, List.getElem?_set]
  split_ifs with same inside
  · subst same
    exact ⟨data, rfl, fun _ => id⟩
  · subst same
    exact ⟨[], by simp [List.getElem?_eq_none (Nat.le_of_not_lt inside)], nofun⟩
  · exact ⟨[], by simp, nofun⟩

theorem Ascii.append (ascii : fs.Ascii) {data : List UInt8} (asciiData : ∀ b ∈ data, b.toNat ≤ 0x7F)
    (appended : fs.append data = some fs') : fs'.Ascii := by
  obtain ⟨ino, -, rfl⟩ := Option.map_eq_some'.mp appended
  intro l mem b inL
  rcases List.mem_or_eq_of_mem_set mem with old | rfl
  · exact ascii l old b inL
  · rcases List.mem_append.mp inL with old | new
    · exact ascii.contents ino b old
    · exact asciiData b new

end FileSystem

/-! ### What the goroutine has sent -/

/-- The bytes a read at `offset` returns continue the bytes below `offset`. -/
theorem FileSystem.drop_take_append_read (fs : FileSystem) (ino : Nat) {start offset : Nat}
    (started : start ≤ offset) (within : offset ≤ (fs.contents ino).length) :
    ((fs.contents ino).take offset).drop start ++ fs.read ino offset =
      ((fs.contents ino).take (offset + (fs.read ino offset).length)).drop start := by
  have first : ((fs.contents ino).drop offset).take (fs.read ino offset).length =
      fs.read ino offset :=
    (List.prefix_iff_eq_take.mp (List.take_prefix _ _)).symm
  rw [List.take_add, first, List.drop_append_of_le_length (by
    rw [List.length_take]; exact Nat.le_min.mpr ⟨started, started.trans within⟩)]

/-- A read of valid UTF-8 continues the segmentation of the valid UTF-8 read before, whatever
lines were sent before that. -/
theorem decodeAndSend_continues {pathname : String} {before b : List UInt8}
    (validBefore : ValidUtf8 before) (validB : ValidUtf8 b) {prev : List LogLine} {out : Output}
    (tracked : out = lineSegments pathname ⟨prev, []⟩ before) :
    decodeAndSend pathname b.length b out = lineSegments pathname ⟨prev, []⟩ (before ++ b) := by
  obtain ⟨-, noNewline, noReturn⟩ :=
    @decodeAndSend_lineSegments pathname before validBefore ⟨prev, []⟩ (List.not_mem_nil _)
      (List.not_mem_nil _)
  rw [tracked, (@decodeAndSend_lineSegments pathname b validB _ noNewline noReturn).1,
    lineSegments_append_of_valid pathname validBefore b (List.not_mem_nil _) (List.not_mem_nil _)]

/-- What goroutine `r` should have sent and kept since it began reading its file at `start`,
after the lines `prev` sent before: the line segments of the bytes it has read since; once it
has returned, its partial line too. -/
def Reader.streamedFrom (r : Reader) (pathname : String) (fs : FileSystem)
    (prev : List LogLine) (start : Nat) : Output :=
  let out := lineSegments pathname ⟨prev, []⟩ (((fs.contents r.fd).take r.offset).drop start)
  if r.pc = .exited then flushPartial pathname out else out

namespace Reader

variable {pathname : String} {fs fs' : FileSystem} {prev sent : List LogLine} {start : Nat}
  {r : Reader}

theorem streamedFrom_of_running (running : r.pc ≠ .exited) :
    r.streamedFrom pathname fs prev start =
      lineSegments pathname ⟨prev, []⟩ (((fs.contents r.fd).take r.offset).drop start) := by
  simp [streamedFrom, running]

/-- Only the bytes below the goroutine's offset count. -/
theorem streamedFrom_congr
    (same : (fs'.contents r.fd).take r.offset = (fs.contents r.fd).take r.offset) :
    r.streamedFrom pathname fs' prev start = r.streamedFrom pathname fs prev start := by
  simp only [streamedFrom, same]

/-- A step of the goroutine that neither reads nor returns. -/
theorem streamedFrom_move (running : r.pc ≠ .exited) {pc : Pc} (moving : pc ≠ .exited) :
    { r with pc }.streamedFrom pathname fs prev start = r.streamedFrom pathname fs prev start := by
  rw [streamedFrom_of_running running, streamedFrom_of_running moving]

/-- Completing the stream flushes the partial line. -/
theorem streamedFrom_complete (running : r.pc ≠ .exited)
    (tracked : ⟨sent, r.buffer⟩ = r.streamedFrom pathname fs prev start) (buffer : List UInt8) :
    flushPartial pathname ⟨sent, r.buffer⟩ =
      { r with buffer, pc := .exited }.streamedFrom pathname fs prev start := by
  rw [tracked, streamedFrom_of_running running]
  simp [streamedFrom]

/-- A read of ASCII bytes continues the segmentation of the ASCII bytes read before. -/
theorem streamedFrom_read (ascii : fs.Ascii) (running : r.pc ≠ .exited) {pc : Pc}
    (moving : pc ≠ .exited) (started : start ≤ r.offset)
    (within : r.offset ≤ (fs.contents r.fd).length)
    (tracked : ⟨sent, r.buffer⟩ = r.streamedFrom pathname fs prev start) (buffer : List UInt8) :
    decodeAndSend pathname (fs.read r.fd r.offset).length (fs.read r.fd r.offset)
        ⟨sent, r.buffer⟩ =
      { r with offset := r.offset + (fs.read r.fd r.offset).length, buffer, pc }.streamedFrom
        pathname fs prev start := by
  have validBefore : ValidUtf8 (((fs.contents r.fd).take r.offset).drop start) := .ascii _
    fun x mem => ascii.contents r.fd x (List.mem_of_mem_take (List.mem_of_mem_drop mem))
  have validB : ValidUtf8 (fs.read r.fd r.offset) := .ascii _ fun x mem =>
    ascii.contents r.fd x (List.mem_of_mem_drop (List.mem_of_mem_take mem))
  rw [streamedFrom_of_running moving]
  dsimp only
  rw [← FileSystem.drop_take_append_read fs r.fd started within]
  exact decodeAndSend_continues validBefore validB (tracked.trans (streamedFrom_of_running running))

end Reader

/-- What goroutine `r`, started at offset `start`, should have sent: the line segments of the
bytes it has read; once it has returned, the last, partial line too. -/
def Reader.streamed (pathname : String) (fs : FileSystem) (start : Nat) (r : Reader) : Output :=
  r.streamedFrom pathname fs [] start

/-- Goroutine `r`, started at offset `start`, reads the file the pathname names, or named
before it was removed, no further than its end, and has sent `sent` and kept its partial
buffer as `Reader.streamed` says. -/
structure Tracks (pathname : String) (streamFromStart : Bool) (fs : FileSystem)
    (sent : List LogLine) (r : Reader) (start : Nat) : Prop where
  same : r.fi.ino = r.fd
  bound : fs.bound = none ∨ fs.bound = some r.fd
  notReopen : ∀ fi, r.pc ≠ .reopen fi
  within : r.offset ≤ (fs.contents r.fd).length
  started : start ≤ r.offset
  fromStart : streamFromStart = true → start = 0
  sent : ⟨sent, r.buffer⟩ = r.streamed pathname fs start

namespace Tracks

variable {pathname : String} {streamFromStart : Bool} {fs : FileSystem} {sent : List LogLine}
  {r : Reader} {start : Nat}

/-- A goroutine that has just started, with nothing read and nothing sent. -/
theorem opened (same : r.fi.ino = r.fd) (bound : fs.bound = some r.fd) (reading : r.pc = .read)
    (empty : r.buffer = []) (within : r.offset ≤ (fs.contents r.fd).length)
    (fromStart : streamFromStart = true → r.offset = 0) :
    Tracks pathname streamFromStart fs [] r r.offset := by
  refine ⟨same, .inr bound, by simp [reading], within, le_rfl, fromStart, ?_⟩
  rw [empty, Reader.streamed, Reader.streamedFrom_of_running (by simp [reading]),
    List.drop_eq_nil_of_le (List.length_take_le _ _)]
  exact (@lineSegments_nil pathname ⟨[], []⟩ (List.not_mem_nil _) (List.not_mem_nil _)).symm

/-- The goroutine keeps tracking while the files only grow and the pathname stays bound to its
file or is removed. -/
theorem grow (tracks : Tracks pathname streamFromStart fs sent r start) {fs' : FileSystem}
    (grows : ∀ x, ∃ extra, fs'.contents x = fs.contents x ++ extra)
    (bound : fs'.bound = none ∨ fs'.bound = fs.bound) :
    Tracks pathname streamFromStart fs' sent r start := by
  obtain ⟨extra, grown⟩ := grows r.fd
  have read : (fs'.contents r.fd).take r.offset = (fs.contents r.fd).take r.offset := by
    rw [grown, List.take_append_of_le_length tracks.within]
  refine ⟨tracks.same, ?_, tracks.notReopen, ?_, tracks.started, tracks.fromStart,
    tracks.sent.trans (Reader.streamedFrom_congr read).symm⟩
  · rcases bound with none | same
    · exact .inl none
    · rw [same]; exact tracks.bound
  · rw [grown, List.length_append]; exact Nat.le_add_right_of_le tracks.within

/-- A step of the goroutine that neither reads nor returns. -/
theorem move (tracks : Tracks pathname streamFromStart fs sent r start) (running : r.pc ≠ .exited)
    (pc : Pc) (moving : pc ≠ .exited) (notReopen : ∀ fi, pc ≠ .reopen fi) :
    Tracks pathname streamFromStart fs sent { r with pc } start :=
  ⟨tracks.same, tracks.bound, notReopen, tracks.within, tracks.started, tracks.fromStart,
    tracks.sent.trans (Reader.streamedFrom_move running moving).symm⟩

/-- Completing the stream flushes the partial line. -/
theorem complete (tracks : Tracks pathname streamFromStart fs sent r start)
    (running : r.pc ≠ .exited) :
    Tracks pathname streamFromStart fs (flushPartial pathname ⟨sent, r.buffer⟩).sent
      { r with buffer := (flushPartial pathname ⟨sent, r.buffer⟩).buffer, pc := .exited } start :=
  ⟨tracks.same, tracks.bound, nofun, tracks.within, tracks.started, tracks.fromStart,
    Reader.streamedFrom_complete running tracks.sent _⟩

/-- A read that returns bytes continues the segmentation of what was read before. -/
theorem read (tracks : Tracks pathname streamFromStart fs sent r start) (ascii : fs.Ascii)
    (running : r.pc ≠ .exited) (pc : Pc) (moving : pc ≠ .exited)
    (notReopen : ∀ fi, pc ≠ .reopen fi) :
    Tracks pathname streamFromStart fs
      (decodeAndSend pathname (fs.read r.fd r.offset).length (fs.read r.fd r.offset)
        ⟨sent, r.buffer⟩).sent
      { r with offset := r.offset + (fs.read r.fd r.offset).length,
               buffer := (decodeAndSend pathname (fs.read r.fd r.offset).length
                 (fs.read r.fd r.offset) ⟨sent, r.buffer⟩).buffer, pc } start := by
  have length : (fs.read r.fd r.offset).length ≤ (fs.contents r.fd).length - r.offset := by
    simp only [FileSystem.read, List.length_take, List.length_drop]
    omega
  refine ⟨tracks.same, tracks.bound, notReopen, by have := tracks.within; dsimp only; omega,
    Nat.le_add_right_of_le tracks.started, tracks.fromStart, ?_⟩
  exact Reader.streamedFrom_read ascii running moving tracks.started tracks.within tracks.sent _

/-- A step of the one goroutine keeps the files and `New` as they were, and keeps the goroutine
tracking. -/
theorem advance {s s' : State} (tracks : Tracks pathname streamFromStart s.fs s.sent r start)
    (ascii : s.fs.Ascii) (single : s.readers = [r]) (advanced : s.advance pathname 0 r = some s') :
    s'.fs = s.fs ∧ s'.newPc = s.newPc ∧
      ∃ r', s'.readers = [r'] ∧ Tracks pathname streamFromStart s'.fs s'.sent r' start := by
  cases pc : r.pc with
  | exited => simp [State.advance, pc] at advanced
  | reopen fi => exact absurd pc (tracks.notReopen fi)
  | wait =>
    simp only [State.advance, pc, Option.some.injEq] at advanced
    subst advanced
    exact ⟨rfl, rfl, _, by simp [single], tracks.move (by simp [pc]) .read nofun nofun⟩
  | read =>
    simp only [State.advance, pc, Option.some.injEq] at advanced
    subst advanced
    dsimp only [State.readStep]
    split_ifs
    · exact ⟨rfl, rfl, _, by simp [single], tracks.move (by simp [pc]) .eofStat nofun nofun⟩
    · exact ⟨rfl, rfl, _, by simp [single], tracks.read ascii (by simp [pc]) .sleep nofun nofun⟩
    · exact ⟨rfl, rfl, _, by simp [single], tracks.read ascii (by simp [pc]) .read nofun nofun⟩
  | eofStat =>
    simp only [State.advance, pc, Option.some.injEq] at advanced
    subst advanced
    dsimp only [State.eofStatStep]
    cases bound : s.fs.bound with
    | none =>
      simp only [FileSystem.stat, bound, Option.map_none']
      exact ⟨rfl, rfl, _, by simp [State.complete, single], tracks.complete (by simp [pc])⟩
    | some ino =>
      obtain rfl : ino = r.fd := by
        rcases tracks.bound with none | same
        · simp [bound] at none
        · simpa [bound] using same
      have same : ¬(r.fd ≠ r.fi.ino) := fun differ => differ tracks.same.symm
      have within : ¬(s.fs.contents r.fd).length < r.offset := Nat.not_lt.mpr tracks.within
      simp only [FileSystem.stat, bound, Option.map_some', if_neg same, if_neg within]
      exact ⟨rfl, rfl, _, by simp [single], tracks.move (by simp [pc]) .sleep nofun nofun⟩
  | sleep =>
    simp only [State.advance, pc, Option.some.injEq] at advanced
    subst advanced
    dsimp only [State.sleepStep]
    split_ifs
    · exact ⟨rfl, rfl, _, by simp [State.complete, single], tracks.complete (by simp [pc])⟩
    · exact ⟨rfl, rfl, _, by simp [single], tracks.move (by simp [pc]) .wait nofun nofun⟩

end Tracks

/-! ### Every append-only run -/

/-- What every state of an append-only run keeps, where `opened` is the offset `New`'s open gave
the goroutine, if it has: the files are ASCII; before `New` returns nothing runs, nothing is
sent and nothing is opened; `New` opens the file it stated, unless the pathname was removed; and
once `New` has returned, one goroutine runs and tracks what it read since `opened`. -/
structure AppendOnlyInv (pathname : String) (streamFromStart : Bool) (opened : Option Nat)
    (s : State) : Prop where
  ascii : s.fs.Ascii
  idle : s.newPc ≠ .returned → s.readers = [] ∧ s.sent = [] ∧ opened = none
  opening : ∀ fi, s.newPc = .opening fi → s.fs.bound = none ∨ s.fs.bound = some fi.ino
  running : s.newPc = .returned →
    ∃ r start, opened = some start ∧ s.readers = [r] ∧
      Tracks pathname streamFromStart s.fs s.sent r start

namespace AppendOnlyInv

variable {pathname : String} {streamFromStart : Bool} {opened : Option Nat} {s s' : State}

theorem init {fs₀ : FileSystem} (ascii : fs₀.Ascii) :
    AppendOnlyInv pathname streamFromStart none (State.init fs₀) :=
  ⟨ascii, fun _ => ⟨rfl, rfl, rfl⟩, fun _ => nofun, nofun⟩

/-- Another process changes the files, which only grow, and the pathname stays bound to its
file or is removed. -/
theorem files (inv : AppendOnlyInv pathname streamFromStart opened s) {fs' : FileSystem}
    (ascii : fs'.Ascii) (grows : ∀ x, ∃ extra, fs'.contents x = s.fs.contents x ++ extra)
    (bound : fs'.bound = none ∨ fs'.bound = s.fs.bound) :
    AppendOnlyInv pathname streamFromStart opened { s with fs := fs' } where
  ascii := ascii
  idle := inv.idle
  opening fi opening := by
    rcases bound with none | same
    · exact .inl none
    · rw [same]; exact inv.opening fi opening
  running returned := by
    obtain ⟨r, start, ghost, single, tracks⟩ := inv.running returned
    exact ⟨r, start, ghost, single, tracks.grow grows bound⟩

/-- `New`'s steps: the stat, and the open that starts the goroutine at the start of the file
or at its end, where the ghost records it. -/
theorem newStep (inv : AppendOnlyInv pathname streamFromStart opened s)
    (stepped : s.newStep streamFromStart = some s') :
    AppendOnlyInv pathname streamFromStart
      (opened.or (s.openOffset streamFromStart .runNew)) s' := by
  rcases State.newStep_cases stepped with ⟨stat, ghost, rfl⟩ |
      ⟨fi, ino, opening, opened', ghost, rfl⟩ | ⟨fi, opening, failed, ghost, rfl⟩
  · have idle := inv.idle (by rw [stat]; nofun)
    rw [ghost, Option.or_none]
    refine ⟨inv.ascii, fun _ => idle, fun fi opening => ?_, fun returned => ?_⟩
    · cases bound : s.fs.bound with
      | none => exact .inl rfl
      | some ino =>
        simp only [FileSystem.stat, bound, Option.map_some', Option.getD_some,
          NewPc.opening.injEq] at opening
        exact .inr (by rw [← opening])
    · cases bound : s.fs.bound <;> simp [FileSystem.stat, bound] at returned
  · have idle := inv.idle (by rw [opening]; nofun)
    have bound : s.fs.bound = some ino := opened'
    obtain rfl : ino = fi.ino := by
      rcases inv.opening fi opening with none | same
      · simp [bound] at none
      · simpa [bound] using same
    rw [ghost, idle.2.2, Option.none_or]
    refine ⟨inv.ascii, fun notReturned => absurd rfl notReturned,
      fun _ opening => (by cases opening), fun _ => ⟨_, _, rfl, by rw [idle.1]; rfl, ?_⟩⟩
    show Tracks pathname streamFromStart s.fs s.sent _ _
    rw [idle.2.1]
    exact Tracks.opened rfl bound rfl rfl (by split <;> simp) fun fromStart => by simp [fromStart]
  · have idle := inv.idle (by rw [opening]; nofun)
    rw [ghost, Option.or_none]
    exact ⟨inv.ascii, fun _ => idle, fun _ opening => (by cases opening), nofun⟩

/-- Every action of an append-only world keeps the invariant. -/
theorem step (inv : AppendOnlyInv pathname streamFromStart opened s) {a : Action}
    (appendOnly : a.AppendOnly) (stepped : step pathname streamFromStart s a = some s') :
    AppendOnlyInv pathname streamFromStart (opened.or (s.openOffset streamFromStart a)) s' := by
  by_cases new : a = .runNew
  · subst new
    exact inv.newStep stepped
  rw [State.openOffset_of_ne new, Option.or_none]
  cases a with
  | append data =>
    obtain ⟨fs', appended, rfl⟩ := Option.map_eq_some'.mp stepped
    have bound : fs'.bound = s.fs.bound := by
      obtain ⟨_, -, rfl⟩ := Option.map_eq_some'.mp appended
      rfl
    exact inv.files (inv.ascii.append appendOnly appended)
      (fun x => (FileSystem.contents_append appended x).imp fun _ grown => grown.1) (.inr bound)
  | delete =>
    obtain ⟨fs', deleted, rfl⟩ := Option.map_eq_some'.mp stepped
    obtain ⟨_, -, rfl⟩ := Option.map_eq_some'.mp deleted
    exact inv.files inv.ascii (fun _ => ⟨[], (List.append_nil _).symm⟩) (.inl rfl)
  | stop | cancel => cases stepped; exact ⟨inv.ascii, inv.idle, inv.opening, inv.running⟩
  | rotate | truncate | readStale => exact absurd appendOnly id
  | runNew => exact absurd rfl new
  | advance i =>
    simp only [Tailer.step, Option.bind_eq_some] at stepped
    obtain ⟨r, at_i, advanced⟩ := stepped
    by_cases returned : s.newPc = .returned
    · obtain ⟨r₀, start, ghost, single, tracks⟩ := inv.running returned
      obtain ⟨rfl, rfl⟩ : i = 0 ∧ r = r₀ := by
        rw [single] at at_i
        cases i with
        | zero => exact ⟨rfl, by simpa using at_i.symm⟩
        | succ i => simp at at_i
      obtain ⟨fs, newPc, r', readers, tracks'⟩ := tracks.advance inv.ascii single advanced
      refine ⟨fs ▸ inv.ascii, fun notReturned => absurd (newPc.trans returned) notReturned,
        fun fi opening => ?_, fun _ => ⟨r', start, ghost, readers, tracks'⟩⟩
      rw [newPc, returned] at opening
      cases opening
    · simp [(inv.idle returned).1] at at_i

/-- Every run of append-only actions keeps the invariant, with the ghost recording `New`'s open
along the run. -/
theorem of_run (inv : AppendOnlyInv pathname streamFromStart opened s) {as : List Action}
    (appendOnly : ∀ a ∈ as, a.AppendOnly) (ran : run pathname streamFromStart s as = some s') :
    AppendOnlyInv pathname streamFromStart
      (opened.or (openedOffset pathname streamFromStart s as)) s' := by
  induction as generalizing s opened with
  | nil => cases ran; rwa [openedOffset, Option.or_none]
  | cons a as ih =>
    simp only [run, Option.bind_eq_some] at ran
    obtain ⟨s₁, stepped, rest⟩ := ran
    have walked := ih (inv.step (appendOnly a (List.mem_cons_self _ _)) stepped)
      (fun a mem => appendOnly a (List.mem_cons_of_mem _ mem)) rest
    rwa [openedOffset, stepped, Option.some_bind, ← Option.or_assoc]

end AppendOnlyInv

variable {pathname : String} {streamFromStart : Bool}

/-- In every run from `New` in which the log is only appended to, in ASCII, and may be removed
but is never rotated or truncated, and no read fails with `ESTALE`: either no goroutine has
started and nothing is sent, or one goroutine has, at the offset `start` `New`'s open gave it
(the start of the file when `streamFromStart`, its end otherwise), and the lines sent, followed
by its partial buffer, are the line segments of the bytes it has read since; once it has
returned, with the partial line sent. -/
theorem appendOnly_sent_eq_lineSegments {fs₀ : FileSystem} (ascii : fs₀.Ascii)
    {as : List Action} (appendOnly : ∀ a ∈ as, a.AppendOnly) {s : State}
    (ran : run pathname streamFromStart (State.init fs₀) as = some s) :
    (s.readers = [] ∧ s.sent = []) ∨
      ∃ r start, s.readers = [r] ∧
        openedOffset pathname streamFromStart (State.init fs₀) as = some start ∧
        start ≤ r.offset ∧ (streamFromStart = true → start = 0) ∧
        ⟨s.sent, r.buffer⟩ = r.streamed pathname s.fs start := by
  have inv := (AppendOnlyInv.init ascii).of_run appendOnly ran
  rw [Option.none_or] at inv
  by_cases returned : s.newPc = .returned
  · obtain ⟨r, start, opened, single, tracks⟩ := inv.running returned
    exact .inr ⟨r, start, single, opened, tracks.started, tracks.fromStart, tracks.sent⟩
  · exact .inl ⟨(inv.idle returned).1, (inv.idle returned).2.1⟩

/-- A log holding `a\nb`. -/
def abLog : FileSystem := ⟨[[0x61, 0x0A, 0x62]], some 0⟩

/-- `New` runs, the goroutine reads `a\nb`, `c\n` is appended and read, and `Stop` is called
while the goroutine stats the file at its end. -/
def appendAndStop : List Action :=
  [.runNew, .runNew, .advance 0, .append [0x63, 0x0A], .advance 0, .stop, .advance 0,
    .advance 0, .advance 0]

/-- The stream sends `a`, then `bc`, and has returned with nothing left. -/
theorem appendOnly_sent_eq_lineSegments_abc :
    abLog.Ascii ∧ (∀ a ∈ appendAndStop, a.AppendOnly) ∧
      ∃ s, run "app.log" true (State.init abLog) appendAndStop = some s ∧
        s.sent = [⟨"app.log", [0x61]⟩, ⟨"app.log", [0x62, 0x63]⟩] ∧
        ((s.readers = [] ∧ s.sent = []) ∨
          ∃ r start, s.readers = [r] ∧
            openedOffset "app.log" true (State.init abLog) appendAndStop = some start ∧
            start ≤ r.offset ∧ (true = true → start = 0) ∧
            ⟨s.sent, r.buffer⟩ = r.streamed "app.log" s.fs start) :=
  have ascii : abLog.Ascii := by decide
  have appendOnly : ∀ a ∈ appendAndStop, a.AppendOnly := by decide
  ⟨ascii, appendOnly, _, rfl, rfl, appendOnly_sent_eq_lineSegments ascii appendOnly rfl⟩

end SfProcessor.Tailer
