import SfProcessor.Tailer.AppendOnly
import SfProcessor.Tailer.Stop
import Mathlib.Data.List.Chain
import Mathlib.Data.List.GetD

/-!
# A rotated log is streamed file after file

When the log is rotated, the goroutine reading it finds another file at its end-of-file stat,
starts a successor that reads that file from its start, and returns. Unless a rotation comes
between a stat and the open that follows it, each successor reads a newer file than the
goroutine it replaces, so no file is read twice.

## Main result

`rotation_sent_eq_lineSegments`: in every run from `New` on a well-formed file system in which
the log is appended to, in ASCII, and rotated, but never truncated or removed, no read fails
with `ESTALE`, and no rotation comes between a stat and its open, either no goroutine has
started and nothing is sent, or the goroutines, in the order they were started, read files
each newer than the one before, and the lines sent, followed by the last goroutine's partial
buffer, are the line segments of the bytes each has read, goroutine after goroutine, the first
from the offset `New`'s open gave it (a ghost of the run). The partial line of every goroutine
but the last is lost (`rotation_drops_partial`); once the last has returned, its partial line
has been sent. A rotation between `New`'s stat and its open makes the first goroutine take its
own file for a rotated one and read it again (`stream_sends_line_twice`).

## Proof strategy

`Streaming` says how the goroutines stand: every one but the last has returned, having sent
the line segments of what it read, and the last tracks its reads as in the append-only case,
after the lines the others sent (`Reader.streamedAfter`). A write extends the files and a
rotation adds an empty one, so the bytes below every goroutine's offset stay as they were
(`Streaming.files`). A reopen moves the last goroutine to the replaced ones and starts one on
the newer file the stat found (`Streaming.reopened`).
-/

namespace SfProcessor.Tailer

/-! ### Rotating runs -/

/-- An action of a world in which the log is appended to, in ASCII, and rotated, but never
truncated or removed, and no read fails with `ESTALE`. -/
def Action.AppendRotate : Action → Prop
  | .append data => ∀ b ∈ data, b.toNat ≤ 0x7F
  | .truncate | .delete | .readStale _ => False
  | .rotate | .stop | .cancel | .runNew | .advance _ => True

instance (a : Action) : Decidable a.AppendRotate :=
  match a with
  | .append data => inferInstanceAs (Decidable (∀ b ∈ data, b.toNat ≤ 0x7F))
  | .truncate | .delete | .readStale _ => isFalse nofun
  | .rotate | .stop | .cancel | .runNew | .advance _ => isTrue trivial

/-- `New` stands between its stat and its open. -/
def NewPc.Opening : NewPc → Prop
  | .opening _ => True
  | _ => False

/-- A goroutine stands between its stat and the open of its successor. -/
def Pc.Reopening : Pc → Prop
  | .reopen _ => True
  | _ => False

instance (pc : NewPc) : Decidable pc.Opening :=
  match pc with
  | .opening _ => isTrue trivial
  | .stat | .returned | .failed => isFalse nofun

instance (pc : Pc) : Decidable pc.Reopening :=
  match pc with
  | .reopen _ => isTrue trivial
  | .read | .eofStat | .sleep | .wait | .exited => isFalse nofun

/-- The step `a` rotates the file while `New` or a goroutine stands between a stat and the open
that follows it. -/
def RacingRotation (s : State) (a : Action) : Prop :=
  a = .rotate ∧ (s.newPc.Opening ∨ ∃ r ∈ s.readers, r.pc.Reopening)

instance (s : State) (a : Action) : Decidable (RacingRotation s a) :=
  inferInstanceAs (Decidable (a = .rotate ∧ (s.newPc.Opening ∨ ∃ r ∈ s.readers, r.pc.Reopening)))

/-- A rotation racing `New`: `New` stats the empty file, which is then rotated; it opens the
new file and seeks to its end, before `x` and a newline are written to it. The goroutine sends
`x`, and at its end of file compares the new file with the one `New` saw: it starts a successor
on its own file, from the start, which sends `x` again. -/
theorem stream_sends_line_twice :
    ∃ s, run "app.log" false (State.init ⟨[[]], some 0⟩)
        [.runNew, .rotate, .runNew, .append [0x78, 0x0A], .advance 0, .advance 0, .advance 0,
          .advance 0, .advance 1] = some s ∧
      s.fs.inodes = [[], [0x78, 0x0A]] ∧
      s.sent = [⟨"app.log", [0x78]⟩, ⟨"app.log", [0x78]⟩] :=
  ⟨_, rfl, rfl, rfl⟩

section Runs

variable (pathname : String) (streamFromStart : Bool) (fs₀ : FileSystem)

/-- The states reachable from `New` on `fs₀` by such actions, none of which races a stat and the
open that follows it, with the offset `New`'s open gave the first goroutine as a ghost. -/
inductive RotatingRun : State → Option Nat → Prop where
  | init : RotatingRun (State.init fs₀) none
  | step {s s' : State} {opened : Option Nat} {a : Action} : RotatingRun s opened →
      a.AppendRotate → ¬RacingRotation s a → step pathname streamFromStart s a = some s' →
      RotatingRun s' (opened.or (s.openOffset streamFromStart a))

end Runs

/-! ### What the goroutines have sent -/

/-- The bytes goroutine `r`, started at offset `start`, has read. -/
def Reader.bytesRead (fs : FileSystem) (start : Nat) (r : Reader) : List UInt8 :=
  ((fs.contents r.fd).take r.offset).drop start

/-- The lines goroutines `olds`, each replaced by the next, have sent: the line segments of the
bytes each has read, the first from `start` and every other from the start of its file. The
partial line each kept is lost. -/
def replacedSent (pathname : String) (fs : FileSystem) : Nat → List Reader → List LogLine
  | _, [] => []
  | start, r :: rs =>
    (lineSegments pathname ⟨[], []⟩ (r.bytesRead fs start)).sent ++ replacedSent pathname fs 0 rs

/-- What goroutine `r`, started after the goroutines `olds` it replaced, should have sent and
kept: the lines `olds` sent, then the line segments of the bytes `r` has read, from `start` when
it is the first and from the start of its file otherwise; once it has returned, its partial
line too. -/
def Reader.streamedAfter (r : Reader) (pathname : String) (fs : FileSystem) (start : Nat)
    (olds : List Reader) : Output :=
  r.streamedFrom pathname fs (replacedSent pathname fs start olds) (if olds = [] then start else 0)

section Sent

variable {pathname : String} {fs fs' : FileSystem}

theorem lineSegments_after (prev : List LogLine) (bytes : List UInt8) :
    lineSegments pathname ⟨prev, []⟩ bytes =
      ⟨prev ++ (lineSegments pathname ⟨[], []⟩ bytes).sent,
        (lineSegments pathname ⟨[], []⟩ bytes).buffer⟩ := by
  simp [lineSegments]

theorem replacedSent_append (start : Nat) (olds : List Reader) (r : Reader) :
    replacedSent pathname fs start (olds ++ [r]) = replacedSent pathname fs start olds ++
      (lineSegments pathname ⟨[], []⟩ (r.bytesRead fs (if olds = [] then start else 0))).sent := by
  induction olds generalizing start with
  | nil => simp [replacedSent]
  | cons o os ih => simp [replacedSent, ih]

/-- The bytes below a goroutine's offset stay as they were while its file only grows. -/
theorem bytesRead_grow {r : Reader} (within : r.offset ≤ (fs.contents r.fd).length)
    (grows : ∃ extra, fs'.contents r.fd = fs.contents r.fd ++ extra) (start : Nat) :
    r.bytesRead fs' start = r.bytesRead fs start := by
  obtain ⟨extra, grown⟩ := grows
  rw [Reader.bytesRead, Reader.bytesRead, grown, List.take_append_of_le_length within]

theorem replacedSent_grow {olds : List Reader}
    (within : ∀ r ∈ olds, r.offset ≤ (fs.contents r.fd).length)
    (grows : ∀ x, ∃ extra, fs'.contents x = fs.contents x ++ extra) (start : Nat) :
    replacedSent pathname fs' start olds = replacedSent pathname fs start olds := by
  induction olds generalizing start with
  | nil => rfl
  | cons o os ih =>
    simp only [replacedSent, bytesRead_grow (within o (List.mem_cons_self _ _)) (grows o.fd),
      ih fun r mem => within r (List.mem_cons_of_mem _ mem)]

end Sent

/-- A rotation adds an empty file and changes no other. -/
theorem FileSystem.contents_rotate (fs : FileSystem) (x : Nat) :
    fs.rotate.contents x = fs.contents x := by
  unfold FileSystem.contents FileSystem.rotate
  by_cases inside : x < fs.inodes.length
  · rw [List.getD_append _ _ _ _ inside]
  · have outside := Nat.le_of_not_lt inside
    rw [List.getD_append_right _ _ _ _ outside, List.getD_eq_default _ _ outside]
    generalize x - fs.inodes.length = k
    cases k <;> rfl

/-- The goroutines of the stream: `olds`, each replaced by the next and returned, and `cur`,
the last one started, which reads the newest file it has seen, no further than its end, and has
sent, after the lines the others sent, what it should have. -/
structure Streaming (pathname : String) (streamFromStart : Bool) (fs : FileSystem)
    (sent : List LogLine) (start : Nat) (olds : List Reader) (cur : Reader) : Prop where
  fromStart : streamFromStart = true → start = 0
  replaced : ∀ r ∈ olds, r.pc = .exited ∧ r.offset ≤ (fs.contents r.fd).length
  newer : ((olds ++ [cur]).map (·.fd)).Chain' (· < ·)
  same : cur.fi.ino = cur.fd
  within : cur.offset ≤ (fs.contents cur.fd).length
  started : (if olds = [] then start else 0) ≤ cur.offset
  latest : ∃ b, fs.bound = some b ∧ cur.fd ≤ b
  reopen : ∀ fi, cur.pc = .reopen fi → fs.bound = some fi.ino ∧ cur.fd < fi.ino
  sent : ⟨sent, cur.buffer⟩ = cur.streamedAfter pathname fs start olds

namespace Streaming

variable {pathname : String} {streamFromStart : Bool} {fs : FileSystem} {sent : List LogLine}
  {start : Nat} {olds : List Reader} {cur : Reader}

theorem streamedAfter_of_running (running : cur.pc ≠ .exited) :
    cur.streamedAfter pathname fs start olds =
      lineSegments pathname ⟨replacedSent pathname fs start olds, []⟩
        (cur.bytesRead fs (if olds = [] then start else 0)) :=
  Reader.streamedFrom_of_running running

/-- The first goroutine, which `New` starts on the file it stated. -/
theorem opened {fi : FileInfo} (bound : fs.bound = some fi.ino) (offset : Nat)
    (within : offset ≤ (fs.contents fi.ino).length)
    (fromStart : streamFromStart = true → offset = 0) :
    Streaming pathname streamFromStart fs [] offset [] ⟨fi.ino, offset, fi, [], .read⟩ := by
  refine ⟨fromStart, nofun, List.chain'_singleton _, rfl, within, by simp,
    ⟨fi.ino, bound, le_rfl⟩, fun _ reopen => (by cases reopen), ?_⟩
  rw [streamedAfter_of_running (by simp), if_pos rfl, Reader.bytesRead,
    List.drop_eq_nil_of_le (List.length_take_le _ _)]
  exact (lineSegments_nil pathname (List.not_mem_nil _) (List.not_mem_nil _)).symm

/-- Other processes change the files, which only grow. -/
theorem files (streaming : Streaming pathname streamFromStart fs sent start olds cur)
    {fs' : FileSystem} (grows : ∀ x, ∃ extra, fs'.contents x = fs.contents x ++ extra)
    (latest : ∃ b, fs'.bound = some b ∧ cur.fd ≤ b)
    (reopen : ∀ fi, cur.pc = .reopen fi → fs'.bound = some fi.ino ∧ cur.fd < fi.ino) :
    Streaming pathname streamFromStart fs' sent start olds cur := by
  have longer : ∀ x, (fs.contents x).length ≤ (fs'.contents x).length := fun x => by
    obtain ⟨extra, grown⟩ := grows x
    rw [grown, List.length_append]
    exact Nat.le_add_right _ _
  refine ⟨streaming.fromStart, fun r mem => ?_, streaming.newer, streaming.same,
    streaming.within.trans (longer cur.fd), streaming.started, latest, reopen, ?_⟩
  · obtain ⟨exited, within⟩ := streaming.replaced r mem
    exact ⟨exited, within.trans (longer r.fd)⟩
  · rw [streaming.sent, Reader.streamedAfter, Reader.streamedAfter,
      replacedSent_grow (fun r mem => (streaming.replaced r mem).2) grows,
      Reader.streamedFrom_congr (bytesRead_grow streaming.within (grows cur.fd) 0)]

/-- A step of the last goroutine that neither reads nor returns. -/
theorem move (streaming : Streaming pathname streamFromStart fs sent start olds cur)
    (running : cur.pc ≠ .exited) (pc : Pc) (moving : pc ≠ .exited)
    (reopen : ∀ fi, pc = .reopen fi → fs.bound = some fi.ino ∧ cur.fd < fi.ino) :
    Streaming pathname streamFromStart fs sent start olds { cur with pc } := by
  refine ⟨streaming.fromStart, streaming.replaced, by simpa using streaming.newer, streaming.same,
    streaming.within, streaming.started, streaming.latest, reopen, ?_⟩
  exact streaming.sent.trans (Reader.streamedFrom_move running moving).symm

/-- Completing the stream flushes the partial line. -/
theorem complete (streaming : Streaming pathname streamFromStart fs sent start olds cur)
    (running : cur.pc ≠ .exited) :
    Streaming pathname streamFromStart fs (flushPartial pathname ⟨sent, cur.buffer⟩).sent start
      olds { cur with buffer := (flushPartial pathname ⟨sent, cur.buffer⟩).buffer,
                      pc := .exited } := by
  refine ⟨streaming.fromStart, streaming.replaced, by simpa using streaming.newer, streaming.same,
    streaming.within, streaming.started, streaming.latest, fun _ reopen => (by cases reopen), ?_⟩
  exact Reader.streamedFrom_complete running streaming.sent _

/-- A read that returns bytes continues the segmentation of what the goroutine read before. -/
theorem read (streaming : Streaming pathname streamFromStart fs sent start olds cur)
    (ascii : fs.Ascii) (running : cur.pc ≠ .exited) (pc : Pc) (moving : pc ≠ .exited)
    (notReopen : ∀ fi, pc ≠ .reopen fi) :
    Streaming pathname streamFromStart fs
      (decodeAndSend pathname (fs.read cur.fd cur.offset).length (fs.read cur.fd cur.offset)
        ⟨sent, cur.buffer⟩).sent start olds
      { cur with offset := cur.offset + (fs.read cur.fd cur.offset).length,
                 buffer := (decodeAndSend pathname (fs.read cur.fd cur.offset).length
                   (fs.read cur.fd cur.offset) ⟨sent, cur.buffer⟩).buffer, pc } := by
  have length : (fs.read cur.fd cur.offset).length ≤ (fs.contents cur.fd).length - cur.offset := by
    simp only [FileSystem.read, List.length_take, List.length_drop]
    omega
  refine ⟨streaming.fromStart, streaming.replaced, by simpa using streaming.newer, streaming.same,
    by have := streaming.within; dsimp only; omega, Nat.le_add_right_of_le streaming.started,
    streaming.latest, fun fi reopen => absurd reopen (notReopen fi), ?_⟩
  exact Reader.streamedFrom_read ascii running moving streaming.started streaming.within
    streaming.sent _

/-- The reopen: the goroutine returns with what it has sent, and a successor starts at the
start of the newer file the stat found. -/
theorem reopened (streaming : Streaming pathname streamFromStart fs sent start olds cur)
    {fi : FileInfo} (reopening : cur.pc = .reopen fi) :
    Streaming pathname streamFromStart fs sent start (olds ++ [{ cur with pc := .exited }])
      ⟨fi.ino, 0, fi, [], .read⟩ := by
  obtain ⟨bound, newer⟩ := streaming.reopen fi reopening
  refine ⟨streaming.fromStart, fun r mem => ?_, ?_, rfl, Nat.zero_le _, by simp,
    ⟨fi.ino, bound, le_rfl⟩, fun _ reopen => (by cases reopen), ?_⟩
  · rcases List.mem_append.mp mem with old | new
    · exact streaming.replaced r old
    · rw [List.mem_singleton.mp new]
      exact ⟨rfl, streaming.within⟩
  · have chain := streaming.newer
    simp only [List.map_append, List.map_cons, List.map_nil] at chain ⊢
    exact chain.append (List.chain'_singleton _) (by simpa using newer)
  · have tracked := congrArg Output.sent
      (streaming.sent.trans (streamedAfter_of_running (by rw [reopening]; nofun)))
    rw [lineSegments_after] at tracked
    rw [streamedAfter_of_running (by simp), Reader.bytesRead, List.take_zero, List.drop_nil,
      lineSegments_nil pathname (List.not_mem_nil _) (List.not_mem_nil _), replacedSent_append]
    exact congrArg (fun sent => (⟨sent, []⟩ : Output)) tracked

end Streaming

/-! ### Every rotating run -/

/-- What every state of a rotating run keeps, where `opened` is the offset `New`'s open gave the
first goroutine, if it has: the files are ASCII and the pathname names one that exists; before
`New` returns nothing runs, nothing is sent and nothing is opened; `New` opens the file it
stated; and once `New` has returned, the goroutines stream as `Streaming` says, the first from
`opened`. -/
structure RotationInv (pathname : String) (streamFromStart : Bool) (opened : Option Nat)
    (s : State) : Prop where
  ascii : s.fs.Ascii
  wellFormed : s.fs.WellFormed
  idle : s.newPc ≠ .returned → s.readers = [] ∧ s.sent = [] ∧ opened = none
  opening : ∀ fi, s.newPc = .opening fi → s.fs.bound = some fi.ino
  running : s.newPc = .returned →
    ∃ start olds cur, opened = some start ∧ s.readers = olds ++ [cur] ∧
      Streaming pathname streamFromStart s.fs s.sent start olds cur

namespace RotationInv

variable {pathname : String} {streamFromStart : Bool} {opened : Option Nat} {s s' : State}

theorem init {fs₀ : FileSystem} (ascii : fs₀.Ascii) (wellFormed : fs₀.WellFormed) :
    RotationInv pathname streamFromStart none (State.init fs₀) :=
  ⟨ascii, wellFormed, fun _ => ⟨rfl, rfl, rfl⟩, fun _ => nofun, nofun⟩

/-- `New`'s steps: the stat, and the open that starts the first goroutine, where the ghost
records it. -/
theorem newStep (inv : RotationInv pathname streamFromStart opened s)
    (stepped : s.newStep streamFromStart = some s') :
    RotationInv pathname streamFromStart (opened.or (s.openOffset streamFromStart .runNew)) s' := by
  rcases State.newStep_cases stepped with ⟨stat, ghost, rfl⟩ |
      ⟨fi, ino, opening, opened', ghost, rfl⟩ | ⟨fi, opening, failed, -, rfl⟩
  · have idle := inv.idle (by rw [stat]; nofun)
    rw [ghost, Option.or_none]
    refine ⟨inv.ascii, inv.wellFormed, fun _ => idle, fun fi opening => ?_, fun returned => ?_⟩
    · cases found : s.fs.stat with
      | none => simp [found] at opening
      | some newfi =>
        simp only [found, Option.map_some', Option.getD_some, NewPc.opening.injEq] at opening
        exact opening ▸ (FileSystem.bound_of_stat found).1
    · cases found : s.fs.stat <;> simp [found] at returned
  · have idle := inv.idle (by rw [opening]; nofun)
    have bound := inv.opening fi opening
    obtain rfl : ino = fi.ino := Option.some.inj (opened'.symm.trans bound)
    rw [ghost, idle.2.2, Option.none_or]
    refine ⟨inv.ascii, inv.wellFormed, fun notReturned => absurd rfl notReturned,
      fun _ opening => (by cases opening), fun _ =>
        ⟨if streamFromStart then 0 else (s.fs.contents fi.ino).length, [], _, rfl, by rw [idle.1],
          ?_⟩⟩
    rw [idle.2.1]
    exact Streaming.opened bound _ (by split <;> simp) fun fromStart => by simp [fromStart]
  · exact absurd ((inv.opening fi opening).symm.trans failed) (Option.some_ne_none _)

/-- A step of the last goroutine keeps the files and `New` as they were, and keeps the
goroutines streaming. -/
theorem advance {start : Nat} {olds : List Reader} {cur : Reader}
    (streaming : Streaming pathname streamFromStart s.fs s.sent start olds cur)
    (ascii : s.fs.Ascii) (readers : s.readers = olds ++ [cur])
    (advanced : s.advance pathname olds.length cur = some s') :
    s'.fs = s.fs ∧ s'.newPc = s.newPc ∧ ∃ olds' cur', s'.readers = olds' ++ [cur'] ∧
      Streaming pathname streamFromStart s'.fs s'.sent start olds' cur' := by
  have set : ∀ r' : Reader, s.readers.set olds.length r' = olds ++ [r'] := fun r' => by
    simp [readers]
  cases pc : cur.pc with
  | exited => simp [State.advance, pc] at advanced
  | reopen fi =>
    simp only [State.advance, pc, Option.some.injEq] at advanced
    subst advanced
    obtain ⟨bound, -⟩ := streaming.reopen fi pc
    dsimp only [State.reopenStep]
    simp only [FileSystem.openFile, bound]
    refine ⟨rfl, rfl, olds ++ [{ cur with pc := .exited }], ⟨fi.ino, 0, fi, [], .read⟩,
      by simp [set], ?_⟩
    exact streaming.reopened pc
  | wait =>
    simp only [State.advance, pc, Option.some.injEq] at advanced
    subst advanced
    exact ⟨rfl, rfl, olds, _, set _,
      streaming.move (by simp [pc]) .read nofun fun _ reopen => (by cases reopen)⟩
  | read =>
    simp only [State.advance, pc, Option.some.injEq] at advanced
    subst advanced
    dsimp only [State.readStep]
    split_ifs
    · exact ⟨rfl, rfl, olds, _, set _,
        streaming.move (by simp [pc]) .eofStat nofun fun _ reopen => (by cases reopen)⟩
    · exact ⟨rfl, rfl, olds, _, set _,
        streaming.read ascii (by simp [pc]) .sleep nofun nofun⟩
    · exact ⟨rfl, rfl, olds, _, set _,
        streaming.read ascii (by simp [pc]) .read nofun nofun⟩
  | eofStat =>
    simp only [State.advance, pc, Option.some.injEq] at advanced
    subst advanced
    dsimp only [State.eofStatStep]
    obtain ⟨b, bound, newest⟩ := streaming.latest
    simp only [FileSystem.stat, bound, Option.map_some']
    split_ifs with rotated shorter
    · refine ⟨rfl, rfl, olds, _, set _, streaming.move (by simp [pc]) _ nofun ?_⟩
      intro fi reopen
      cases reopen
      exact ⟨bound, Nat.lt_of_le_of_ne newest fun same => rotated (streaming.same.trans same).symm⟩
    · obtain rfl : b = cur.fd := (not_not.mp rotated).trans streaming.same
      exact absurd shorter (Nat.not_lt.mpr streaming.within)
    · exact ⟨rfl, rfl, olds, _, set _,
        streaming.move (by simp [pc]) .sleep nofun fun _ reopen => (by cases reopen)⟩
  | sleep =>
    simp only [State.advance, pc, Option.some.injEq] at advanced
    subst advanced
    dsimp only [State.sleepStep]
    split_ifs
    · exact ⟨rfl, rfl, olds, _, by simp [State.complete, set],
        streaming.complete (by simp [pc])⟩
    · exact ⟨rfl, rfl, olds, _, set _,
        streaming.move (by simp [pc]) .wait nofun fun _ reopen => (by cases reopen)⟩

/-- Every action of a rotating world that races no stat keeps the invariant. -/
theorem step (inv : RotationInv pathname streamFromStart opened s) {a : Action}
    (allowed : a.AppendRotate) (notRacing : ¬RacingRotation s a)
    (stepped : step pathname streamFromStart s a = some s') :
    RotationInv pathname streamFromStart (opened.or (s.openOffset streamFromStart a)) s' := by
  by_cases new : a = .runNew
  · subst new
    exact inv.newStep stepped
  rw [State.openOffset_of_ne new, Option.or_none]
  cases a with
  | append data =>
    obtain ⟨fs', appended, rfl⟩ := Option.map_eq_some'.mp stepped
    have bound : fs'.bound = s.fs.bound := by
      obtain ⟨_, -, rfl⟩ := Option.map_eq_some'.mp appended
      rfl
    have longer : fs'.inodes.length = s.fs.inodes.length := by
      obtain ⟨_, -, rfl⟩ := Option.map_eq_some'.mp appended
      simp
    refine ⟨inv.ascii.append allowed appended,
      fun b found => longer ▸ inv.wellFormed b (bound ▸ found), inv.idle,
      fun fi opening => bound ▸ inv.opening fi opening, fun returned => ?_⟩
    obtain ⟨start, olds, cur, ghost, readers, streaming⟩ := inv.running returned
    exact ⟨start, olds, cur, ghost, readers, streaming.files
      (fun x => (FileSystem.contents_append appended x).imp fun _ grown => grown.1)
      (bound ▸ streaming.latest) (fun fi pc => bound ▸ streaming.reopen fi pc)⟩
  | rotate =>
    cases stepped
    refine ⟨fun l mem b inL => ?_, fun b found => ?_, inv.idle,
      fun fi opening => absurd ⟨rfl, .inl (by rw [opening]; trivial)⟩ notRacing,
      fun returned => ?_⟩
    · rcases List.mem_append.mp mem with old | new
      · exact inv.ascii l old b inL
      · rw [List.mem_singleton.mp new] at inL
        cases inL
    · cases found
      simp [FileSystem.rotate]
    · obtain ⟨start, olds, cur, ghost, readers, streaming⟩ := inv.running returned
      obtain ⟨b, bound, newest⟩ := streaming.latest
      refine ⟨start, olds, cur, ghost, readers, streaming.files
        (fun x => ⟨[], by rw [List.append_nil, FileSystem.contents_rotate]⟩)
        ⟨s.fs.inodes.length, rfl, newest.trans (Nat.le_of_lt (inv.wellFormed b bound))⟩
        fun fi pc => absurd ⟨rfl, .inr ⟨cur, by simp [readers], by rw [pc]; trivial⟩⟩
          notRacing⟩
  | truncate | delete | readStale => exact absurd allowed id
  | stop | cancel =>
    cases stepped
    exact ⟨inv.ascii, inv.wellFormed, inv.idle, inv.opening, inv.running⟩
  | runNew => exact absurd rfl new
  | advance i =>
    simp only [Tailer.step, Option.bind_eq_some] at stepped
    obtain ⟨r, at_i, advanced⟩ := stepped
    by_cases returned : s.newPc = .returned
    · obtain ⟨start, olds, cur, ghost, readers, streaming⟩ := inv.running returned
      have last : i = olds.length ∧ r = cur := by
        rw [readers] at at_i
        by_cases old : i < olds.length
        · rw [List.getElem?_append_left old] at at_i
          have exited := (streaming.replaced r (List.getElem?_mem at_i)).1
          simp [State.advance, exited] at advanced
        · rw [List.getElem?_append_right (Nat.le_of_not_lt old)] at at_i
          obtain ⟨lt, same⟩ := List.getElem?_eq_some_iff.mp at_i
          simp only [List.length_singleton] at lt
          exact ⟨by omega, by simpa using same.symm⟩
      obtain ⟨rfl, rfl⟩ := last
      obtain ⟨fs, newPc, olds', cur', readers', streaming'⟩ :=
        advance streaming inv.ascii readers advanced
      refine ⟨fs ▸ inv.ascii, fs ▸ inv.wellFormed,
        fun notReturned => absurd (newPc.trans returned) notReturned,
        fun fi opening => ?_, fun _ => ⟨start, olds', cur', ghost, readers', streaming'⟩⟩
      rw [newPc, returned] at opening
      cases opening
    · simp [(inv.idle returned).1] at at_i

/-- Every rotating run keeps the invariant. -/
theorem of_run {fs₀ : FileSystem} (ascii : fs₀.Ascii) (wellFormed : fs₀.WellFormed)
    (reach : RotatingRun pathname streamFromStart fs₀ s opened) :
    RotationInv pathname streamFromStart opened s := by
  induction reach with
  | init => exact init ascii wellFormed
  | step _ allowed notRacing stepped inv => exact inv.step allowed notRacing stepped

end RotationInv

variable {pathname : String} {streamFromStart : Bool}

/-- In every run from `New` on a well-formed file system in which the log is appended to, in
ASCII, and rotated, but never truncated or removed, no read fails with `ESTALE`, and no
rotation comes between a stat and the open that follows it: either no goroutine has started
and nothing is sent, or the goroutines, in the order they were started, read files each newer
than the one before, the first from the offset `start` `New`'s open gave it (the start of the
file when `streamFromStart`, its end otherwise), and the lines sent, followed by the last
goroutine's partial buffer, are the line segments of the bytes each has read, goroutine after
goroutine, with the partial line of every goroutine but the last lost, and the last one's sent
once it has returned. -/
theorem rotation_sent_eq_lineSegments {fs₀ : FileSystem} (ascii : fs₀.Ascii)
    (wellFormed : fs₀.WellFormed) {s : State} {opened : Option Nat}
    (reach : RotatingRun pathname streamFromStart fs₀ s opened) :
    (s.readers = [] ∧ s.sent = []) ∨
      ∃ start olds cur, opened = some start ∧ s.readers = olds ++ [cur] ∧
        (streamFromStart = true → start = 0) ∧ ((olds ++ [cur]).map (·.fd)).Chain' (· < ·) ∧
        ⟨s.sent, cur.buffer⟩ = cur.streamedAfter pathname s.fs start olds := by
  have inv := RotationInv.of_run ascii wellFormed reach
  by_cases returned : s.newPc = .returned
  · obtain ⟨start, olds, cur, ghost, readers, streaming⟩ := inv.running returned
    exact .inr ⟨start, olds, cur, ghost, readers, streaming.fromStart, streaming.newer,
      streaming.sent⟩
  · exact .inl ⟨(inv.idle returned).1, (inv.idle returned).2.1⟩

/-- The log is rotated after its first line and written to again: the first goroutine reads
file 0 from its start, its successor file 1, and both lines are sent. -/
theorem rotation_sent_eq_lineSegments_rotated :
    ∃ s, RotatingRun "app.log" true ⟨[[0x61, 0x0A]], some 0⟩ s (some 0) ∧
      s.readers.map (·.fd) = [0, 1] ∧ s.sent.length = 2 ∧
      ((s.readers = [] ∧ s.sent = []) ∨
        ∃ start olds cur, some 0 = some start ∧ s.readers = olds ++ [cur] ∧
          (true = true → start = 0) ∧ ((olds ++ [cur]).map (·.fd)).Chain' (· < ·) ∧
          ⟨s.sent, cur.buffer⟩ = cur.streamedAfter "app.log" s.fs start olds) := by
  have statted := @RotatingRun.step "app.log" true ⟨[[0x61, 0x0A]], some 0⟩ _ _ _ .runNew .init
    (by decide) (by decide) rfl
  have opened := @RotatingRun.step "app.log" true ⟨[[0x61, 0x0A]], some 0⟩ _ _ _ .runNew statted
    (by decide) (by decide) rfl
  have rotated := @RotatingRun.step "app.log" true ⟨[[0x61, 0x0A]], some 0⟩ _ _ _ .rotate opened
    (by decide) (by decide) rfl
  have firstLine := @RotatingRun.step "app.log" true ⟨[[0x61, 0x0A]], some 0⟩ _ _ _ (.advance 0)
    rotated (by decide) (by decide) rfl
  have atEnd := @RotatingRun.step "app.log" true ⟨[[0x61, 0x0A]], some 0⟩ _ _ _ (.advance 0)
    firstLine (by decide) (by decide) rfl
  have sawRotation := @RotatingRun.step "app.log" true ⟨[[0x61, 0x0A]], some 0⟩ _ _ _
    (.advance 0) atEnd (by decide) (by decide) rfl
  have reopened := @RotatingRun.step "app.log" true ⟨[[0x61, 0x0A]], some 0⟩ _ _ _ (.advance 0)
    sawRotation (by decide) (by decide) rfl
  have written := @RotatingRun.step "app.log" true ⟨[[0x61, 0x0A]], some 0⟩ _ _ _
    (.append [0x62, 0x0A]) reopened (by decide) (by decide) rfl
  have secondLine := @RotatingRun.step "app.log" true ⟨[[0x61, 0x0A]], some 0⟩ _ _ _
    (.advance 1) written (by decide) (by decide) rfl
  exact ⟨_, secondLine, rfl, rfl, rotation_sent_eq_lineSegments (by decide)
    (fun b found => by cases found; decide) secondLine⟩

/-- The goroutine reads `ab`, an unterminated line, and the file is rotated. At its end of
file it starts a successor on the new file and returns: `ab` stays in its partial buffer and is
never sent, as `replacedSent` says of every replaced goroutine. -/
theorem rotation_drops_partial :
    ∃ s, run "app.log" true (State.init ⟨[[]], some 0⟩)
        [.runNew, .runNew, .append [0x61, 0x62], .advance 0, .rotate, .advance 0, .advance 0,
          .advance 0] = some s ∧
      s.readers = [⟨0, 2, ⟨0, 0⟩, [0x61, 0x62], .exited⟩, ⟨1, 0, ⟨1, 0⟩, [], .read⟩] ∧
      s.sent = [] :=
  ⟨_, rfl, rfl, rfl⟩

end SfProcessor.Tailer
