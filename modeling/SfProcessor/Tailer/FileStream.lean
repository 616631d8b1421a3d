import SfProcessor.Tailer.Decode

/-!
# A file stream and the file system around it

`New`, `newFileStream` and `fileStream.stream` (package `logstream`) as a transition system.
`New`, the goroutines `fs.stream` starts, and the processes that write, rotate, truncate and
delete the file take steps in any order. A goroutine's step runs its loop from one file-system
call or blocking point to the next; `New` takes two, its stat and its open.

The file system holds the contents of every inode and the inode the pathname names. A
descriptor keeps its inode when the pathname is rebound; a rotation binds the pathname to a
fresh inode and leaves the old one as it was.

Only regular files are modelled, under a path given as such (`New`'s URL parsing is left out),
and of the read errors only `ESTALE`, which the loop handles; a wake-up may come at any time.
-/

namespace SfProcessor.Tailer

/-- `defaultReadBufferSize`, the size of the buffer for reading bytes into. -/
def defaultReadBufferSize : Nat := 4096

/-- An `os.FileInfo` as the stream reads it: the identity of the file, which `os.SameFile`
compares, and its size. -/
structure FileInfo where
  ino : Nat
  size : Nat
  deriving DecidableEq, Repr

/-- The file system: the contents of each inode, by number, and the inode the stream's pathname
names, if any. -/
structure FileSystem where
  inodes : List (List UInt8)
  bound : Option Nat
  deriving DecidableEq, Repr

namespace FileSystem

variable (fs : FileSystem)

/-- The contents of the inode `ino`. -/
def contents (ino : Nat) : List UInt8 := fs.inodes.getD ino []

/-- `os.Stat(pathname)`; `none` is the `NotExist` error. -/
def stat : Option FileInfo := fs.bound.map fun ino => ⟨ino, (fs.contents ino).length⟩

/-- `os.OpenFile(pathname, os.O_RDONLY, 0o600)`: the inode of the new descriptor; `none` is the
error. -/
def openFile : Option Nat := fs.bound

/-- `fd.Read(b)` on a descriptor of `ino` at `offset`: the bytes read into the buffer, none at
the end of the file. -/
def read (ino offset : Nat) : List UInt8 :=
  ((fs.contents ino).drop offset).take defaultReadBufferSize

/-- Another process appends `data` to the file the pathname names. -/
def append (data : List UInt8) : Option FileSystem :=
  fs.bound.map fun ino => { fs with inodes := fs.inodes.set ino (fs.contents ino ++ data) }

/-- Rotation: the pathname is bound to a fresh, empty inode. -/
def rotate : FileSystem := ⟨fs.inodes ++ [[]], some fs.inodes.length⟩

/-- The file the pathname names is truncated to nothing. -/
def truncate : Option FileSystem :=
  fs.bound.map fun ino => { fs with inodes := fs.inodes.set ino [] }

/-- The pathname is removed. -/
def delete : Option FileSystem := fs.bound.map fun _ => { fs with bound := none }

end FileSystem

/-- Where a goroutine started by `fs.stream` stands: at the top of the loop, about to
`fd.Read(b)`; after a read that returned no bytes and `io.EOF`, about to
`os.Stat(fs.pathname)`; at `Sleep`, about to test the stop and cancellation signals, or blocked
until a stop, a cancellation or a wake-up; about to call `fs.stream` with `fi` for a successor,
and to return; or returned. -/
inductive Pc where
  | read
  | eofStat
  | sleep
  | wait
  | reopen (fi : FileInfo)
  | exited
  deriving DecidableEq, Repr

/-- A goroutine started by `fs.stream`: its descriptor's inode and offset, the `FileInfo` it
compares stats against, its partial buffer, and where it stands. -/
structure Reader where
  fd : Nat
  offset : Nat
  fi : FileInfo
  buffer : List UInt8
  pc : Pc
  deriving DecidableEq, Repr

/-- Where `New` stands: about to `os.Stat(path)`, about to call `newFileStream` with the
`FileInfo` of the stat, returned the stream, or returned an error with no stream. -/
inductive NewPc where
  | stat
  | opening (fi : FileInfo)
  | returned
  | failed
  deriving DecidableEq, Repr

/-- The stream and the world around it: the file system, `New`, the goroutines in the order
they were started, the flags `completed`, the closed `stopChan` and the cancelled context, and
the lines sent on `lines`. -/
structure State where
  fs : FileSystem
  newPc : NewPc
  readers : List Reader
  completed : Bool
  stopped : Bool
  cancelled : Bool
  sent : List LogLine
  deriving DecidableEq, Repr

/-- Before `New`. -/
def State.init (fs : FileSystem) : State := ⟨fs, .stat, [], false, false, false, []⟩

/-- `if partial.Len() > 0 { sendLine(...) }`. -/
def flushPartial (pathname : String) (out : Output) : Output :=
  if out.buffer = [] then out else sendLine pathname out

namespace State

variable (pathname : String) (s : State)

/-- Goroutine `i` becomes `r`. -/
def setReader (i : Nat) (r : Reader) : State := { s with readers := s.readers.set i r }

@[simp] theorem setReader_readers (i : Nat) (r : Reader) :
    (s.setReader i r).readers = s.readers.set i r := rfl

@[simp] theorem setReader_newPc (i : Nat) (r : Reader) : (s.setReader i r).newPc = s.newPc := rfl

@[simp] theorem setReader_completed (i : Nat) (r : Reader) :
    (s.setReader i r).completed = s.completed := rfl

@[simp] theorem setReader_sent (i : Nat) (r : Reader) : (s.setReader i r).sent = s.sent := rfl

/-- The exits on `NotExist`, stop and cancellation: the partial buffer is flushed, the stream
is marked completed, and goroutine `i` returns. -/
def complete (i : Nat) (r : Reader) : State :=
  let out := flushPartial pathname ⟨s.sent, r.buffer⟩
  let r' := { r with buffer := out.buffer, pc := .exited }
  { s with sent := out.sent, completed := true, readers := s.readers.set i r' }

/-- `fd.Read(b)`: at the end of the file, on to the stat; otherwise `decodeAndSend` of the
bytes read, and back to the read unless the context is done. -/
def readStep (i : Nat) (r : Reader) : State :=
  let b := s.fs.read r.fd r.offset
  if b = [] then s.setReader i { r with pc := .eofStat }
  else
    let out := decodeAndSend pathname b.length b ⟨s.sent, r.buffer⟩
    let r' := { r with offset := r.offset + b.length, buffer := out.buffer,
                       pc := if s.cancelled then Pc.sleep else Pc.read }
    { s with sent := out.sent, readers := s.readers.set i r' }

/-- The stat at the end of the file: on `NotExist` the goroutine completes; on another file,
a successor is started; on a file shorter than the offset, the partial buffer is flushed and
the descriptor seeks to the start; otherwise the goroutine sleeps. -/
def eofStatStep (i : Nat) (r : Reader) : State :=
  match s.fs.stat with
  | none => s.complete pathname i r
  | some newfi =>
    if newfi.ino ≠ r.fi.ino then s.setReader i { r with pc := .reopen newfi }
    else if newfi.size < r.offset then
      let out := flushPartial pathname ⟨s.sent, r.buffer⟩
      let r' := { r with offset := 0, buffer := out.buffer, pc := .read }
      { s with sent := out.sent, readers := s.readers.set i r' }
    else s.setReader i { r with pc := .sleep }

/-- The first `select` at `Sleep`: a stop or a cancellation completes the stream; otherwise the
goroutine waits. -/
def sleepStep (i : Nat) (r : Reader) : State :=
  if s.stopped ∨ s.cancelled then s.complete pathname i r else s.setReader i { r with pc := .wait }

/-- `fs.stream(ctx, wg, waker, fi, true)` from goroutine `i`, which then returns: a successor
reads the file the pathname names from its start. When the open fails, nothing is started. -/
def reopenStep (i : Nat) (r : Reader) (fi : FileInfo) : State :=
  let s' := s.setReader i { r with pc := .exited }
  match s.fs.openFile with
  | some ino => { s' with readers := s'.readers ++ [⟨ino, 0, fi, [], .read⟩] }
  | none => s'

/-- The next step of goroutine `i`, which is `r`. -/
def advance (i : Nat) (r : Reader) : Option State :=
  match r.pc with
  | .read => some (s.readStep pathname i r)
  | .eofStat => some (s.eofStatStep pathname i r)
  | .sleep => some (s.sleepStep pathname i r)
  | .wait => some (s.setReader i { r with pc := .read })
  | .reopen fi => some (s.reopenStep i r fi)
  | .exited => none

/-- `New`'s next step: `os.Stat(path)`, then `newFileStream`, whose `fs.stream` opens the
pathname, seeks to its end unless `streamFromStart`, and starts the first goroutine. -/
def newStep (streamFromStart : Bool) : Option State :=
  match s.newPc with
  | .stat => some { s with newPc := (s.fs.stat.map .opening).getD .failed }
  | .opening fi => some <|
    match s.fs.openFile with
    | some ino =>
      { s with newPc := .returned,
               readers := s.readers ++
                 [⟨ino, if streamFromStart then 0 else (s.fs.contents ino).length, fi, [], .read⟩] }
    | none => { s with newPc := .failed }
  | _ => none

end State

/-- What can happen next: another process appends `data` to the file the pathname names,
rotates the file, truncates it, or removes the pathname; the tailer calls `Stop`; the shared
context is cancelled; `New` takes its next step; goroutine `i` takes its next step, or its read
fails with `ESTALE`, and it reopens the pathname with its own `FileInfo` and returns. -/
inductive Action where
  | append (data : List UInt8)
  | rotate
  | truncate
  | delete
  | stop
  | cancel
  | runNew
  | advance (i : Nat)
  | readStale (i : Nat)
  deriving DecidableEq, Repr

/-- One step of the stream and the world around it; `none` when the action cannot happen. -/
def step (pathname : String) (streamFromStart : Bool) (s : State) : Action → Option State
  | .append data => (s.fs.append data).map fun fs => { s with fs }
  | .rotate => some { s with fs := s.fs.rotate }
  | .truncate => s.fs.truncate.map fun fs => { s with fs }
  | .delete => s.fs.delete.map fun fs => { s with fs }
  | .stop => some { s with stopped := true }
  | .cancel => some { s with cancelled := true }
  | .runNew => s.newStep streamFromStart
  | .advance i => s.readers[i]?.bind (s.advance pathname i)
  | .readStale i => s.readers[i]?.bind fun r =>
    if r.pc = .read then some (s.setReader i { r with pc := .reopen r.fi }) else none

namespace State

/-- The offset `New`'s open gives the first goroutine, when `a` is that open from `s`: the
start of the file when `streamFromStart`, its end otherwise. A ghost, which no code reads: it
records where the first goroutine began. -/
def openOffset (s : State) (streamFromStart : Bool) : Action → Option Nat
  | .runNew =>
    match s.newPc, s.fs.openFile with
    | .opening _, some ino => some (if streamFromStart then 0 else (s.fs.contents ino).length)
    | _, _ => none
  | _ => none

variable {pathname : String} {s s' : State} {j : Nat} {r : Reader}

theorem openOffset_of_ne {streamFromStart : Bool} {a : Action} (other : a ≠ .runNew) :
    s.openOffset streamFromStart a = none := by
  cases a <;> simp_all [openOffset]

theorem newStep_readers {streamFromStart : Bool} (started : s.newStep streamFromStart = some s') :
    ∃ extra, s'.readers = s.readers ++ extra := by
  unfold newStep at started
  split at started
  · cases started; exact ⟨[], by simp⟩
  · cases started; split
    · exact ⟨_, rfl⟩
    · exact ⟨[], by simp⟩
  · cases started

/-- What `New`'s step can do: the stat, which moves on to the open of the file it found or
fails; the open, which starts the first goroutine at the start of the file or at its end, as
the ghost `openOffset` records; and the open that fails. -/
theorem newStep_cases {streamFromStart : Bool} (started : s.newStep streamFromStart = some s') :
    (s.newPc = .stat ∧ s.openOffset streamFromStart .runNew = none ∧
      s' = { s with newPc := (s.fs.stat.map .opening).getD .failed }) ∨
    (∃ fi ino, s.newPc = .opening fi ∧ s.fs.openFile = some ino ∧
      s.openOffset streamFromStart .runNew =
        some (if streamFromStart then 0 else (s.fs.contents ino).length) ∧
      s' = { s with newPc := .returned, readers := s.readers ++
        [⟨ino, if streamFromStart then 0 else (s.fs.contents ino).length, fi, [], .read⟩] }) ∨
    (∃ fi, s.newPc = .opening fi ∧ s.fs.openFile = none ∧
      s.openOffset streamFromStart .runNew = none ∧ s' = { s with newPc := .failed }) := by
  unfold newStep at started
  split at started
  next stat => cases started; exact .inl ⟨stat, by simp [openOffset, stat], rfl⟩
  next fi opening =>
    cases started
    rcases Option.eq_none_or_eq_some s.fs.openFile with opened | ⟨ino, opened⟩
    · exact .inr (.inr ⟨fi, opening, opened, by simp [openOffset, opening, opened],
        by rw [opened]⟩)
    · exact .inr (.inl ⟨fi, ino, opening, opened, by simp [openOffset, opening, opened],
        by rw [opened]⟩)
  next => cases started

/-- A goroutine's step changes the goroutine and may start others; it returns only from a
reopen or by completing the stream. -/
theorem advance_readers (advanced : s.advance pathname j r = some s') :
    ∃ r' extra, s'.readers = s.readers.set j r' ++ extra ∧
      (r'.pc = .exited →
        (∃ fi, r.pc = .reopen fi ∧
          extra = (s.fs.openFile.map fun ino => ⟨ino, 0, fi, [], .read⟩).toList) ∨
        s' = s.complete pathname j r) := by
  cases pc : r.pc <;> simp only [advance, pc, Option.some.injEq, reduceCtorEq] at advanced <;>
    subst advanced
  case read =>
    dsimp only [readStep]
    split_ifs <;> exact ⟨_, [], (List.append_nil _).symm, by simp⟩
  case eofStat =>
    dsimp only [eofStatStep]
    split
    · exact ⟨_, [], (List.append_nil _).symm, fun _ => .inr rfl⟩
    · split_ifs <;> exact ⟨_, [], (List.append_nil _).symm, by simp⟩
  case sleep =>
    dsimp only [sleepStep]
    split_ifs
    · exact ⟨_, [], (List.append_nil _).symm, fun _ => .inr rfl⟩
    · exact ⟨_, [], (List.append_nil _).symm, by simp⟩
  case wait => exact ⟨_, [], (List.append_nil _).symm, by simp⟩
  case reopen fi =>
    dsimp only [reopenStep]
    split
    · exact ⟨_, _, rfl, fun _ => .inl ⟨fi, rfl, by simp [*]⟩⟩
    · exact ⟨_, [], (List.append_nil _).symm, fun _ => .inl ⟨fi, rfl, by simp [*]⟩⟩
end State

section Steps

variable {pathname : String} {streamFromStart : Bool} {s s' : State} {a : Action}

/-- What a step can do: another process or the tailer changes the file system or a flag and
nothing of the stream's own; `New` steps; a goroutine steps; or a goroutine's read fails with
`ESTALE`. -/
theorem step_cases (stepped : step pathname streamFromStart s a = some s') :
    (s'.newPc = s.newPc ∧ s'.readers = s.readers ∧ s'.completed = s.completed ∧
        s'.sent = s.sent) ∨
      (a = .runNew ∧ s.newStep streamFromStart = some s') ∨
      (∃ i r, a = .advance i ∧ s.readers[i]? = some r ∧ s.advance pathname i r = some s') ∨
      (∃ i r, a = .readStale i ∧ s.readers[i]? = some r ∧ r.pc = .read ∧
        s' = s.setReader i { r with pc := .reopen r.fi }) := by
  cases a with
  | append data | truncate | delete =>
    simp only [step, Option.map_eq_some'] at stepped
    obtain ⟨fs, -, rfl⟩ := stepped
    exact .inl ⟨rfl, rfl, rfl, rfl⟩
  | rotate | stop | cancel => cases stepped; exact .inl ⟨rfl, rfl, rfl, rfl⟩
  | runNew => exact .inr (.inl ⟨rfl, stepped⟩)
  | advance i =>
    simp only [step, Option.bind_eq_some] at stepped
    obtain ⟨r, at_i, advanced⟩ := stepped
    exact .inr (.inr (.inl ⟨i, r, rfl, at_i, advanced⟩))
  | readStale i =>
    simp only [step, Option.bind_eq_some] at stepped
    obtain ⟨r, at_i, stale⟩ := stepped
    split at stale
    · cases stale; exact .inr (.inr (.inr ⟨i, r, rfl, at_i, ‹_›, rfl⟩))
    · cases stale

end Steps

section Runs

variable (pathname : String) (streamFromStart : Bool) (fs₀ : FileSystem)

/-- The states reachable from `New` on the file system `fs₀`. -/
inductive Reachable : State → Prop where
  | init : Reachable (State.init fs₀)
  | step {s s' : State} {a : Action} :
      Reachable s → step pathname streamFromStart s a = some s' → Reachable s'

/-- The actions `as`, one after the other. -/
def run : State → List Action → Option State
  | s, [] => some s
  | s, a :: as => (step pathname streamFromStart s a).bind fun s' => run s' as

/-- The offset `New`'s open gives the first goroutine along the actions `as` from `s`. -/
def openedOffset : State → List Action → Option Nat
  | _, [] => none
  | s, a :: as =>
    (s.openOffset streamFromStart a).or
      ((step pathname streamFromStart s a).bind (openedOffset · as))

variable {pathname streamFromStart fs₀}

theorem reachable_run {s s' : State} {as : List Action}
    (reach : Reachable pathname streamFromStart fs₀ s)
    (ran : run pathname streamFromStart s as = some s') :
    Reachable pathname streamFromStart fs₀ s' := by
  induction as generalizing s with
  | nil => cases ran; exact reach
  | cons a as ih =>
    simp only [run, Option.bind_eq_some] at ran
    obtain ⟨s₁, stepped, rest⟩ := ran
    exact ih (reach.step stepped) rest

end Runs

end SfProcessor.Tailer
