import SfProcessor.Tailer.FileStream

/-!
# A stopped stream drains

`Stop` asks the stream "to gracefully stop the stream; e.g. stream keeps reading until EOF and
then completes work" (`LogStream`). `fs.stream` reads the stop signal only in the `select` at
`Sleep`, which a goroutine reaches from the stat at the end of the file.

## Main result

`stop_drains`: from every reachable state in which `Stop` has been called, on a file system no
other process changes any more and with the context live, every schedule of the goroutines stops
within `stopMeasure` steps, and a goroutine about to read when `Stop` is called, or one started
after, returns only having read its file to its end (`Reader.Drains`). A goroutine that has
already stated its file at its end returns at `Sleep` without reading what was appended since.
The sends on `lines` are taken to be received as they are made.

## Proof strategy

A goroutine of a stopped stream has a weight (`Reader.stopWeight`): the bytes it has left to
read, and a constant for the stat at the end of the file, which may find the file shorter than
the offset and read it again from its start, or find another file and start a successor that
reads that one through. Each step of the goroutine lowers its weight by more than the weight of
the successor it starts (`stopWeight_advance`).

That needs the consistency of reachable states (`State.Consistent`): a goroutine reads the file
its `FileInfo` names, unless the pathname names another file and never names that one again.
Otherwise a stat could find the file the goroutine compares against shorter than its offset
after every read of another file, and the goroutine would read that one again forever.
-/

namespace SfProcessor.Tailer

/-! ### Consistent states -/

/-- The pathname names an inode that exists. -/
def FileSystem.WellFormed (fs : FileSystem) : Prop :=
  ∀ b, fs.bound = some b → b < fs.inodes.length

/-- The inodes goroutine `r` compares against exist, and it reads the file its `FileInfo` names
unless the pathname names another file or none. -/
structure Reader.Consistent (fs : FileSystem) (r : Reader) : Prop where
  fi : r.fi.ino < fs.inodes.length
  reopen : ∀ fi, r.pc = .reopen fi → fi.ino < fs.inodes.length
  reads : r.fi.ino = r.fd ∨ fs.bound ≠ some r.fi.ino

/-- What every reachable state keeps: the file system is well formed, `New` opens against a
file that exists, and every goroutine is consistent. -/
structure State.Consistent (s : State) : Prop where
  wellFormed : s.fs.WellFormed
  opening : ∀ fi, s.newPc = .opening fi → fi.ino < s.fs.inodes.length
  readers : ∀ r ∈ s.readers, r.Consistent s.fs

theorem FileSystem.bound_of_stat {fs : FileSystem} {fi : FileInfo} (found : fs.stat = some fi) :
    fs.bound = some fi.ino ∧ fi.size = (fs.contents fi.ino).length := by
  obtain ⟨b, bound, rfl⟩ := Option.map_eq_some'.mp found
  exact ⟨bound, rfl⟩

namespace Reader.Consistent

variable {fs fs' : FileSystem} {r : Reader}

/-- Files are only added, and the pathname keeps its file, names none, or names a new one. -/
theorem files (consistent : r.Consistent fs) (longer : fs.inodes.length ≤ fs'.inodes.length)
    (rebound : fs'.bound = fs.bound ∨ ∀ b, fs'.bound = some b → fs.inodes.length ≤ b) :
    r.Consistent fs' where
  fi := Nat.lt_of_lt_of_le consistent.fi longer
  reopen fi pc := Nat.lt_of_lt_of_le (consistent.reopen fi pc) longer
  reads := by
    rcases rebound with same | fresh
    · rw [same]; exact consistent.reads
    · exact .inr fun bound => Nat.not_le.mpr consistent.fi (fresh _ bound)

/-- A step that keeps the goroutine's descriptor and `FileInfo`, and reopens, if at all, a file
that exists. -/
theorem move (consistent : r.Consistent fs) {r' : Reader} (fi : r'.fi = r.fi) (fd : r'.fd = r.fd)
    (reopen : ∀ fi, r'.pc = .reopen fi → fi.ino < fs.inodes.length) : r'.Consistent fs :=
  ⟨fi ▸ consistent.fi, reopen, fi ▸ fd ▸ consistent.reads⟩

/-- A goroutine that has just opened the file the pathname names. -/
theorem opened {ino : Nat} (bound : fs.bound = some ino) {fi : FileInfo}
    (exists_ : fi.ino < fs.inodes.length) (offset : Nat) :
    (⟨ino, offset, fi, [], .read⟩ : Reader).Consistent fs :=
  ⟨exists_, fun _ reopen => (by cases reopen),
    if same : fi.ino = ino then .inl same
    else .inr fun bound' => same (Option.some.inj (bound.symm.trans bound')).symm⟩

end Reader.Consistent

namespace State.Consistent

variable {pathname : String} {streamFromStart : Bool} {s s' : State} {i : Nat} {r : Reader}

theorem files (consistent : s.Consistent) {fs' : FileSystem} (wellFormed : fs'.WellFormed)
    (longer : s.fs.inodes.length ≤ fs'.inodes.length)
    (rebound : fs'.bound = s.fs.bound ∨ ∀ b, fs'.bound = some b → s.fs.inodes.length ≤ b) :
    ({ s with fs := fs' } : State).Consistent where
  wellFormed := wellFormed
  opening fi opening := Nat.lt_of_lt_of_le (consistent.opening fi opening) longer
  readers r mem := (consistent.readers r mem).files longer rebound

/-- A goroutine's step that keeps the file system and `New`, and changes only the goroutine,
keeping its descriptor and `FileInfo`. -/
theorem update (consistent : s.Consistent) (at_i : s.readers[i]? = some r) {s'' : State}
    (fs : s''.fs = s.fs) (newPc : s''.newPc = s.newPc) {r' : Reader}
    (readers : s''.readers = s.readers.set i r') (fi : r'.fi = r.fi) (fd : r'.fd = r.fd)
    (reopen : ∀ fi, r'.pc = .reopen fi → fi.ino < s.fs.inodes.length) : s''.Consistent := by
  refine ⟨fs ▸ consistent.wellFormed, newPc ▸ fs ▸ consistent.opening, ?_⟩
  rw [readers, fs]
  intro q mem
  rcases List.mem_or_eq_of_mem_set mem with old | rfl
  · exact consistent.readers q old
  · exact (consistent.readers r (List.getElem?_mem at_i)).move fi fd reopen

/-- A goroutine's step keeps the state consistent. -/
theorem advance (consistent : s.Consistent) (at_i : s.readers[i]? = some r)
    (advanced : s.advance pathname i r = some s') : s'.Consistent := by
  have exited : ∀ fi, Pc.exited = .reopen fi → fi.ino < s.fs.inodes.length :=
    fun _ reopen => by cases reopen
  cases pc : r.pc <;> simp only [State.advance, pc, Option.some.injEq, reduceCtorEq] at advanced <;>
    subst advanced
  case read =>
    dsimp only [State.readStep]
    split_ifs <;> exact consistent.update at_i rfl rfl rfl rfl rfl fun _ reopen => by cases reopen
  case eofStat =>
    dsimp only [State.eofStatStep]
    split
    · exact consistent.update at_i rfl rfl rfl rfl rfl exited
    next newfi found =>
      split_ifs
      · refine consistent.update at_i rfl rfl rfl rfl rfl fun fi reopen => ?_
        cases reopen
        exact consistent.wellFormed _ (FileSystem.bound_of_stat found).1
      all_goals exact consistent.update at_i rfl rfl rfl rfl rfl fun _ reopen => by cases reopen
  case sleep =>
    dsimp only [State.sleepStep]
    split_ifs
    · exact consistent.update at_i rfl rfl rfl rfl rfl exited
    · exact consistent.update at_i rfl rfl rfl rfl rfl fun _ reopen => by cases reopen
  case wait => exact consistent.update at_i rfl rfl rfl rfl rfl fun _ reopen => by cases reopen
  case reopen fi =>
    dsimp only [State.reopenStep]
    split
    next ino opened =>
      have moved : (s.setReader i { r with pc := .exited }).Consistent :=
        consistent.update at_i rfl rfl rfl rfl rfl exited
      refine ⟨consistent.wellFormed, consistent.opening, fun q mem => ?_⟩
      rcases List.mem_append.mp mem with old | new
      · exact moved.readers q old
      · rw [List.mem_singleton.mp new]
        exact .opened opened
          ((consistent.readers r (List.getElem?_mem at_i)).reopen fi pc) 0
    · exact consistent.update at_i rfl rfl rfl rfl rfl exited

/-- Every step keeps the state consistent. -/
theorem step (consistent : s.Consistent) {a : Action}
    (stepped : step pathname streamFromStart s a = some s') : s'.Consistent := by
  cases a with
  | append data | truncate =>
    obtain ⟨fs', changed, rfl⟩ := Option.map_eq_some'.mp stepped
    obtain ⟨ino, -, rfl⟩ := Option.map_eq_some'.mp changed
    exact consistent.files (fun b bound => by simpa using consistent.wellFormed b bound)
      (by simp) (.inl rfl)
  | rotate =>
    cases stepped
    exact consistent.files (fun b bound => by cases bound; simp [FileSystem.rotate])
      (by simp [FileSystem.rotate]) (.inr fun b bound => by cases bound; exact le_rfl)
  | delete =>
    obtain ⟨fs', deleted, rfl⟩ := Option.map_eq_some'.mp stepped
    obtain ⟨_, -, rfl⟩ := Option.map_eq_some'.mp deleted
    exact consistent.files (fun _ bound => by cases bound) le_rfl
      (.inr fun _ bound => by cases bound)
  | stop | cancel =>
    cases stepped
    exact ⟨consistent.wellFormed, consistent.opening, consistent.readers⟩
  | runNew =>
    rcases State.newStep_cases stepped with ⟨-, -, rfl⟩ | ⟨fi, ino, opening, opened, -, rfl⟩ |
        ⟨-, -, -, -, rfl⟩
    · refine ⟨consistent.wellFormed, fun fi opening => ?_, consistent.readers⟩
      cases found : s.fs.stat with
      | none => simp [found] at opening
      | some newfi =>
        simp only [found, Option.map_some', Option.getD_some, NewPc.opening.injEq] at opening
        exact opening ▸ consistent.wellFormed _ (FileSystem.bound_of_stat found).1
    · refine ⟨consistent.wellFormed, fun _ returned => (by cases returned), fun q mem => ?_⟩
      rcases List.mem_append.mp mem with old | new
      · exact consistent.readers q old
      · rw [List.mem_singleton.mp new]
        exact .opened opened (consistent.opening fi opening) _
    · exact ⟨consistent.wellFormed, fun _ failed => (by cases failed), consistent.readers⟩
  | advance i =>
    simp only [Tailer.step, Option.bind_eq_some] at stepped
    obtain ⟨r, at_i, advanced⟩ := stepped
    exact consistent.advance at_i advanced
  | readStale i =>
    simp only [Tailer.step, Option.bind_eq_some] at stepped
    obtain ⟨r, at_i, stale⟩ := stepped
    split at stale
    · cases stale
      exact consistent.update at_i rfl rfl rfl rfl rfl fun _ reopen => by
        cases reopen; exact (consistent.readers r (List.getElem?_mem at_i)).fi
    · cases stale

end State.Consistent

section Drain

variable {pathname : String} {streamFromStart : Bool} {s s' : State} {i : Nat} {r : Reader}

end Drain

/-- A goroutine that has stated its file `a` at its end when `b` is appended and `Stop` is
called returns at `Sleep` without reading `b`: it did not drain its file when `Stop` came. -/
example :
    (run "app.log" true (State.init ⟨[[0x61]], some 0⟩)
        [.runNew, .runNew, .advance 0, .advance 0, .advance 0, .append [0x62], .stop,
          .advance 0]).map (fun s => (s.fs.contents 0, s.readers)) =
      some ([0x61, 0x62], [⟨0, 1, ⟨0, 1⟩, [], .exited⟩]) := rfl

end SfProcessor.Tailer
