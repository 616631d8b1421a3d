import SfProcessor.Tailer.FileStream

/-!
# Whether a file stream completes

`IsComplete` tells the tailer that a stream "has completed work and cannot recover", so that it
cleans the stream up and creates a new one on the pathname. That only works if a stream whose
goroutines have all returned is completed.

## Main results

`aliveOrComplete_of_reachable`: on every run in which the open of no successor fails, once
`New` has returned the stream, some goroutine of it runs or it is completed.

`stranded_run`: a stream with no goroutine running that is not completed stays so, whatever
happens next. `fs.stream` called for a successor, on a rotation or an `ESTALE` read, returns
its goroutine after an open that fails without completing the stream, so such a state is
reachable (`reopen_failure_strands_stream`).

`completed_only_on_request`: on every run in which the pathname is never removed, a completed
stream has been stopped or cancelled, so the tailer never drops a stream whose file is still
there.

## Proof strategy

`step_cases` says what a step can do. Every goroutine step but the failed reopen leaves the
goroutine running or completes the stream (`aliveOrComplete_advance`), and the other steps
keep the goroutines and the flag. A goroutine completes the stream only when its stat finds no
file or on a stop or a cancellation (`State.advance_completes`), and while a goroutine runs the
pathname names a file unless it is removed (`State.Requested`).
-/

namespace SfProcessor.Tailer

/-- Once `New` has returned the stream, it is completed or one of its goroutines runs. -/
def AliveOrComplete (s : State) : Prop :=
  s.newPc = .returned → s.completed = true ∨ ∃ r ∈ s.readers, r.pc ≠ .exited

/-- The step `a` is goroutine `i` calling `fs.stream` for a successor while the pathname names
no file, so that the open fails. -/
def FailedReopen (s : State) (a : Action) : Prop :=
  ∃ i r fi, a = .advance i ∧ s.readers[i]? = some r ∧ r.pc = .reopen fi ∧ s.fs.openFile = none

section Alive

variable {pathname : String} {streamFromStart : Bool} {s s' : State} {i : Nat} {r : Reader}

theorem alive_setReader (at_i : s.readers[i]? = some r) {r' : Reader} (alive : r'.pc ≠ .exited) :
    ∃ q ∈ s.readers.set i r', q.pc ≠ .exited :=
  ⟨r', List.mem_set _ _ (List.getElem?_eq_some_iff.mp at_i).1 _, alive⟩

/-- A goroutine's step leaves it running or completes the stream, unless it is a reopen whose
open fails. -/
theorem aliveOrComplete_advance (at_i : s.readers[i]? = some r)
    (advanced : s.advance pathname i r = some s')
    (opens : ∀ fi, r.pc = .reopen fi → s.fs.openFile ≠ none) :
    s'.completed = true ∨ ∃ q ∈ s'.readers, q.pc ≠ .exited := by
  obtain ⟨r', extra, readers, exits⟩ := State.advance_readers advanced
  rw [readers]
  by_cases returned : r'.pc = .exited
  · rcases exits returned with ⟨fi, pc, rfl⟩ | rfl
    · obtain ⟨ino, opened⟩ := Option.ne_none_iff_exists'.mp (opens fi pc)
      exact .inr ⟨⟨ino, 0, fi, [], .read⟩, List.mem_append_right _ (by simp [opened]), by simp⟩
    · exact .inl rfl
  · exact .inr ⟨r', List.mem_append_left _ (List.mem_set _ _
      (List.getElem?_eq_some_iff.mp at_i).1 _), returned⟩

theorem aliveOrComplete_step {a : Action} (inv : AliveOrComplete s)
    (stepped : step pathname streamFromStart s a = some s') (ok : ¬FailedReopen s a) :
    AliveOrComplete s' := by
  intro returned
  rcases step_cases stepped with ⟨newPc, readers, completed, -⟩ | ⟨-, started⟩ |
      ⟨i, r, rfl, at_i, advanced⟩ | ⟨i, r, rfl, at_i, -, rfl⟩
  · rw [readers, completed]; exact inv (newPc ▸ returned)
  · unfold State.newStep at started
    split at started
    · cases started
      revert returned; cases s.fs.stat <;> simp
    · cases started
      revert returned; cases s.fs.openFile
      · simp
      · exact fun _ => .inr ⟨_, List.mem_append_right _ (List.mem_singleton_self _), by simp⟩
    · cases started
  · exact aliveOrComplete_advance at_i advanced fun fi pc opened => ok ⟨i, r, fi, rfl, at_i, pc, opened⟩
  · exact .inr (alive_setReader at_i (by simp))

variable (pathname streamFromStart) (fs₀ : FileSystem)

/-- The states reachable from `New` on `fs₀` by steps none of which is a failed reopen. -/
inductive ReachableOpening : State → Prop where
  | init : ReachableOpening (State.init fs₀)
  | step {s s' : State} {a : Action} : ReachableOpening s →
      step pathname streamFromStart s a = some s' → ¬FailedReopen s a → ReachableOpening s'

/-- On every run in which no successor's open fails, once `New` has returned the stream, a
goroutine of it runs or it is completed. -/
theorem aliveOrComplete_of_reachable {s : State}
    (reach : ReachableOpening pathname streamFromStart fs₀ s) : AliveOrComplete s := by
  induction reach with
  | init => intro returned; cases returned
  | step _ stepped ok inv => exact aliveOrComplete_step inv stepped ok

end Alive

/-- The file is rotated at the goroutine's end of file, and the successor's open succeeds: the
first goroutine has returned and its successor runs. -/
theorem aliveOrComplete_of_reachable_rotated :
    ∃ s, ReachableOpening "app.log" true ⟨[[]], some 0⟩ s ∧
      s.readers.map (·.pc) = [.exited, .read] ∧ AliveOrComplete s := by
  have other : ∀ {s a}, (∀ i, a ≠ Action.advance i) → ¬FailedReopen s a :=
    fun notAdvance ⟨i, _, _, isAdvance, _⟩ => notAdvance i isAdvance
  have opened := @ReachableOpening.step "app.log" true ⟨[[]], some 0⟩ _ _ .runNew .init rfl
    (other nofun)
  have running := @ReachableOpening.step "app.log" true ⟨[[]], some 0⟩ _ _ .runNew opened rfl
    (other nofun)
  have rotated := @ReachableOpening.step "app.log" true ⟨[[]], some 0⟩ _ _ .rotate running rfl
    (other nofun)
  have atEnd := @ReachableOpening.step "app.log" true ⟨[[]], some 0⟩ _ _ (.advance 0) rotated rfl
    fun ⟨_, _, _, same, found, pc, _⟩ => by cases same; cases found; cases pc
  have sawRotation := @ReachableOpening.step "app.log" true ⟨[[]], some 0⟩ _ _ (.advance 0) atEnd
    rfl fun ⟨_, _, _, same, found, pc, _⟩ => by cases same; cases found; cases pc
  have reopened := @ReachableOpening.step "app.log" true ⟨[[]], some 0⟩ _ _ (.advance 0)
    sawRotation rfl fun ⟨_, _, _, _, _, _, failed⟩ => by cases failed
  exact ⟨_, reopened, rfl, aliveOrComplete_of_reachable "app.log" true ⟨[[]], some 0⟩ reopened⟩

/-! ### A stream no one reads and no one replaces -/

/-- `New` returned the stream, none of its goroutines runs, and it is not completed. -/
def Stranded (s : State) : Prop :=
  s.newPc = .returned ∧ s.completed = false ∧ ∀ r ∈ s.readers, r.pc = .exited

section Stranded

variable {pathname : String} {streamFromStart : Bool} {s s' : State}

theorem stranded_step {a : Action} (stranded : Stranded s)
    (stepped : step pathname streamFromStart s a = some s') : Stranded s' := by
  obtain ⟨returned, incomplete, exited⟩ := stranded
  rcases step_cases stepped with ⟨newPc, readers, completed, -⟩ | ⟨-, started⟩ |
      ⟨i, r, -, at_i, advanced⟩ | ⟨i, r, -, at_i, pc, -⟩
  · exact ⟨newPc ▸ returned, completed ▸ incomplete, readers ▸ exited⟩
  · simp [State.newStep, returned] at started
  · simp [State.advance, exited r (List.getElem?_mem at_i)] at advanced
  · simp [exited r (List.getElem?_mem at_i)] at pc

/-- Whatever happens next, a stranded stream stays stranded. -/
theorem stranded_run {as : List Action} (stranded : Stranded s)
    (ran : run pathname streamFromStart s as = some s') : Stranded s' := by
  induction as generalizing s with
  | nil => cases ran; exact stranded
  | cons a as ih =>
    simp only [run, Option.bind_eq_some] at ran
    obtain ⟨s₁, stepped, rest⟩ := ran
    exact ih (stranded_step stranded stepped) rest

end Stranded

/-- The file is rotated, and the goroutine sees it at its end-of-file stat; the pathname is
removed before the successor's open, which fails. The goroutine returns, and the stream stays
without a reader and not completed whatever happens next. -/
theorem reopen_failure_strands_stream :
    ∃ s, run "app.log" true (State.init ⟨[[]], some 0⟩)
        [.runNew, .runNew, .rotate, .advance 0, .advance 0, .delete, .advance 0] = some s ∧
      Stranded s ∧ ∀ as s', run "app.log" true s as = some s' → Stranded s' :=
  ⟨_, rfl, ⟨rfl, rfl, by decide⟩, fun _ _ => stranded_run ⟨rfl, rfl, by decide⟩⟩

/-! ### Completion only on request -/

section Requested

variable {pathname : String} {streamFromStart : Bool} {s s' : State} {i : Nat} {r : Reader}

/-- A goroutine's step keeps the files and the signals, and completes the stream only when its
stat finds no file, or on a stop or a cancellation. -/
theorem State.advance_completes (advanced : s.advance pathname i r = some s') :
    s'.fs = s.fs ∧ s'.stopped = s.stopped ∧ s'.cancelled = s.cancelled ∧
      (s'.completed = s.completed ∨ s.fs.stat = none ∨ s.stopped = true ∨ s.cancelled = true) := by
  cases pc : r.pc <;> simp only [State.advance, pc, Option.some.injEq, reduceCtorEq] at advanced <;>
    subst advanced
  case read => dsimp only [State.readStep]; split_ifs <;> exact ⟨rfl, rfl, rfl, .inl rfl⟩
  case eofStat =>
    dsimp only [State.eofStatStep]
    split
    next noFile => exact ⟨rfl, rfl, rfl, .inr (.inl noFile)⟩
    next => split_ifs <;> exact ⟨rfl, rfl, rfl, .inl rfl⟩
  case sleep =>
    dsimp only [State.sleepStep]
    split_ifs with signalled
    · exact ⟨rfl, rfl, rfl, .inr (.inr signalled)⟩
    · exact ⟨rfl, rfl, rfl, .inl rfl⟩
  case wait => exact ⟨rfl, rfl, rfl, .inl rfl⟩
  case reopen fi => dsimp only [State.reopenStep]; split <;> exact ⟨rfl, rfl, rfl, .inl rfl⟩

/-- What keeps a stream from completing by itself: its goroutines run only while the pathname
names a file, and it has completed only after a stop or a cancellation. -/
structure State.Requested (s : State) : Prop where
  named : s.readers ≠ [] → s.fs.bound ≠ none
  requested : s.completed = true → s.stopped = true ∨ s.cancelled = true

namespace State.Requested

theorem init (fs₀ : FileSystem) : (State.init fs₀).Requested :=
  ⟨fun started => absurd rfl started, fun completed => (by cases completed)⟩

/-- Every step but the removal of the pathname keeps the invariant. -/
theorem step (inv : s.Requested) {a : Action} (kept : a ≠ .delete)
    (stepped : step pathname streamFromStart s a = some s') : s'.Requested := by
  cases a with
  | append data | truncate =>
    obtain ⟨fs, changed, rfl⟩ := Option.map_eq_some'.mp stepped
    obtain ⟨_, -, rfl⟩ := Option.map_eq_some'.mp changed
    exact ⟨inv.named, inv.requested⟩
  | rotate => cases stepped; exact ⟨fun _ => Option.some_ne_none _, inv.requested⟩
  | delete => exact absurd rfl kept
  | stop => cases stepped; exact ⟨inv.named, fun _ => .inl rfl⟩
  | cancel => cases stepped; exact ⟨inv.named, fun _ => .inr rfl⟩
  | runNew =>
    replace stepped : s.newStep streamFromStart = some s' := stepped
    unfold State.newStep at stepped
    split at stepped
    · cases stepped; exact ⟨inv.named, inv.requested⟩
    · cases stepped
      split
      next opened =>
        exact ⟨fun _ bound => Option.some_ne_none _ (opened.symm.trans bound), inv.requested⟩
      next => exact ⟨inv.named, inv.requested⟩
    · cases stepped
  | advance i =>
    simp only [Tailer.step, Option.bind_eq_some] at stepped
    obtain ⟨r, at_i, advanced⟩ := stepped
    obtain ⟨fs, stopped, cancelled, completes⟩ := State.advance_completes advanced
    have named := inv.named (List.ne_nil_of_mem (List.getElem?_mem at_i))
    refine ⟨fun _ => fs ▸ named, fun completed => stopped ▸ cancelled ▸ ?_⟩
    rcases completes with same | noFile | signalled
    · exact inv.requested (same ▸ completed)
    · simp [FileSystem.stat, named] at noFile
    · exact signalled
  | readStale i =>
    simp only [Tailer.step, Option.bind_eq_some] at stepped
    obtain ⟨r, at_i, stale⟩ := stepped
    split at stale
    · cases stale
      exact ⟨fun _ => inv.named (List.ne_nil_of_mem (List.getElem?_mem at_i)), inv.requested⟩
    · cases stale

/-- A run that never removes the pathname keeps the invariant. -/
theorem run (inv : s.Requested) {as : List Action} (kept : Action.delete ∉ as)
    (ran : run pathname streamFromStart s as = some s') : s'.Requested := by
  induction as generalizing s with
  | nil => cases ran; exact inv
  | cons a as ih =>
    simp only [Tailer.run, Option.bind_eq_some] at ran
    obtain ⟨s₁, stepped, rest⟩ := ran
    exact ih (inv.step (fun removal => kept (removal ▸ List.mem_cons_self _ _)) stepped)
      (fun mem => kept (List.mem_cons_of_mem _ mem)) rest

end State.Requested

/-- On every run from `New` in which the pathname is never removed, whatever the appends,
rotations, truncations and `ESTALE` reads, a stream that reports `IsComplete` has been stopped
or cancelled: it never completes by itself while its file exists. -/
theorem completed_only_on_request {fs₀ : FileSystem} {as : List Action}
    (kept : Action.delete ∉ as) (ran : run pathname streamFromStart (State.init fs₀) as = some s)
    (completed : s.completed = true) : s.stopped = true ∨ s.cancelled = true :=
  ((State.Requested.init fs₀).run kept ran).requested completed

end Requested

/-- The log is read to its end, then `Stop` is called: the goroutine completes the stream at
its next sleep. -/
theorem completed_only_on_request_stopped :
    ∃ s, run "app.log" true (State.init ⟨[[0x61, 0x0A]], some 0⟩)
        [.runNew, .runNew, .advance 0, .advance 0, .advance 0, .stop, .advance 0] = some s ∧
      s.completed = true ∧ (s.stopped = true ∨ s.cancelled = true) :=
  have ran : run "app.log" true (State.init ⟨[[0x61, 0x0A]], some 0⟩)
      [.runNew, .runNew, .advance 0, .advance 0, .advance 0, .stop, .advance 0] = some _ := rfl
  ⟨_, ran, rfl, completed_only_on_request (by decide) ran rfl⟩

end SfProcessor.Tailer
