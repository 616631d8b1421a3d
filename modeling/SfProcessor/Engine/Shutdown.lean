import SfProcessor.Engine.WorkerPool

/-!
# No schedule of the pool deadlocks

`StopWorkers` closes the channel and waits for every worker to return. A closed channel refuses
`ProcessAsync` and a second close, so from then on only the workers step, and each of their
steps (a receive, the handling of a record, the return) lowers `Pool.drainMeasure`. A worker
that has not returned can always take one of them. Before the close, no worker returns, so a
full channel always has a worker that can take its head.

## Main results

`stopWorkers_terminates`: from any state in which the channel is closed, every schedule of the
workers stops within `drainMeasure` steps, and a schedule that cannot go on has every worker
returned. `wg.Wait()` in `StopWorkers` returns under every schedule, and no schedule
deadlocks.

`processAsync_unblocked`: before `StopWorkers`, a `ProcessAsync` blocked on a full channel goes
through after at most a handle and a receive of worker 0; with `concurrency = 0` the channel
has neither room nor a receiver, and `ProcessAsync` blocks for ever.
-/

namespace SfProcessor.Engine

variable {R : Type}

/-- The steps a worker has left once the channel is closed and drained: one to return, and
one more while it holds a record. -/
def WorkerState.weight : WorkerState R → Nat
  | .receiving => 1
  | .processing _ _ => 2
  | .exited => 0

/-- The work left once the channel is closed: two per buffered record, which a worker must
receive and then handle, and the weight of every worker. -/
def Pool.drainMeasure (s : Pool R) : Nat :=
  2 * s.workerCh.length + (s.workers.map WorkerState.weight).foldr (· + ·) 0

theorem sum_weight_set {ws : List (WorkerState R)} {w : Nat} {v : WorkerState R}
    (found : ws[w]? = some v) (v' : WorkerState R) :
    ((ws.set w v').map WorkerState.weight).foldr (· + ·) 0 + v.weight =
      (ws.map WorkerState.weight).foldr (· + ·) 0 + v'.weight := by
  induction ws generalizing w with
  | nil => cases found
  | cons x xs ih =>
    cases w with
    | zero =>
      obtain rfl : x = v := by simpa using found
      simp only [List.set_cons_zero, List.map_cons, List.foldr_cons]
      omega
    | succ w =>
      have tail := ih (by simpa using found)
      simp only [List.set_cons_succ, List.map_cons, List.foldr_cons]
      omega

section Drain

variable (pi : PolicyInterpreter R) {s s' : Pool R}

/-- Once the channel is closed, every step keeps it closed and lowers the measure. -/
theorem drainMeasure_lt (closed : s.closed = true) {a : Action R}
    (stepped : step pi s a = some s') : s'.closed = true ∧ s'.drainMeasure < s.drainMeasure := by
  cases a with
  | processAsync r => simp [step_processAsync stepped |>.1] at closed
  | stopWorkers => simp [step_stopWorkers stepped |>.1] at closed
  | receive w =>
    obtain ⟨i, r, rest, found, channel, rfl⟩ := step_receive stepped
    have sum := sum_weight_set found (.processing i r)
    simp only [WorkerState.weight] at sum
    simp only [Pool.drainMeasure, channel, List.length_cons]
    exact ⟨closed, by omega⟩
  | handle w =>
    obtain ⟨i, r, found, rfl⟩ := step_handle stepped
    have sum := sum_weight_set found .receiving
    simp only [WorkerState.weight] at sum
    exact ⟨closed, by simp only [Pool.drainMeasure]; omega⟩
  | exit w =>
    obtain ⟨found, -, -, rfl⟩ := step_exit stepped
    have sum := sum_weight_set found .exited
    simp only [WorkerState.weight] at sum
    exact ⟨closed, by simp only [Pool.drainMeasure]; omega⟩

/-- With the channel closed, a worker that has not returned can step: it handles the record
it holds, receives the next buffered one, or returns. -/
theorem progress_of_closed (closed : s.closed = true) (running : ¬s.Stopped) :
    ∃ a s', step pi s a = some s' := by
  obtain ⟨v, mem, notExited⟩ : ∃ v ∈ s.workers, v ≠ .exited := by
    by_contra allExited
    push_neg at allExited
    exact running ⟨closed, allExited⟩
  obtain ⟨w, found⟩ := List.mem_iff_getElem?.mp mem
  cases v with
  | receiving =>
    cases channel : s.workerCh with
    | nil =>
      exact ⟨.exit w, Option.isSome_iff_exists.mp (by simp [step, found, closed, channel])⟩
    | cons p rest =>
      exact ⟨.receive w, Option.isSome_iff_exists.mp (by simp [step, found, channel])⟩
  | processing i r => exact ⟨.handle w, Option.isSome_iff_exists.mp (by simp [step, found])⟩
  | exited => exact absurd rfl notExited

/-- Along a run from a closed channel, the channel stays closed and every step spends a unit
of the measure. -/
theorem drainMeasure_run (closed : s.closed = true) {as : List (Action R)}
    (ran : run pi s as = some s') :
    s'.closed = true ∧ as.length + s'.drainMeasure ≤ s.drainMeasure := by
  induction as generalizing s with
  | nil => cases ran; exact ⟨closed, by simp⟩
  | cons a as ih =>
    simp only [run, Option.bind_eq_some] at ran
    obtain ⟨s₁, stepped, rest⟩ := ran
    obtain ⟨closed₁, lower⟩ := drainMeasure_lt pi closed stepped
    obtain ⟨closed', spent⟩ := ih closed₁ rest
    exact ⟨closed', by simp only [List.length_cons]; omega⟩

/-- Once `StopWorkers` has closed the channel, every schedule of the workers stops within
`drainMeasure` steps, and a schedule that cannot go on has every worker returned, so that
`wg.Wait()` returns: no schedule deadlocks. The model takes the `out` callback to return, as a
`handle` step is one step whatever `out` does. -/
theorem stopWorkers_terminates (closed : s.closed = true) :
    (∀ as s', run pi s as = some s' → as.length ≤ s.drainMeasure) ∧
      ∀ as s', run pi s as = some s' → (∀ a, step pi s' a = none) → s'.Stopped := by
  refine ⟨fun as s' ran => ?_, fun as s' ran stuck => ?_⟩
  · have spent := (drainMeasure_run pi closed ran).2
    omega
  · by_contra running
    obtain ⟨a, s'', stepped⟩ := progress_of_closed pi (drainMeasure_run pi closed ran).1 running
    simp [stuck a] at stepped

end Drain

/-- One worker, which holds the record of the first call while the second waits in the
channel. -/
theorem stopWorkers_terminates_one :
    let pi : PolicyInterpreter Nat := ⟨.enrichMode, [], [], true, 1⟩
    let s : Pool Nat := ⟨[(1, 6)], true, [.processing 0 5], [5, 6], []⟩
    (∀ as s', run pi s as = some s' → as.length ≤ s.drainMeasure) ∧
      ∀ as s', run pi s as = some s' → (∀ a, step pi s' a = none) → s'.Stopped :=
  stopWorkers_terminates _ rfl

/-! ### `ProcessAsync` before `StopWorkers` -/

section Open

variable {pi : PolicyInterpreter R} {s : Pool R}

/-- Before `StopWorkers`, a `ProcessAsync` caller waits only for the workers: when the channel
is full, worker 0 handles the record it holds, if it holds one, and receives the head of the
channel, after which the send goes through. With no worker the buffer has no room and no
receiver, and `ProcessAsync` blocks in every state. -/
theorem processAsync_unblocked (reach : Reachable pi s) (opened : s.closed = false) (r : R) :
    (0 < pi.concurrency →
      ∃ as, List.Sublist as [.handle 0, .receive 0] ∧ (run pi s (as ++ [.processAsync r])).isSome) ∧
    (pi.concurrency = 0 → step pi s (.processAsync r) = none) := by
  have inv := inv_of_reachable reach
  refine ⟨fun working => ?_, fun idle => by simp [step, idle]⟩
  by_cases room : s.workerCh.length < pi.concurrency
  · exact ⟨[], List.nil_sublist _, by simp [run, step, opened, room]⟩
  obtain ⟨⟨i, x⟩, rest, channel⟩ : ∃ p rest, s.workerCh = p :: rest :=
    List.exists_cons_of_ne_nil fun empty => room (by rw [empty]; exact working)
  have full : rest.length < pi.concurrency := by
    have bounded := inv.bounded
    rw [channel, List.length_cons] at bounded
    omega
  have worker : 0 < s.workers.length := inv.width ▸ working
  obtain ⟨v, found⟩ : ∃ v, s.workers[0]? = some v := ⟨_, List.getElem?_eq_getElem worker⟩
  cases v with
  | receiving =>
    exact ⟨[.receive 0], by simp, by simp [run, step, found, channel, opened, full]⟩
  | processing j y =>
    exact ⟨[.handle 0, .receive 0], List.Sublist.refl _,
      by simp [run, step, found, channel, opened, full, List.getElem?_set, worker]⟩
  | exited => exact absurd (inv.drained (List.getElem?_mem found)).1 (by simp [opened])

end Open

/-- One worker holds the first record and the second fills the channel: the worker's handle and
receive make room for a third. -/
theorem processAsync_unblocked_full :
    let pi : PolicyInterpreter Nat := ⟨.enrichMode, [], [], true, 1⟩
    let s : Pool Nat := ⟨[(1, 6)], false, [.processing 0 5], [5, 6], []⟩
    (0 < pi.concurrency →
      ∃ as, List.Sublist as [.handle 0, .receive 0] ∧ (run pi s (as ++ [.processAsync 7])).isSome) ∧
    (pi.concurrency = 0 → step pi s (.processAsync 7) = none) :=
  processAsync_unblocked
    (reachable_run .start (show run (⟨.enrichMode, [], [], true, 1⟩ : PolicyInterpreter Nat) _
      [.processAsync 5, .receive 0, .processAsync 6] = _ from rfl)) rfl 7

end SfProcessor.Engine
