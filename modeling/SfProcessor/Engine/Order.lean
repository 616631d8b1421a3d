import SfProcessor.Engine.WorkerPool

/-!
# One worker keeps the order of the records

`ProcessAsync` sends on a buffered channel, which hands the records out in the order they were
sent. With one worker (`concurrency = 1`) nothing else takes a record off the channel, so the
records reach `out` in the order of the calls. With two workers it is not so: the second can
hand its record to `out` first.

## Main result

`single_worker_in_order`: with one worker, under every interleaving of the callers and the
worker, the records passed to `out` so far are the first of the forwarded calls, in the order of
the calls, and once `StopWorkers` has returned they are all of them.

## Proof strategy

The `out` calls, followed by the forwarded records in flight (the worker's, then the
channel's), are the forwarded calls in order (`Pool.InOrder`). A call appends to the channel,
a receive moves its head into the worker, and a handle moves the worker's record to `out` or
drops it with the filters, so each step keeps the list as it was or extends it with the call.
-/

namespace SfProcessor.Engine

variable {R : Type}

/-- The records in flight, in the order one worker passes them on: the record it holds, then
the channel's. -/
def Pool.inFlight (s : Pool R) : List (Nat × R) :=
  s.workers.filterMap WorkerState.held ++ s.workerCh

variable (pi : PolicyInterpreter R)

/-- The `out` calls so far, followed by the forwarded records in flight, are the forwarded calls
in the order they were made. -/
def Pool.InOrder (s : Pool R) : Prop :=
  s.outs ++ s.inFlight.filter (fun p => pi.emits p.2) =
    s.calls.enum.filter (fun p => pi.emits p.2)

section Order

variable {pi} {s s' : Pool R}

theorem inOrder_start : (startWorkers pi).InOrder pi := by
  simp [Pool.InOrder, Pool.inFlight, startWorkers, List.filterMap_replicate, WorkerState.held]

/-- Each step of the callers or of the one worker keeps the forwarded calls in order. -/
theorem inOrder_step (one : s.workers.length = 1) (inOrder : s.InOrder pi) {a : Action R}
    (stepped : step pi s a = some s') : s'.InOrder pi := by
  obtain ⟨v, single⟩ := List.length_eq_one.mp one
  have only : ∀ {w : Nat} {v' : WorkerState R}, s.workers[w]? = some v' → w = 0 ∧ v' = v :=
    fun {w v'} found => by
      rw [single] at found
      cases w with
      | zero => exact ⟨rfl, (Option.some.inj found).symm⟩
      | succ w => simp at found
  cases a with
  | processAsync r =>
    obtain ⟨-, -, rfl⟩ := step_processAsync stepped
    simp only [Pool.InOrder, Pool.inFlight, List.enum_append, List.enumFrom_singleton,
      List.filter_append, ← List.append_assoc] at inOrder ⊢
    rw [inOrder]
  | stopWorkers =>
    obtain ⟨-, rfl⟩ := step_stopWorkers stepped
    exact inOrder
  | receive w =>
    obtain ⟨i, r, rest, found, channel, rfl⟩ := step_receive stepped
    obtain ⟨rfl, rfl⟩ := only found
    have same : s.inFlight = (i, r) :: rest := by
      simp [Pool.inFlight, single, channel, WorkerState.held]
    simpa only [Pool.InOrder, Pool.inFlight, single, List.set_cons_zero, List.filterMap_cons,
      List.filterMap_nil, WorkerState.held, List.singleton_append, ← same] using inOrder
  | handle w =>
    obtain ⟨i, r, found, rfl⟩ := step_handle stepped
    obtain ⟨rfl, rfl⟩ := only found
    simp only [Pool.InOrder, Pool.inFlight, single, List.set_cons_zero, List.filterMap_cons,
      List.filterMap_nil, WorkerState.held, List.nil_append, List.singleton_append,
      List.filter_cons] at inOrder ⊢
    split_ifs at inOrder ⊢ <;> simpa using inOrder
  | exit w =>
    obtain ⟨found, -, -, rfl⟩ := step_exit stepped
    obtain ⟨rfl, rfl⟩ := only found
    simpa only [Pool.InOrder, Pool.inFlight, single, List.set_cons_zero, List.filterMap_cons,
      List.filterMap_nil, WorkerState.held] using inOrder

theorem inOrder_of_reachable (single : pi.concurrency = 1) (reach : Reachable pi s) :
    s.InOrder pi := by
  induction reach with
  | start => exact inOrder_start
  | step a reach stepped inOrder =>
    exact inOrder_step ((inv_of_reachable reach).width.trans single) inOrder stepped

/-- With one worker, under every interleaving of the `ProcessAsync` callers, `StopWorkers` and
the worker, `out` has been called on the first of the forwarded calls, in the order of the
calls, and once `StopWorkers` has returned on all of them. -/
theorem single_worker_in_order (single : pi.concurrency = 1) (reach : Reachable pi s) :
    s.outs <+: s.calls.enum.filter (fun call => pi.emits call.2) ∧
      (s.Stopped → s.outs = s.calls.enum.filter (fun call => pi.emits call.2)) := by
  have inOrder := inOrder_of_reachable single reach
  refine ⟨⟨_, inOrder⟩, fun stopped => ?_⟩
  have pending := pending_of_stopped pi (inv_of_reachable reach) stopped
  rw [Pool.pending, List.append_eq_nil] at pending
  rw [← inOrder, Pool.inFlight, pending.1, pending.2]
  simp

/-- Two workers: the record of the second call reaches `out` first. -/
example :
    (run (⟨.enrichMode, [], [], true, 2⟩ : PolicyInterpreter Nat)
      (startWorkers ⟨.enrichMode, [], [], true, 2⟩)
      [.processAsync 5, .processAsync 6, .receive 0, .receive 1, .handle 1, .handle 0]).map
        Pool.outs = some [(1, 6), (0, 5)] := rfl

end Order

/-- One worker handles two calls, the second sent while it holds the first. -/
theorem single_worker_in_order_two :
    let pi : PolicyInterpreter Nat := ⟨.enrichMode, [], [], true, 1⟩
    let s : Pool Nat := ⟨[], true, [.exited], [5, 6], [(0, 5), (1, 6)]⟩
    s.outs <+: s.calls.enum.filter (fun call => pi.emits call.2) ∧
      (s.Stopped → s.outs = s.calls.enum.filter (fun call => pi.emits call.2)) :=
  single_worker_in_order rfl
    (reachable_run .start
      (show run _ _ [.processAsync 5, .receive 0, .processAsync 6, .handle 0, .receive 0,
        .handle 0, .stopWorkers, .exit 0] = _ from rfl))

end SfProcessor.Engine
