import SfProcessor.Engine.Interpreter
import Mathlib.Data.List.Perm.Basic

/-!
# The worker pool

`StartWorkers`, `ProcessAsync`, `worker` and `StopWorkers` (`engine/interpreter.go`) as a
step function over the pool's state. Every goroutine's step is one `Action`; a run is any
interleaving of them, so a result about every reachable state holds for every schedule of the
`concurrency` workers.

## Main result

`stopWorkers_out_once`: once `StopWorkers` has closed the channel and every worker has
returned, `out` has been called exactly once for each call of `ProcessAsync` whose record
`Process` forwards, and for no other, and the pool can take no further step.

## Proof strategy

The invariant `Accounted` says that the `out` calls made so far, together with the forwarded
records still in the channel or in a worker's hands, are a permutation of the forwarded calls.
Each step moves at most one record between these places.
-/

namespace SfProcessor.Engine

open scoped List

variable {R : Type}

/-- Where one goroutine started by `StartWorkers` stands in `worker`: blocked in
`<-pi.workerCh`, holding the record of the `i`-th call of `ProcessAsync`, or returned after
`wg.Done()`. -/
inductive WorkerState (R : Type) where
  | receiving
  | processing (i : Nat) (r : R)
  | exited

/-- The record a worker holds, tagged with its call. -/
def WorkerState.held : WorkerState R → Option (Nat × R)
  | .processing i r => some (i, r)
  | _ => none

/-- The pool: the buffered channel `workerCh`, whether it is closed, and each worker. `calls`
and `outs` are ghost state: the records passed to `ProcessAsync`, and the records passed to
`out` tagged with their call. -/
structure Pool (R : Type) where
  workerCh : List (Nat × R)
  closed : Bool
  workers : List (WorkerState R)
  calls : List R
  outs : List (Nat × R)

/-- `StartWorkers`: `concurrency` workers and an empty channel of capacity `concurrency`. -/
def startWorkers (pi : PolicyInterpreter R) : Pool R :=
  ⟨[], false, List.replicate pi.concurrency .receiving, [], []⟩

/-- One step of one goroutine: `ProcessAsync(r)` completes its send, `StopWorkers` closes the
channel, or worker `w` receives a record, applies the filters and rules to it and calls `out`
or not, or finds the channel closed and drained and returns. -/
inductive Action (R : Type) where
  | processAsync (r : R)
  | stopWorkers
  | receive (w : Nat)
  | handle (w : Nat)
  | exit (w : Nat)

/-- Whether `worker` calls `out` on record `r`. -/
def PolicyInterpreter.emits (pi : PolicyInterpreter R) (r : R) : Bool :=
  if pi.evalFilters r then false
  else PolicyInterpreter.applyRules pi.rules r (pi.mode == .enrichMode) && pi.hasOut

/-- A step, or `none` when the goroutine cannot take it now: a send blocks on a full
channel, and sending on or closing a closed channel panics. -/
def step (pi : PolicyInterpreter R) (s : Pool R) : Action R → Option (Pool R)
  | .processAsync r =>
    if !s.closed && s.workerCh.length < pi.concurrency then
      some { s with workerCh := s.workerCh ++ [(s.calls.length, r)], calls := s.calls ++ [r] }
    else none
  | .stopWorkers => if s.closed then none else some { s with closed := true }
  | .receive w =>
    match s.workers[w]?, s.workerCh with
    | some .receiving, (i, r) :: rest =>
      some { s with workerCh := rest, workers := s.workers.set w (.processing i r) }
    | _, _ => none
  | .handle w =>
    match s.workers[w]? with
    | some (.processing i r) =>
      some { s with workers := s.workers.set w .receiving,
                    outs := if pi.emits r then s.outs ++ [(i, r)] else s.outs }
    | _ => none
  | .exit w =>
    match s.workers[w]? with
    | some .receiving =>
      if s.closed && s.workerCh.isEmpty then some { s with workers := s.workers.set w .exited }
      else none
    | _ => none

/-- The states some interleaving reaches from `StartWorkers`. -/
inductive Reachable (pi : PolicyInterpreter R) : Pool R → Prop
  | start : Reachable pi (startWorkers pi)
  | step {s s' : Pool R} (a : Action R) : Reachable pi s → step pi s a = some s' → Reachable pi s'

/-- Runs the actions of a list in order. -/
def run (pi : PolicyInterpreter R) : Pool R → List (Action R) → Option (Pool R)
  | s, [] => some s
  | s, a :: as => (step pi s a).bind (run pi · as)

theorem reachable_run {pi : PolicyInterpreter R} :
    ∀ {s s' : Pool R} {as : List (Action R)}, Reachable pi s → run pi s as = some s' →
      Reachable pi s'
  | _, _, [], reach, h => by cases h; exact reach
  | s, _, a :: as, reach, h => by
    simp only [run] at h
    cases next : step pi s a with
    | none => simp [next] at h
    | some s₁ => exact reachable_run (.step a reach next) (by simpa [next] using h)

/-- `StopWorkers` has returned: the channel is closed and `wg.Wait()` saw every worker done. -/
def Pool.Stopped (s : Pool R) : Prop := s.closed = true ∧ ∀ w ∈ s.workers, w = .exited

/-- The records in flight: buffered in the channel or held by a worker. -/
def Pool.pending (s : Pool R) : List (Nat × R) := s.workerCh ++ s.workers.filterMap WorkerState.held

theorem emits_eq (pi : PolicyInterpreter R) (r : R) :
    pi.emits r = ((pi.process r).isSome && pi.hasOut) := by
  unfold PolicyInterpreter.emits PolicyInterpreter.process
  cases pi.evalFilters r <;> cases PolicyInterpreter.applyRules pi.rules r (pi.mode == .enrichMode) <;> rfl

/-! ### Each step moves at most one record -/

/-- Replacing one worker's state changes the held records by that worker's alone. -/
theorem filterMap_set_perm (f : WorkerState R → Option (Nat × R)) :
    ∀ (ws : List (WorkerState R)) (w : Nat) {old : WorkerState R} (new : WorkerState R),
      ws[w]? = some old →
        (ws.set w new).filterMap f ++ (f old).toList ~ ws.filterMap f ++ (f new).toList
  | [], _, _, _, found => by simp at found
  | v :: ws, 0, _, new, found => by
    obtain rfl : v = _ := by simpa using found
    cases hv : f v <;> cases hn : f new <;>
      simp only [List.set_cons_zero, List.filterMap_cons, hv, hn, Option.toList_none,
        Option.toList_some, List.append_nil]
    · exact List.Perm.refl _
    · exact (List.perm_append_singleton _ _).symm
    · exact List.perm_append_singleton _ _
    · exact (List.perm_append_singleton _ (_ :: _)).trans ((List.perm_append_singleton _ _).cons _).symm
  | v :: ws, w + 1, _, new, found => by
    have tail := filterMap_set_perm f ws w new (by simpa using found)
    cases hv : f v <;> simp only [List.set_cons_succ, List.filterMap_cons, hv]
    · exact tail
    · exact tail.cons _

variable (pi : PolicyInterpreter R)

/-- The invariant of the pool. `accounted` is the point; the other fields say that no record
is left in the channel once a worker has returned. -/
structure Pool.Inv (s : Pool R) : Prop where
  accounted : s.outs ++ s.pending.filter (fun p => pi.emits p.2) ~
    s.calls.enum.filter (fun p => pi.emits p.2)
  width : s.workers.length = pi.concurrency
  bounded : s.workerCh.length ≤ pi.concurrency
  drained : .exited ∈ s.workers → s.closed = true ∧ s.workerCh = []

theorem inv_start : (startWorkers pi).Inv pi where
  accounted := by simp [startWorkers, Pool.pending, WorkerState.held]
  width := by simp [startWorkers]
  bounded := by simp [startWorkers]
  drained := by simp [startWorkers, List.mem_replicate]

/-! ### What each action can do -/

section Inversion

variable {pi} {s s' : Pool R}

theorem step_processAsync {r : R} (h : step pi s (.processAsync r) = some s') :
    s.closed = false ∧ s.workerCh.length < pi.concurrency ∧
      s' = { s with workerCh := s.workerCh ++ [(s.calls.length, r)], calls := s.calls ++ [r] } := by
  simp only [step] at h
  split at h
  · simp_all
  · cases h

theorem step_stopWorkers (h : step pi s .stopWorkers = some s') :
    s.closed = false ∧ s' = { s with closed := true } := by
  simp only [step] at h
  split at h
  · cases h
  · simp_all

theorem step_receive {w : Nat} (h : step pi s (.receive w) = some s') :
    ∃ i r rest, s.workers[w]? = some .receiving ∧ s.workerCh = (i, r) :: rest ∧
      s' = { s with workerCh := rest, workers := s.workers.set w (.processing i r) } := by
  simp only [step] at h
  split at h
  · rename_i i r rest found channel
    exact ⟨i, r, rest, found, channel, (Option.some.inj h).symm⟩
  · cases h

theorem step_handle {w : Nat} (h : step pi s (.handle w) = some s') :
    ∃ i r, s.workers[w]? = some (.processing i r) ∧
      s' = { s with workers := s.workers.set w .receiving,
                    outs := if pi.emits r then s.outs ++ [(i, r)] else s.outs } := by
  simp only [step] at h
  split at h
  · rename_i i r found
    exact ⟨i, r, found, (Option.some.inj h).symm⟩
  · cases h

theorem step_exit {w : Nat} (h : step pi s (.exit w) = some s') :
    s.workers[w]? = some .receiving ∧ s.closed = true ∧ s.workerCh = [] ∧
      s' = { s with workers := s.workers.set w .exited } := by
  simp only [step] at h
  split at h
  · rename_i found
    split at h
    · simp_all
    · cases h
  · cases h

end Inversion

/-! ### The invariant holds in every reachable state -/

section Preservation

variable {pi} {s s' : Pool R}

/-- Moving a record that is in flight, without handling it, keeps the account. -/
theorem Pool.Inv.accounted_of_perm (inv : s.Inv pi) {outs pending : List (Nat × R)}
    (same_outs : outs = s.outs) (moved : pending ~ s.pending) :
    outs ++ pending.filter (fun p => pi.emits p.2) ~ s.calls.enum.filter (fun p => pi.emits p.2) :=
  same_outs ▸ ((moved.filter _).append_left _).trans inv.accounted

/-- A worker that holds no record is replaced by one that holds none or the channel's head. -/
theorem held_set_idle {ws : List (WorkerState R)} {w : Nat} {old : WorkerState R}
    (new : WorkerState R) (found : ws[w]? = some old) (idle : old.held = none) :
    (ws.set w new).filterMap WorkerState.held ~ ws.filterMap WorkerState.held ++ new.held.toList := by
  simpa [idle] using filterMap_set_perm WorkerState.held ws w new found

theorem inv_processAsync {r : R} (inv : s.Inv pi) (h : step pi s (.processAsync r) = some s') :
    s'.Inv pi := by
  obtain ⟨open_, room, rfl⟩ := step_processAsync h
  refine ⟨?_, inv.width, by simp; omega, fun mem => absurd (inv.drained mem).1 (by simp [open_])⟩
  have sent : (s.calls ++ [r]).enum = s.calls.enum ++ [(s.calls.length, r)] := by
    simp [List.enum_append]
  have account := inv.accounted
  simp only [Pool.pending, List.filter_append] at account ⊢
  rw [sent, List.filter_append]
  refine List.Perm.trans ?_ (account.append_right _)
  simp only [List.append_assoc]
  exact .append_left _ (.append_left _ List.perm_append_comm)

theorem inv_stopWorkers (inv : s.Inv pi) (h : step pi s .stopWorkers = some s') : s'.Inv pi := by
  obtain ⟨-, rfl⟩ := step_stopWorkers h
  exact ⟨inv.accounted, inv.width, inv.bounded, fun mem => ⟨rfl, (inv.drained mem).2⟩⟩

theorem inv_receive {w : Nat} (inv : s.Inv pi) (h : step pi s (.receive w) = some s') :
    s'.Inv pi := by
  obtain ⟨i, r, rest, found, channel, rfl⟩ := step_receive h
  have busy := held_set_idle (.processing i r) found rfl
  refine ⟨inv.accounted_of_perm rfl ?_, by simp [inv.width], ?_, ?_⟩
  · simp only [Pool.pending, channel, WorkerState.held, Option.toList_some] at busy ⊢
    exact (busy.append_left rest).trans
      (by rw [← List.append_assoc]; exact List.perm_append_singleton _ _)
  · have bound := inv.bounded
    rw [channel, List.length_cons] at bound
    show rest.length ≤ pi.concurrency
    omega
  · intro mem
    obtain mem | eq := List.mem_or_eq_of_mem_set mem
    · simp [(inv.drained mem).2] at channel
    · cases eq

theorem inv_handle {w : Nat} (inv : s.Inv pi) (h : step pi s (.handle w) = some s') :
    s'.Inv pi := by
  obtain ⟨i, r, found, rfl⟩ := step_handle h
  have done := filterMap_set_perm WorkerState.held s.workers w .receiving found
  simp only [WorkerState.held, Option.toList_some, Option.toList_none, List.append_nil] at done
  have moved : s.workerCh ++ (s.workers.set w .receiving).filterMap WorkerState.held ++ [(i, r)] ~
      s.pending := by
    simpa [Pool.pending] using done.append_left s.workerCh
  refine ⟨?_, by simp [inv.width], inv.bounded, ?_⟩
  · have account := inv.accounted_of_perm rfl moved
    simp only [List.filter_append, List.filter_cons, List.filter_nil] at account
    simp only [Pool.pending, List.filter_append]
    by_cases emitted : pi.emits r
    · simp only [emitted, ite_true] at account ⊢
      rw [List.append_assoc]
      exact (List.perm_append_comm.append_left _).trans (by simpa only [List.append_assoc] using account)
    · simpa [emitted] using account
  · intro mem
    obtain mem | eq := List.mem_or_eq_of_mem_set mem
    · exact inv.drained mem
    · cases eq

theorem inv_exit {w : Nat} (inv : s.Inv pi) (h : step pi s (.exit w) = some s') : s'.Inv pi := by
  obtain ⟨found, closed, drained, rfl⟩ := step_exit h
  have same := held_set_idle .exited found rfl
  simp only [WorkerState.held, Option.toList_none, List.append_nil] at same
  exact ⟨inv.accounted_of_perm rfl (same.append_left _), by simp [inv.width], inv.bounded,
    fun _ => ⟨closed, drained⟩⟩

theorem inv_step {a : Action R} (inv : s.Inv pi) (h : step pi s a = some s') : s'.Inv pi := by
  cases a with
  | processAsync r => exact inv_processAsync inv h
  | stopWorkers => exact inv_stopWorkers inv h
  | receive w => exact inv_receive inv h
  | handle w => exact inv_handle inv h
  | exit w => exact inv_exit inv h

theorem inv_of_reachable (reach : Reachable pi s) : s.Inv pi := by
  induction reach with
  | start => exact inv_start pi
  | step _ _ h ih => exact inv_step ih h

end Preservation

/-! ### `StopWorkers` -/

/-- After `StopWorkers` returns no goroutine can step, so `out` is never called again. -/
theorem step_of_stopped {s : Pool R} (stopped : s.Stopped) (a : Action R) :
    step pi s a = none := by
  obtain ⟨closed, exited⟩ := stopped
  have gone : ∀ w : Nat, s.workers[w]? = none ∨ s.workers[w]? = some WorkerState.exited := fun w => by
    cases found : s.workers[w]? with
    | none => exact .inl rfl
    | some v => exact .inr (by rw [exited v (List.getElem?_mem found)])
  cases a with
  | processAsync r => simp [step, closed]
  | stopWorkers => simp [step, closed]
  | receive w => rcases gone w with found | found <;> simp [step, found]
  | handle w => rcases gone w with found | found <;> simp [step, found]
  | exit w => rcases gone w with found | found <;> simp [step, found]

/-- The records still in flight once `StopWorkers` has returned: none. -/
theorem pending_of_stopped {s : Pool R} (inv : s.Inv pi) (stopped : s.Stopped) :
    s.pending = [] := by
  obtain ⟨closed, exited⟩ := stopped
  have held : s.workers.filterMap WorkerState.held = [] :=
    List.filterMap_eq_nil_iff.mpr fun w mem => by rw [exited w mem]; rfl
  cases workers : s.workers with
  | nil =>
    have bound := inv.bounded
    rw [← inv.width, workers, List.length_nil, Nat.le_zero, List.length_eq_zero] at bound
    simp [Pool.pending, bound, held]
  | cons w ws =>
    have first := exited w (by simp [workers])
    have drained := (inv.drained (by simp [workers, first])).2
    simp [Pool.pending, drained, held]

/-- When `StopWorkers` returns, whatever the interleaving of the workers, `out` has been called
exactly once for each call `ProcessAsync(rᵢ)` with `Process(rᵢ) = rᵢ` and not at all for the
others, and no goroutine can call it any more. -/
theorem stopWorkers_out_once [DecidableEq R] (hasOut : pi.hasOut = true) {s : Pool R}
    (reach : Reachable pi s) (stopped : s.Stopped) :
    s.outs ~ s.calls.enum.filter (fun call => pi.process call.2 = some call.2) ∧
      ∀ a, step pi s a = none := by
  have inv := inv_of_reachable reach
  have account := inv.accounted
  rw [pending_of_stopped pi inv stopped, List.filter_nil, List.append_nil] at account
  refine ⟨account.trans (List.Perm.of_eq (List.filter_congr fun call _ => ?_)), step_of_stopped pi stopped⟩
  simp [emits_eq, hasOut, PolicyInterpreter.process_eq_some_iff_isSome]

/-- One worker of an enriching interpreter forwards the one record sent to it. -/
theorem stopWorkers_out_once_single :
    let pi : PolicyInterpreter Nat := ⟨.enrichMode, [], [], true, 1⟩
    let s : Pool Nat := ⟨[], true, [.exited], [5], [(0, 5)]⟩
    s.outs ~ s.calls.enum.filter (fun call => pi.process call.2 = some call.2) ∧
      ∀ a, step pi s a = none :=
  stopWorkers_out_once _ rfl
    (reachable_run .start
      (show run _ _ [.processAsync 5, .receive 0, .handle 0, .stopWorkers, .exit 0] = _ from rfl))
    ⟨rfl, by simp⟩

end SfProcessor.Engine
