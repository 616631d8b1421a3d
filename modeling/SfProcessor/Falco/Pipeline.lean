import SfProcessor.Falco.CompilerCorrectness
import SfProcessor.Engine.Order

/-!
# What the engine does with a compiled policy

In Go the compiler and the engine are one `PolicyInterpreter`: `Compile` fills its rules and
filters, and `Process` and the workers read them. Every condition `visitExpression` builds is
false on every record (`visitExpression_eval`), so every policy the compiler accepts is inert.

## Main result

`Compile_process_inert`: whatever the policy files, the front end and the mode, once `Compile`
has run on a new interpreter, `Process` forwards every record unchanged in enrich mode and
drops every record in alert mode: no filter drops a record and no rule matches one.

`Compile_workers_passthrough`: so the worker pool over a compiled policy is a pass-through in
enrich mode and a sink in alert mode. Under every interleaving of the `ProcessAsync` callers
and the workers, once `StopWorkers` has returned, `out` has been called exactly once on every
record in enrich mode, in the order of the calls with one worker, and never in alert mode.

## Proof strategy

`Inert` says every rule's and filter's condition is false without error on every record. Each
listener of the main pass adds a rule or a filter whose condition `visitExpression` built, or
none (`Inert.exitPolicy`); `compile` and `Compile` chain them. On an inert interpreter
`process_decision` reads the decision off the mode alone, and so does the workers' `emits`,
which the pool's accounting (`Pool.Inv`) and, with one worker, its order (`Pool.InOrder`)
filter the calls by.
-/

namespace SfProcessor.Falco

open SfProcessor.Engine

/-- Every rule's and every filter's condition is false, without error, on every record. -/
structure Inert (pi : PolicyInterpreter) : Prop where
  rules : ∀ rule ∈ pi.rules, ∀ r, rule.condition.eval r = (false, none)
  filters : ∀ f ∈ pi.filters, ∀ r, f.condition.eval r = (false, none)

namespace Inert

variable {env : Env} {pi pi' : PolicyInterpreter}

theorem exitDef (inert : Inert pi) (d : Decl) : Inert (pi.exitDef d) := by
  cases d <;> exact ⟨inert.rules, inert.filters⟩

/-- The pre-pass adds no rule and no filter. -/
theorem foldl_exitDef (inert : Inert pi) (decls : List Decl) :
    Inert (decls.foldl PolicyInterpreter.exitDef pi) := by
  induction decls generalizing pi with
  | nil => exact inert
  | cons d decls ih => exact ih (inert.exitDef d)

/-- A listener of the main pass adds a rule or a filter whose condition `visitExpression`
built, or changes no rule and no filter. -/
theorem exitPolicy (inert : Inert pi) {d : Decl} (exited : pi.exitPolicy env d = some pi') :
    Inert pi' := by
  cases d with
  | plistDecl | pmacroDecl => cases exited; exact inert.exitDef _
  | pfilterDecl id e enabled =>
    obtain ⟨c, visited, rfl⟩ := Option.map_eq_some'.mp exited
    refine ⟨inert.rules, fun f mem r => ?_⟩
    rcases List.mem_append.mp mem with old | new
    · exact inert.filters f old r
    · rw [List.mem_singleton.mp new]
      exact visitExpression_eval visited r
  | pruleDecl name desc e tags prefilter severity actions enabled =>
    obtain ⟨c, visited, rfl⟩ := Option.map_eq_some'.mp exited
    refine ⟨fun rule mem r => ?_, inert.filters⟩
    rcases List.mem_append.mp mem with old | new
    · exact inert.rules rule old r
    · rw [List.mem_singleton.mp new]
      exact visitExpression_eval visited r

theorem foldlM_exitPolicy (inert : Inert pi) {decls : List Decl}
    (walked : decls.foldlM (PolicyInterpreter.exitPolicy env) pi = some pi') : Inert pi' := by
  induction decls generalizing pi with
  | nil => cases walked; exact inert
  | cons d decls ih =>
    rw [List.foldlM_cons, Option.bind_eq_bind, Option.bind_eq_some] at walked
    obtain ⟨pi₁, exited, rest⟩ := walked
    exact ih (inert.exitPolicy exited) rest

theorem compile (inert : Inert pi) {source : Except String PolicyFile} {err : Option String}
    (compiled : pi.compile env source = some (pi', err)) : Inert pi' := by
  cases source with
  | error e => cases compiled; exact inert
  | ok file =>
    simp only [PolicyInterpreter.compile, Option.bind_eq_bind, Option.bind_eq_some] at compiled
    obtain ⟨pi₁, walked, compiled⟩ := compiled
    have walkedInert : Inert pi₁ := foldlM_exitPolicy (inert.foldl_exitDef file.decls) walked
    split at compiled <;> cases compiled <;> exact walkedInert

theorem Compile (inert : Inert pi) (frontEnd : String → Except String PolicyFile)
    {paths : List String} {err : Option String}
    (compiled : PolicyInterpreter.Compile env frontEnd pi paths = some (pi', err)) :
    Inert pi' := by
  induction paths generalizing pi with
  | nil => cases compiled; exact inert
  | cons path paths ih =>
    simp only [PolicyInterpreter.Compile, Option.bind_eq_bind, Option.bind_eq_some] at compiled
    obtain ⟨⟨pi₁, err₁⟩, first, rest⟩ := compiled
    have inert₁ := inert.compile first
    cases err₁ with
    | some e => cases rest; exact inert₁
    | none => exact ih inert₁ rest

/-- On an inert interpreter `Process` decides by the mode alone. -/
theorem process (inert : Inert pi) (mode : Mode) (hasOut : Bool) (concurrency : Nat)
    (r : Record) :
    (Engine.PolicyInterpreter.mk mode pi.rules pi.filters hasOut concurrency).process r =
      if mode = .enrichMode then some r else none := by
  have noMatch : ∀ c : Criterion Record, c.eval r = (false, none) → c.matches r = false :=
    fun c falseEval => by simp [Criterion.matches, falseEval]
  rw [Engine.PolicyInterpreter.process_decision]
  simp only
  have noFilter : ¬∃ f ∈ pi.filters, f.enabled = true ∧ f.condition.matches r = true :=
    fun ⟨f, mem, _, hit⟩ => by simp [noMatch _ (inert.filters f mem r)] at hit
  have noRule : ¬∃ rule ∈ pi.rules, rule.enabled = true ∧ rule.condition.matches r = true :=
    fun ⟨rule, mem, _, hit⟩ => by simp [noMatch _ (inert.rules rule mem r)] at hit
  simp only [noFilter, noRule, not_false_eq_true, true_and, or_false]

end Inert

/-- Whatever the policy files, the front end and the mode, once `Compile` has run on a new
interpreter, `Process` forwards every record unchanged in enrich mode and drops every record
in alert mode: no filter drops a record and no rule matches one, whether or not `Compile`
reported an error. -/
theorem Compile_process_inert (env : Env) (frontEnd : String → Except String PolicyFile)
    {paths : List String} {pi : PolicyInterpreter} {err : Option String}
    (compiled : PolicyInterpreter.Compile env frontEnd ⟨[], [], [], []⟩ paths = some (pi, err))
    (mode : Mode) (hasOut : Bool) (concurrency : Nat) (r : Record) :
    (Engine.PolicyInterpreter.mk mode pi.rules pi.filters hasOut concurrency).process r =
      if mode = .enrichMode then some r else none :=
  (Inert.Compile ⟨fun _ mem => absurd mem (List.not_mem_nil _),
    fun _ mem => absurd mem (List.not_mem_nil _)⟩ frontEnd compiled).process mode hasOut concurrency r

/-- A policy that drops `ls` and alerts on `bash`. -/
def bashPolicy : PolicyFile :=
  ⟨[], [], [.pfilterDecl "ls" [[.binary "sf.proc.exe" .eq "ls"]] none,
    .pruleDecl "bash" "a shell" [[.binary "sf.proc.exe" .eq "bash"]] none none none none none]⟩

/-- Compiled in alert mode, the policy drops every record, a record of `bash` among them. -/
theorem Compile_process_inert_bash :
    ∃ pi, PolicyInterpreter.Compile default (fun _ => .ok bashPolicy) ⟨[], [], [], []⟩
        ["bash.yaml"] = some (pi, none) ∧ pi.rules.length = 1 ∧ pi.filters.length = 1 ∧
      ∀ r, (Engine.PolicyInterpreter.mk .alertMode pi.rules pi.filters true 1).process r =
        if Mode.alertMode = .enrichMode then some r else none :=
  have compiled : PolicyInterpreter.Compile default (fun _ => .ok bashPolicy) ⟨[], [], [], []⟩
      ["bash.yaml"] = some (_, none) := rfl
  ⟨_, compiled, rfl, rfl, Compile_process_inert default _ compiled .alertMode true 1⟩

/-- Whatever the policy files and the front end, once `Compile` has run on a new interpreter,
the worker pool over its rules and filters, with an `out`, passes every record on in enrich
mode and none in alert mode: under every interleaving of the `ProcessAsync` callers and the
workers, once `StopWorkers` has returned, `out` has been called exactly once for each call in
enrich mode, in the order of the calls with one worker, and never in alert mode. -/
theorem Compile_workers_passthrough (env : Env) (frontEnd : String → Except String PolicyFile)
    {paths : List String} {pi : PolicyInterpreter} {err : Option String}
    (compiled : PolicyInterpreter.Compile env frontEnd ⟨[], [], [], []⟩ paths = some (pi, err))
    (mode : Mode) (concurrency : Nat) {s : Pool Record}
    (reach : Reachable ⟨mode, pi.rules, pi.filters, true, concurrency⟩ s) (stopped : s.Stopped) :
    s.outs.Perm (if mode = .enrichMode then s.calls.enum else []) ∧
      (concurrency = 1 → s.outs = if mode = .enrichMode then s.calls.enum else []) := by
  have inert := Inert.Compile ⟨fun _ mem => absurd mem (List.not_mem_nil _),
    fun _ mem => absurd mem (List.not_mem_nil _)⟩ frontEnd compiled
  have forwarded : ∀ calls : List (Nat × Record),
      calls.filter (fun call => (⟨mode, pi.rules, pi.filters, true, concurrency⟩ :
        Engine.PolicyInterpreter Record).emits call.2) =
        if mode = .enrichMode then calls else [] := fun calls => by
    simp only [emits_eq, inert.process]
    split <;> simp
  have inv := inv_of_reachable reach
  obtain ⟨channel, held⟩ := List.append_eq_nil.mp (pending_of_stopped _ inv stopped)
  refine ⟨?_, fun single => ?_⟩
  · have account := inv.accounted
    rwa [Pool.pending, channel, held, List.append_nil, List.filter_nil, List.append_nil,
      forwarded] at account
  · have inOrder := inOrder_of_reachable single reach
    rwa [Pool.InOrder, Pool.inFlight, channel, held, List.append_nil, List.filter_nil,
      List.append_nil, forwarded] at inOrder

/-- The policy that drops `ls` and alerts on `bash`, compiled for one enriching worker: a record
sent to the pool comes out once. -/
theorem Compile_workers_passthrough_bash :
    ∃ pi s, PolicyInterpreter.Compile default (fun _ => .ok bashPolicy) ⟨[], [], [], []⟩
        ["bash.yaml"] = some (pi, none) ∧
      Reachable (⟨.enrichMode, pi.rules, pi.filters, true, 1⟩ : Engine.PolicyInterpreter Record) s ∧
      s.Stopped ∧ s.outs.Perm (if Mode.enrichMode = .enrichMode then s.calls.enum else []) ∧
      (1 = 1 → s.outs = if Mode.enrichMode = .enrichMode then s.calls.enum else []) := by
  obtain ⟨pi, compiled⟩ : ∃ pi, PolicyInterpreter.Compile default (fun _ => .ok bashPolicy)
      ⟨[], [], [], []⟩ ["bash.yaml"] = some (pi, none) := ⟨_, rfl⟩
  have ran : run (⟨.enrichMode, pi.rules, pi.filters, true, 1⟩ : Engine.PolicyInterpreter Record)
      (startWorkers ⟨.enrichMode, pi.rules, pi.filters, true, 1⟩)
      [.processAsync default, .receive 0, .handle 0, .stopWorkers, .exit 0] = some _ := rfl
  have reach := reachable_run .start ran
  exact ⟨pi, _, compiled, reach, ⟨rfl, by simp [startWorkers]⟩,
    Compile_workers_passthrough default _ compiled .enrichMode 1 reach ⟨rfl, by simp [startWorkers]⟩⟩

end SfProcessor.Falco
