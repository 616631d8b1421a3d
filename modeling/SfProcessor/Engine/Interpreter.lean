import SfProcessor.Engine.Criterion

/-!
# The interpreter's decision on one record

`Process` and `EvalFilters` (`engine/interpreter.go`) and the rule and filter records they
read (package `engine`). Filters are drop rules and are tried first; rules are additive, so
the rule loop only ever raises its `match` flag.
-/

namespace SfProcessor.Engine

/-- `Mode` of the policy interpreter. -/
inductive Mode where
  | alertMode
  | enrichMode
  deriving DecidableEq, Repr

/-- `Priority` denotes the type for rule priority. -/
inductive Priority where
  | low
  | medium
  | high
  deriving DecidableEq, Repr

/-- `String` returns the string representation of a priority instance. -/
def Priority.toString : Priority → String
  | .low => "low"
  | .medium => "medium"
  | .high => "high"

/-- `EnrichmentTag` denotes the type for enrichment tags. The compiler only ever stores one
value in it, the list of a rule's tags. -/
abbrev EnrichmentTag := List String

/-- `Rule` type. -/
structure Rule (R : Type) where
  name : String
  desc : String
  condition : Criterion R
  actions : List String
  tags : List EnrichmentTag
  priority : Priority
  prefilter : List String
  enabled : Bool

/-- `Filter` type. -/
structure Filter (R : Type) where
  name : String
  condition : Criterion R
  enabled : Bool

/-- The interpreter's fields that `Process` and the worker pool read. `hasOut` is whether the
callback `out` is non-nil. -/
structure PolicyInterpreter (R : Type) where
  mode : Mode
  rules : List (Rule R)
  filters : List (Filter R)
  hasOut : Bool
  concurrency : Nat

variable {R : Type}

/-- A condition in the boolean position of `rule.condition.Eval(*r)`. The call returns a
boolean and an error; a predicate that errs counts as false for matching (spec §7), so a match
is `true` with no error. -/
def Criterion.matches (c : Criterion R) (r : R) : Bool :=
  match c.eval r with
  | (true, none) => true
  | _ => false

namespace PolicyInterpreter

/-- `EvalFilters` executes compiled policy filters against record `r`. -/
def evalFilters (pi : PolicyInterpreter R) (r : R) : Bool := go pi.filters
where
  go : List (Filter R) → Bool
    | [] => false
    | f :: fs => if f.enabled && f.condition.matches r then true else go fs

/-- The rule loop of `Process` and of `worker`, from the initial value of `match`. -/
def applyRules (rules : List (Rule R)) (r : R) (matched : Bool) : Bool :=
  rules.foldl (fun m rule => if rule.enabled && rule.condition.matches r then true else m) matched

/-- `Process` executes all compiled policies against record `r`. -/
def process (pi : PolicyInterpreter R) (r : R) : Option R :=
  if pi.evalFilters r then none
  else if applyRules pi.rules r (pi.mode == .enrichMode) then some r
  else none

/-! ### The two loops -/

theorem evalFilters_go_iff (r : R) (filters : List (Filter R)) :
    evalFilters.go r filters = true ↔
      ∃ f ∈ filters, f.enabled = true ∧ f.condition.matches r = true := by
  induction filters with
  | nil => simp [evalFilters.go]
  | cons f fs ih =>
    by_cases hit : f.enabled && f.condition.matches r
    · simp_all [evalFilters.go]
    · simp_all [evalFilters.go]

/-- `EvalFilters` is true exactly when some enabled filter matches. -/
theorem evalFilters_iff (pi : PolicyInterpreter R) (r : R) :
    pi.evalFilters r = true ↔ ∃ f ∈ pi.filters, f.enabled = true ∧ f.condition.matches r = true :=
  evalFilters_go_iff r pi.filters

/-- The rule loop ends with `match` set exactly when it started set or some enabled rule
matches. -/
theorem applyRules_iff (rules : List (Rule R)) (r : R) (matched : Bool) :
    applyRules rules r matched = true ↔
      matched = true ∨ ∃ rule ∈ rules, rule.enabled = true ∧ rule.condition.matches r = true := by
  induction rules generalizing matched with
  | nil => simp [applyRules]
  | cons rule rest ih =>
    show applyRules rest r (if rule.enabled && rule.condition.matches r then true else matched) = true ↔ _
    rw [ih]
    cases he : rule.enabled <;> cases hm : rule.condition.matches r <;> simp [he, hm]

/-- The decision `Process` takes on a record, for every mode and every list of rules and
filters: the record is forwarded exactly when no enabled filter matches it and either the
interpreter enriches or some enabled rule matches it; otherwise `Process` returns nil. -/
theorem process_decision (pi : PolicyInterpreter R) (r : R) :
    pi.process r =
      if (¬∃ f ∈ pi.filters, f.enabled = true ∧ f.condition.matches r = true) ∧
          (pi.mode = .enrichMode ∨
            ∃ rule ∈ pi.rules, rule.enabled = true ∧ rule.condition.matches r = true)
      then some r else none := by
  have filters := evalFilters_iff pi r
  have rules := applyRules_iff pi.rules r (pi.mode == .enrichMode)
  rw [beq_iff_eq] at rules
  simp only [process, ← filters, ← rules]
  cases pi.evalFilters r <;> cases applyRules pi.rules r (pi.mode == .enrichMode) <;> rfl

/-- `Process` returns either its own argument or nil. -/
theorem process_eq_some_iff_isSome (pi : PolicyInterpreter R) (r : R) :
    pi.process r = some r ↔ (pi.process r).isSome := by
  rw [process_decision]
  split <;> simp

end PolicyInterpreter

end SfProcessor.Engine
