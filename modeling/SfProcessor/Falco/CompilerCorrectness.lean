import SfProcessor.Falco.Compiler

/-!
# What compiled policies mean

`denote` is the compositional meaning of a policy expression that the compiler is meant to
implement: an or-list holds when one of its and-lists does, an and-list when all its terms
do, `not` negates, a macro stands for its expression, `!=` negates `=`, the order operators
compare the integer views, and every other operator is the boolean of its builder.

## Main results

`visitExpression_eval`: whatever the expression and the tables, the compiled criterion is
false, without error, on every record. `All` and `Any` fold the combinators `And` and `Or`
from `True` and `False`, and on an error-free left operand both are false
(`Criterion.and_eval_of_ok`); `compile_self_eq_false` is the smallest expression that shows
the gap to `denote`.

`Compile_error_iff`: `Compile` fails exactly when a file cannot be read or its lexer or parser
reported an error. A reference to no macro is not among them; it compiles to `False`.
-/

namespace SfProcessor.Falco

open SfProcessor.Engine

section Semantics

variable (env : Env) (lists : GoMap (List String)) (macroCtxs : GoMap Expression) (r : Record)
  (denoteMacro : Expression → Option Bool)

/-- The meaning of `lop op rop` on `r`. -/
def denoteBinary (lop : String) (op : BinaryOperator) (rop : String) : Bool :=
  let intOf (attr : String) := (Mapper env).mapInt attr r
  match op with
  | .contains => ((contains env lop rop).eval r).1
  | .icontains => ((iContains env lop rop).eval r).1
  | .startswith => ((startsWith env lop rop).eval r).1
  | .endswith => ((endsWith env lop rop).eval r).1
  | .eq => ((eq env lop rop).eval r).1
  | .neq => !((eq env lop rop).eval r).1
  | .gt => intOf lop > intOf rop
  | .ge => intOf lop ≥ intOf rop
  | .lt => intOf lop < intOf rop
  | .le => intOf lop ≤ intOf rop

mutual

/-- The meaning of a term on `r`, with `denoteMacro` the meaning of a macro's expression;
none for a reference to no macro. -/
def denoteTermWith : Term → Option Bool
  | .var name =>
    match macroCtxs.lookup name with
    | some m => denoteMacro m
    | none => none
  | .not t => (denoteTermWith t).map (!·)
  | .unary lop .exists_ => some ((Falco.exists env lop).eval r).1
  | .binary lop op rop => some (denoteBinary env r lop op rop)
  | .paren e => denoteOrWith e
  | .inList lop atoms => (extractListFromAtoms lists atoms).map fun l => ((Falco.in env lop l).eval r).1
  | .pmatch lop atoms => (extractListFromAtoms lists atoms).map fun l => ((pMatch env lop l).eval r).1

def denoteOrWith : List (List Term) → Option Bool
  | [] => some false
  | andCtx :: rest => do
    let b ← denoteAndWith andCtx
    let bs ← denoteOrWith rest
    pure (b || bs)

def denoteAndWith : List Term → Option Bool
  | [] => some true
  | t :: rest => do
    let b ← denoteTermWith t
    let bs ← denoteAndWith rest
    pure (b && bs)

end

/-- `denote` with at most `fuel` nested macro expansions. -/
def denoteFuel : Nat → Expression → Option Bool
  | fuel, e =>
    let denoteMacro := match fuel with
      | 0 => fun _ => none
      | fuel + 1 => denoteFuel fuel
    denoteOrWith env lists macroCtxs r denoteMacro e

/-- The meaning of an expression on `r`. -/
def denote (e : Expression) : Option Bool := denoteFuel env lists macroCtxs r macroCtxs.length e

end Semantics

/-! ### Every compiled expression is false -/

section Compiled

variable {env : Env} {lists : GoMap (List String)} {macroCtxs : GoMap Expression}

theorem visitExpressionFuel_eval {fuel : Nat} {e : Expression} {c : Criterion Record}
    (compiled : visitExpressionFuel env lists macroCtxs fuel e = some c) (r : Record) :
    c.eval r = (false, none) := by
  unfold visitExpressionFuel at compiled
  obtain ⟨preds, -, rfl⟩ := Option.map_eq_some'.mp compiled
  exact any_eval preds r

/-- Whatever the expression and the tables, the criterion `visitExpression` builds is false,
without error, on every record. -/
theorem visitExpression_eval {e : Expression} {c : Criterion Record}
    (compiled : visitExpression env lists macroCtxs e = some c) (r : Record) :
    c.eval r = (false, none) :=
  visitExpressionFuel_eval compiled r

/-- The expression `a = a` holds of every record, and compiles to a criterion that is false
on every record. -/
theorem compile_self_eq_false (env : Env) (r : Record) (a : String) :
    denote env [] [] r [[.binary a .eq a]] = some true ∧
      (visitExpression env [] [] [[.binary a .eq a]]).map (·.eval r) = some (false, none) := by
  constructor
  · simp [denote, denoteFuel, denoteOrWith, denoteAndWith, denoteTermWith, denoteBinary, eq,
      strCriterion, eval_eq_self]
  · simp [visitExpression, visitExpressionFuel, visitOrWith, visitAndWith, visitTermWith,
      any_eval]

end Compiled

/-! ### When compilation fails -/

namespace PolicyInterpreter

section Errors

variable (env : Env)

/-- A reference to no macro compiles to `False`. -/
theorem visitTermWith_var_of_lookup_none {lists : GoMap (List String)}
    {macroCtxs : GoMap Expression} {visitMacro : Expression → Option (Criterion Record)}
    {name : String} (undefined : macroCtxs.lookup name = none) :
    visitTermWith env lists macroCtxs visitMacro (.var name) = some alwaysFalse := by
  simp [visitTermWith, undefined]

variable {env}

theorem compile_err_eq_none_iff {pi pi' : PolicyInterpreter} {source : Except String PolicyFile}
    {err : Option String} (compiled : pi.compile env source = some (pi', err)) :
    err = none ↔ ∃ file, source = .ok file ∧ file.lexerErrors = [] ∧ file.parserErrors = [] := by
  cases source with
  | error e =>
    simp only [compile, Option.some.injEq, Prod.mk.injEq] at compiled
    simp [← compiled.2]
  | ok file =>
    simp only [compile, Option.bind_eq_bind, Option.bind_eq_some] at compiled
    obtain ⟨pi₁, -, compiled⟩ := compiled
    split at compiled <;> cases compiled <;> simp_all

variable (env)

/-- `Compile` fails exactly when one of the files cannot be read or its lexer or parser
reported errors, whatever the terms of its conditions name; a reference to no macro compiles
to `False`. -/
theorem Compile_error_iff (frontEnd : String → Except String PolicyFile) (pi : PolicyInterpreter)
    {paths : List String} {pi' : PolicyInterpreter} {err : Option String}
    (compiled : Compile env frontEnd pi paths = some (pi', err)) :
    (err = none ↔ ∀ path ∈ paths, ∃ file, frontEnd path = .ok file ∧ file.lexerErrors = [] ∧
        file.parserErrors = []) ∧
      ∀ lists macroCtxs visitMacro name, macroCtxs.lookup name = none →
        visitTermWith env lists macroCtxs visitMacro (.var name) = some alwaysFalse := by
  refine ⟨?_, fun _ _ _ _ => visitTermWith_var_of_lookup_none env⟩
  induction paths generalizing pi with
  | nil => simp_all [Compile]
  | cons path paths ih =>
    simp only [Compile, Option.bind_eq_bind, Option.bind_eq_some] at compiled
    obtain ⟨⟨pi₁, err₁⟩, first, rest⟩ := compiled
    have first_ok := compile_err_eq_none_iff first
    rw [List.forall_mem_cons]
    cases err₁ with
    | some e => cases rest; simp_all
    | none => simpa [first_ok.1 rfl] using ih pi₁ rest

end Errors

/-- A policy whose one rule's condition references a macro the policy does not define. -/
def undefinedMacroPolicy : PolicyFile :=
  ⟨[], [], [.pruleDecl "r" "" [[.var "undefined"]] none none none none none]⟩

/-- The front end that reads `undefinedMacroPolicy` from every path. -/
def undefinedMacroFrontEnd (_path : String) : Except String PolicyFile := .ok undefinedMacroPolicy

theorem Compile_error_iff_undefined_macro :
    ∃ pi', Compile default undefinedMacroFrontEnd ⟨[], [], [], []⟩ ["policy.yaml"] =
        some (pi', none) ∧
      ((none : Option String) = none ↔ ∀ path ∈ ["policy.yaml"], ∃ file,
        undefinedMacroFrontEnd path = .ok file ∧ file.lexerErrors = [] ∧
          file.parserErrors = []) ∧
      ∀ lists macroCtxs visitMacro name, macroCtxs.lookup name = none →
        visitTermWith default lists macroCtxs visitMacro (.var name) = some alwaysFalse :=
  ⟨_, rfl, Compile_error_iff default undefinedMacroFrontEnd ⟨[], [], [], []⟩ rfl⟩

/-- `Compile` accepts the policy without error; its one rule is compiled, with a condition
that is false on the record it is evaluated on, and no macro is defined. -/
theorem Compile_ok_of_undefined_macro :
    ∃ pi', Compile default undefinedMacroFrontEnd ⟨[], [], [], []⟩ ["policy.yaml"] =
        some (pi', none) ∧ pi'.macroCtxs = [] ∧
      pi'.rules.map (fun rule => rule.condition.eval default) = [(false, none)] :=
  ⟨_, rfl, rfl, rfl⟩

end PolicyInterpreter

end SfProcessor.Falco
