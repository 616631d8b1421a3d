import SfProcessor.Falco.Policy
import SfProcessor.Engine.Interpreter

/-!
# The policy compiler

`visitTerm` and `visitExpression`, the parse tree listeners, `compile` and `Compile`
(package `falco`). The compiler splices macros in by visiting their expressions where
they are referenced, so its recursion follows macro references; `visitExpressionFuel` bounds
that recursion, and `none` is the call that never returns.
-/

namespace SfProcessor.Falco

open SfProcessor.Engine

/-- The compiler's state (`falco.PolicyInterpreter`): the compiled rules and filters, and the
lists and macros the pre-pass collects. -/
structure PolicyInterpreter where
  rules : List (Rule Record)
  filters : List (SfProcessor.Engine.Filter Record)
  lists : GoMap (List String)
  macroCtxs : GoMap Expression

section Visit

variable (env : Env) (lists : GoMap (List String)) (macroCtxs : GoMap Expression)
  (visitMacro : Expression → Option (Criterion Record))

mutual

/-- `visitTerm`, with `visitMacro` the visit of a referenced macro's expression. A reference
to no macro is logged as unrecognized and compiles to `False`. -/
def visitTermWith : Term → Option (Criterion Record)
  | .var name =>
    match macroCtxs.lookup name with
    | some m => visitMacro m
    | none => some alwaysFalse
  | .not t => (visitTermWith t).map Criterion.not
  | .unary lop .exists_ => some (Falco.exists env lop)
  | .binary lop op rop => some <|
    match op with
    | .contains => contains env lop rop
    | .icontains => iContains env lop rop
    | .startswith => startsWith env lop rop
    | .endswith => endsWith env lop rop
    | .eq => eq env lop rop
    | .neq => nEq env lop rop
    | .gt => gt env lop rop
    | .ge => ge env lop rop
    | .lt => lt env lop rop
    | .le => le env lop rop
  | .paren e => (visitOrWith e).map any
  | .inList lop atoms => (extractListFromAtoms lists atoms).map (Falco.in env lop)
  | .pmatch lop atoms => (extractListFromAtoms lists atoms).map (pMatch env lop)

/-- The loop of `visitExpression` over the `and_expression`s, each compiled to `All` of its
terms. -/
def visitOrWith : List (List Term) → Option (List (Criterion Record))
  | [] => some []
  | andCtx :: rest => do
    let andPreds ← visitAndWith andCtx
    let orPreds ← visitOrWith rest
    pure (all andPreds :: orPreds)

/-- The loop of `visitExpression` over the terms of an `and_expression`. -/
def visitAndWith : List Term → Option (List (Criterion Record))
  | [] => some []
  | t :: rest => do
    let c ← visitTermWith t
    let cs ← visitAndWith rest
    pure (c :: cs)

end

end Visit

section Compile

variable (env : Env)

/-- `visitExpression` with at most `fuel` nested macro expansions. -/
def visitExpressionFuel (lists : GoMap (List String)) (macroCtxs : GoMap Expression) :
    Nat → Expression → Option (Criterion Record)
  | fuel, e =>
    let visitMacro := match fuel with
      | 0 => fun _ => none
      | fuel + 1 => visitExpressionFuel lists macroCtxs fuel
    (visitOrWith env lists macroCtxs visitMacro e).map any

/-- `visitExpression`: `Any` of the `All`s of the terms. Go recurses into macros without
bound; a chain of more expansions than there are macros repeats a macro, and from there the
recursion never ends. -/
def visitExpression (lists : GoMap (List String)) (macroCtxs : GoMap Expression)
    (e : Expression) : Option (Criterion Record) :=
  visitExpressionFuel env lists macroCtxs macroCtxs.length e

/-- Modelled from the spec: the Falco severities `FPriority*` and the priority each maps to. -/
def fPriorities : List (String × Priority) :=
  [("debug", .low), ("info", .low), ("informational", .low), ("notice", .low),
   ("warning", .medium), ("error", .high), ("critical", .high), ("emergency", .high)]

/-- `getPriority`: the priority a severity clause names, `Low` when it names none; `unicode`
holds the case mapping `strings.ToLower` reads. -/
def getPriority (unicode : Strings.Unicode) (severity : Option String) : Priority :=
  match severity with
  | none => .low
  | some p =>
    let p := Strings.toLower unicode p
    if p = Priority.low.toString then .low
    else if p = Priority.medium.toString then .medium
    else if p = Priority.high.toString then .high
    else (fPriorities.lookup p).getD .low

/-- `getEnabledFlag`: the boolean an `enabled` clause spells, `true` when it spells none. -/
def getEnabledFlag (text : String) : Bool :=
  (Strconv.parseBool (trimBoundingQuotes text)).getD true

/-- `getTags`: one tag holding the list of the tags clause. -/
def getTags (tags : Option String) : List EnrichmentTag :=
  match tags with
  | some text => [extractList text]
  | none => []

/-- `getPrefilter` and `getActions`: the items of the clause. -/
def getClauseList (clause : Option String) : List String :=
  match clause with
  | some text => extractList text
  | none => []

namespace PolicyInterpreter

/-- `ExitPlist` is called when production list is exited. -/
def exitPlist (pi : PolicyInterpreter) (id : String) (items : Option String) :
    PolicyInterpreter :=
  { pi with lists := (id, (items.map extractList).getD []) :: pi.lists }

/-- `ExitPmacro` is called when production macro is exited. -/
def exitPmacro (pi : PolicyInterpreter) (id : String) (e : Expression) : PolicyInterpreter :=
  { pi with macroCtxs := (id, e) :: pi.macroCtxs }

/-- `ExitPfilter` is called when production filter is exited. -/
def exitPfilter (pi : PolicyInterpreter) (id : String) (e : Expression)
    (enabled : Option String) : Option PolicyInterpreter :=
  (visitExpression env pi.lists pi.macroCtxs e).map fun condition =>
    { pi with filters := pi.filters ++
        [{ name := id, condition, enabled := enabled.all getEnabledFlag }] }

/-- `ExitPrule`, the listener of a rule. -/
def exitPrule (pi : PolicyInterpreter) (name desc : String) (e : Expression)
    (tags prefilter severity actions enabled : Option String) : Option PolicyInterpreter :=
  (visitExpression env pi.lists pi.macroCtxs e).map fun condition =>
    { pi with rules := pi.rules ++
        [{ name, desc, condition, actions := getClauseList actions, tags := getTags tags,
           priority := getPriority env.lib.unicode severity,
           prefilter := getClauseList prefilter, enabled := enabled.all getEnabledFlag }] }

/-- The walk over `p.Defs()`: only `ExitPlist` and `ExitPmacro` fire. -/
def exitDef (pi : PolicyInterpreter) : Decl → PolicyInterpreter
  | .plistDecl id items => pi.exitPlist id items
  | .pmacroDecl id e => pi.exitPmacro id e
  | _ => pi

/-- The walk over `p.Policy()`: `ExitPlist`, `ExitPmacro`, `ExitPfilter` and `ExitPrule`. -/
def exitPolicy (pi : PolicyInterpreter) : Decl → Option PolicyInterpreter
  | .pfilterDecl id e enabled => pi.exitPfilter env id e enabled
  | .pruleDecl name desc e tags prefilter severity actions enabled =>
    pi.exitPrule env name desc e tags prefilter severity actions enabled
  | d => some (pi.exitDef d)

/-- The message `compile` fails with when the lexer or the parser reported errors. -/
def compileErrorMessage : String :=
  "errors found during compilation of policies. check logs for detail"

/-- `compile` parses and interprets an input policy; `source` is the file as the front end
read and parsed it, or the error reading it. The interpreter keeps what the walks added even
when compilation fails. -/
def compile (pi : PolicyInterpreter) (source : Except String PolicyFile) :
    Option (PolicyInterpreter × Option String) :=
  match source with
  | .error err => some (pi, some err)
  | .ok file => do
    let pi := file.decls.foldl exitDef pi
    let pi ← file.decls.foldlM (exitPolicy env) pi
    if file.lexerErrors.isEmpty && file.parserErrors.isEmpty then pure (pi, none)
    else pure (pi, some compileErrorMessage)

/-- `Compile` parses and interprets a set of input policies, stopping at the first that
fails; `frontEnd` reads and parses a path. -/
def Compile (frontEnd : String → Except String PolicyFile) (pi : PolicyInterpreter) :
    List String → Option (PolicyInterpreter × Option String)
  | [] => some (pi, none)
  | path :: paths => do
    let (pi, err) ← pi.compile env (frontEnd path)
    match err with
    | some err => pure (pi, some err)
    | none => Compile frontEnd pi paths

end PolicyInterpreter

end Compile

end SfProcessor.Falco
