import SfProcessor.Falco.Views
import SfProcessor.Engine.Criterion

/-!
# Primitive predicates

The builders of `falco/operations.go`: the constant predicates, `All` and `Any`, and one
builder per operator of the policy language. Each fetches its mappers from the global
`Mapper` once and closes over them. The string operators compare with `eval`, which splits
both operands at `LISTSEP` and holds when some pair of pieces is related.
-/

namespace SfProcessor.Falco

open SfProcessor.Engine Strings Strconv

/-- `True` defines a functional predicate that always returns true. -/
def alwaysTrue : Criterion Record := ⟨fun _ => (true, none)⟩

/-- `False` defines a functional predicate that always returns false. -/
def alwaysFalse : Criterion Record := ⟨fun _ => (false, none)⟩

/-- `All` derives the conjuctive clause of all predicates in a slice of predicates. -/
def all (criteria : List (Criterion Record)) : Criterion Record :=
  criteria.foldl Criterion.and alwaysTrue

/-- `Any` derives the disjuntive clause of all predicates in a slice of predicates. -/
def any (criteria : List (Criterion Record)) : Criterion Record :=
  criteria.foldl Criterion.or alwaysFalse

/-- `operator` type. -/
abbrev Operator := String → String → Bool

/-- `operators` struct. -/
structure Operators where
  eq : Operator
  contains : Operator
  icontains : Operator
  startswith : Operator
  endswith : Operator

/-- `ops` defines boolean comparison operators over strings; `unicode` holds the case mapping
`strings.ToLower` reads. -/
def ops (unicode : Unicode) : Operators where
  eq l r := l == r
  contains l r := Strings.contains l r
  icontains l r := Strings.contains (toLower unicode l) (toLower unicode r)
  startswith l r := hasPrefix l r
  endswith l r := hasSuffix l r

/-- `eval` evaluates a boolean operator over two predicates: over the pieces of both operands
between list separators, whether some pair is related. -/
def eval (l r : String) (op : Operator) : Bool :=
  (splitList l).any fun lattr => (splitList r).any fun rattr => op lattr rattr

/-- Whether `reflect.ValueOf(v).IsZero()`. -/
def Value.isZero : Value → Bool
  | .int64 v => v == 0
  | .int32 v => v == 0
  | .str s => s == ""
  | .bool b => !b
  | .intArray a => a.isNone
  | .svcArray a => a.isNone

section Builders

variable (env : Env)

/-- `Exists` creates a criterion for an existential predicate. -/
def «exists» (attr : String) : Criterion Record :=
  let m := (Mapper env).map attr
  ⟨fun r => (!(m r).isZero, none)⟩

/-- The builders that compare the string views of their operands with `op`: `Eq`,
`StartsWith`, `EndsWith`, `Contains` and `IContains`. -/
def strCriterion (op : Operator) (lattr rattr : String) : Criterion Record :=
  let ml := (Mapper env).mapStr env.lib lattr
  let mr := (Mapper env).mapStr env.lib rattr
  ⟨fun r => (eval (ml r) (mr r) op, none)⟩

/-- The builders that compare the integer views of their operands: `Ge` and `Gt`. -/
def intCriterion (op : Int → Int → Bool) (lattr rattr : String) : Criterion Record :=
  let ml := (Mapper env).mapInt lattr
  let mr := (Mapper env).mapInt rattr
  ⟨fun r => (op (ml r) (mr r), none)⟩

/-- The builders that relate an attribute to the items of a list: `In` and `PMatch`. -/
def listCriterion (op : Operator) (attr : String) (list : List String) : Criterion Record :=
  let m := (Mapper env).mapStr env.lib attr
  ⟨fun r => (list.any fun v => eval (m r) v op, none)⟩

/-- `Eq` creates a criterion for an equality predicate. -/
def eq : String → String → Criterion Record := strCriterion env (ops env.lib.unicode).eq

/-- `NEq` creates a criterion for an inequality predicate. -/
def nEq (lattr rattr : String) : Criterion Record := (eq env lattr rattr).not

/-- `Ge` creates a criterion for a greater-or-equal predicate. -/
def ge : String → String → Criterion Record := intCriterion env (· ≥ ·)

/-- `Gt` creates a criterion for a greater-than predicate. -/
def gt : String → String → Criterion Record := intCriterion env (· > ·)

/-- `Le` creates a criterion for a lower-or-equal predicate. -/
def le (lattr rattr : String) : Criterion Record := (gt env lattr rattr).not

/-- `Lt` creates a criterion for a lower-than predicate. -/
def lt (lattr rattr : String) : Criterion Record := (ge env lattr rattr).not

/-- `StartsWith` creates a criterion for a starts-with predicate. -/
def startsWith : String → String → Criterion Record :=
  strCriterion env (ops env.lib.unicode).startswith

/-- `EndsWith` creates a criterion for a ends-with predicate. -/
def endsWith : String → String → Criterion Record :=
  strCriterion env (ops env.lib.unicode).endswith

/-- `Contains` creates a criterion for a contains predicate. -/
def contains : String → String → Criterion Record :=
  strCriterion env (ops env.lib.unicode).contains

/-- `IContains` creates a criterion for a case-insensitive contains predicate. -/
def iContains : String → String → Criterion Record :=
  strCriterion env (ops env.lib.unicode).icontains

/-- `In` creates a criterion for a list-inclusion predicate. -/
def «in» : String → List String → Criterion Record := listCriterion env (ops env.lib.unicode).eq

/-- `PMatch` creates a criterion for a list-pattern-matching predicate. -/
def pMatch : String → List String → Criterion Record :=
  listCriterion env (ops env.lib.unicode).contains

end Builders

/-- Every operand equals itself: `eval` compares the first pieces. -/
theorem eval_eq_self (unicode : Unicode) (s : String) : eval s s (ops unicode).eq = true := by
  obtain ⟨x, mem⟩ := List.exists_mem_of_ne_nil _ (splitList_ne_nil s)
  simp only [eval, List.any_eq_true]
  exact ⟨x, mem, x, mem, by simp [ops]⟩

/-- The string builders between an exported attribute of string type and a literal: neither
operand's path slice panics, and the criterion holds when some piece of the attribute's string
view and some piece of the literal without its quotes are related, both split at `LISTSEP`;
the whole values are compared only when neither holds a separator. -/
theorem strCriterion_eval_of_literal (env : Env) (op : Operator) {a : String}
    (scalar : ((getExportedMappers env.lib).lookup a).map FieldEntry.type ∈
      [some .mapStrVal, some .mapSpecialStr])
    (x : String) (r : Record)
    (unregistered : (Mapper env).isRegistered x = false) (noBracket : '[' ∉ x.data) :
    ((Mapper env).mapStrPath a).isSome ∧ ((Mapper env).mapStrPath x).isSome ∧
      (strCriterion env op a x).eval r =
        ((splitList ((Mapper env).mapStr env.lib a r)).any (fun l =>
          (splitList (trimBoundingQuotes x)).any (op l)), none) ∧
      (LISTSEP ∉ ((Mapper env).mapStr env.lib a r).data → LISTSEP ∉ (trimBoundingQuotes x).data →
        (strCriterion env op a x).eval r =
          (op ((Mapper env).mapStr env.lib a r) (trimBoundingQuotes x), none)) := by
  obtain ⟨entry, exported⟩ : ∃ entry, (getExportedMappers env.lib).lookup a = some entry := by
    rcases Option.eq_none_or_eq_some ((getExportedMappers env.lib).lookup a) with none | found
    · simp [none] at scalar
    · exact found
  have slices := (Mapper env).mapStrPath_of_not_mem (not_mem_of_exported env.lib exported)
  have literal := (Mapper env).mapStr_of_not_registered env.lib r unregistered noBracket
  refine ⟨by simp [slices], by simp [(Mapper env).mapStrPath_of_not_mem noBracket],
    by simp [strCriterion, eval, literal], fun whole_a whole_x => ?_⟩
  simp [strCriterion, eval, literal, splitList_of_not_mem whole_a, splitList_of_not_mem whole_x]

/-- A record whose string columns, the process executable among them, hold `/tmp/a,b`. -/
def commaExeRecord : Record := { (default : Record) with getStr := fun _ => "/tmp/a,b" }

theorem strCriterion_eval_of_literal_comma :
    ((getExportedMappers default).lookup "sf.proc.exe").map FieldEntry.type ∈
        [some .mapStrVal, some .mapSpecialStr] ∧
      (Mapper default).isRegistered "b" = false ∧ '[' ∉ "b".data ∧
      (((Mapper default).mapStrPath "sf.proc.exe").isSome ∧
        ((Mapper default).mapStrPath "b").isSome ∧
        (strCriterion default (ops default).eq "sf.proc.exe" "b").eval commaExeRecord =
          ((splitList ((Mapper default).mapStr (default : Env).lib "sf.proc.exe"
              commaExeRecord)).any
            (fun l => (splitList (trimBoundingQuotes "b")).any ((ops default).eq l)), none) ∧
        (LISTSEP ∉ ((Mapper default).mapStr (default : Env).lib "sf.proc.exe" commaExeRecord).data →
          LISTSEP ∉ (trimBoundingQuotes "b").data →
          (strCriterion default (ops default).eq "sf.proc.exe" "b").eval commaExeRecord =
            ((ops default).eq ((Mapper default).mapStr (default : Env).lib "sf.proc.exe"
              commaExeRecord) (trimBoundingQuotes "b"), none))) :=
  have scalar : ((getExportedMappers default).lookup "sf.proc.exe").map FieldEntry.type ∈
      [some .mapStrVal, some .mapSpecialStr] := by
    rw [lookup_proc_exe]
    exact List.mem_cons_self _ _
  ⟨scalar, rfl, by decide,
    strCriterion_eval_of_literal default (ops default).eq scalar "b" commaExeRecord rfl (by decide)⟩

/-- `sf.proc.exe`, a string attribute, equals the literal `b` on a record whose executable is
`/tmp/a,b`, although the whole value is not `b`. -/
theorem eq_of_comma_in_exe :
    ((getExportedMappers default).lookup "sf.proc.exe").map FieldEntry.type = some .mapStrVal ∧
      (Mapper default).isRegistered "b" = false ∧
      (eq default "sf.proc.exe" "b").eval commaExeRecord = (true, none) ∧
      (Mapper default).mapStr default "sf.proc.exe" commaExeRecord = "/tmp/a,b" ∧
      (ops default).eq "/tmp/a,b" (trimBoundingQuotes "b") = false :=
  ⟨rfl, rfl, rfl, rfl, rfl⟩

/-! ### `All` and `Any` of the combinators as they are -/

/-- A fold of `And` or `Or` from an error-free `false` seed stays `false` without error. -/
theorem foldl_combine_eval (op : Bool → Bool → Bool) (criteria : List (Criterion Record))
    (seed : Criterion Record) (r : Record) (ok : seed.eval r = (false, none)) :
    (criteria.foldl (fun acc c => acc.combine op c) seed).eval r = (false, none) := by
  induction criteria generalizing seed with
  | nil => exact ok
  | cons c cs ih => exact ih _ (Criterion.combine_eval_of_ok op (by rw [ok]))

/-- `Any` of any list of predicates is `false` on every record. -/
theorem any_eval (criteria : List (Criterion Record)) (r : Record) :
    (any criteria).eval r = (false, none) :=
  foldl_combine_eval _ criteria alwaysFalse r rfl

/-- `All` of a nonempty list of predicates is `false` on every record. -/
theorem all_eval (c : Criterion Record) (criteria : List (Criterion Record)) (r : Record) :
    (all (c :: criteria)).eval r = (false, none) :=
  foldl_combine_eval _ criteria _ r (Criterion.and_eval_of_ok rfl)

end SfProcessor.Falco
