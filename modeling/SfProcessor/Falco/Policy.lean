import SfProcessor.Falco.Operations

/-!
# Policies as the parser hands them over

The parse tree of a policy file (`lang/Sfpl.g4`, an ANTLR grammar outside the sources, as the
spec gives it), the compiler's tables of lists and macros, and the list literal helpers
`extractList` and `reduceList` (package `falco`).
-/

namespace SfProcessor.Falco

open Strings

/-- `unary_operator`. -/
inductive UnaryOperator where
  | exists_
  deriving DecidableEq, Repr

/-- `binary_operator`. -/
inductive BinaryOperator where
  | contains | icontains | startswith | endswith | eq | neq | gt | ge | lt | le
  deriving DecidableEq, Repr

/-- `term`, with each atom as its text; `var` is a `variable`, a reference to a macro. An
`expression` is an `or_expression` of `and_expression`s of terms. -/
inductive Term where
  | var (name : String)
  | not (t : Term)
  | unary (lop : String) (op : UnaryOperator)
  | binary (lop : String) (op : BinaryOperator) (rop : String)
  | paren (e : List (List Term))
  | inList (lop : String) (atoms : List String)
  | pmatch (lop : String) (atoms : List String)
  deriving Repr

/-- `expression`: a disjunction of conjunctions of terms. -/
abbrev Expression := List (List Term)

/-- The declarations of a policy file, each with the texts of its optional clauses. -/
inductive Decl where
  | plistDecl (id : String) (items : Option String)
  | pmacroDecl (id : String) (expression : Expression)
  | pfilterDecl (id : String) (expression : Expression) (enabled : Option String)
  | pruleDecl (name desc : String) (expression : Expression)
      (tags prefilter severity actions enabled : Option String)

/-- What the front end yields for one policy file: the errors its lexer and parser listeners
collected, and the declarations of the parse tree. -/
structure PolicyFile where
  lexerErrors : List String
  parserErrors : List String
  decls : List Decl

/-- The split of `cs` around its last `]`. -/
def splitAtLastBracket : List Char → Option (List Char × List Char)
  | [] => none
  | c :: cs =>
    match splitAtLastBracket cs with
    | some (before, after) => some (c :: before, after)
    | none => if c == ']' then some ([], cs) else none

/-- `itemsre.ReplaceAllString(str, "$2")` for `itemsre = (^\[)(.*)(\]$?)`: a leading `[`,
the longest run of the first line after it that a `]` follows, and that `]`, are replaced by
the run. -/
def itemsreReplace (str : String) : String :=
  match str.data with
  | '[' :: rest =>
    match splitAtLastBracket (rest.takeWhile (· != '\n')) with
    | some (run, after) => String.mk (run ++ after ++ rest.dropWhile (· != '\n'))
    | none => str
  | _ => str

/-- `extractList`: the items of a list literal's text. -/
def extractList (str : String) : List String :=
  (splitList (itemsreReplace str)).map trimBoundingQuotes

/-- A Go map from names, as an association list whose first entry for a key wins. -/
abbrev GoMap (α : Type) := List (String × α)

section Lists

variable (lists : GoMap (List String))

/-- `reduceList` with at most `fuel` nested list expansions; `none` when they run out. -/
def reduceListFuel : Nat → String → Option (List String)
  | fuel, sl =>
    match lists.lookup sl, fuel with
    | some l, fuel + 1 => (l.mapM (reduceListFuel fuel)).map List.flatten
    | some _, 0 => none
    | none, _ => some [trimBoundingQuotes sl]

section Equations

variable {lists} {s : String}

theorem reduceListFuel_of_lookup_none (fuel : Nat) (undefined : lists.lookup s = none) :
    reduceListFuel lists fuel s = some [trimBoundingQuotes s] := by
  simp [reduceListFuel, undefined]

theorem reduceListFuel_zero {items : List String} (defined : lists.lookup s = some items) :
    reduceListFuel lists 0 s = none := by
  simp [reduceListFuel, defined]

theorem reduceListFuel_succ {items : List String} (fuel : Nat)
    (defined : lists.lookup s = some items) :
    reduceListFuel lists (fuel + 1) s =
      (items.mapM (reduceListFuel lists fuel)).map List.flatten := by
  simp [reduceListFuel, defined]

end Equations

/-- `reduceList` flattens list references recursively. Go recurses without bound; a chain of
more expansions than there are table entries repeats a list, and from there the recursion
never ends, so `none` is the non-terminating call. -/
def reduceList (sl : String) : Option (List String) := reduceListFuel lists lists.length sl

/-- `extractListFromAtoms`: the concatenation of `reduceList` over the atoms. -/
def extractListFromAtoms (atoms : List String) : Option (List String) :=
  (atoms.mapM (reduceList lists)).map List.flatten

end Lists

end SfProcessor.Falco
