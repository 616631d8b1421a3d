import Mathlib.Data.List.Infix
import Mathlib.Data.List.Basic

/-!
# The string functions the mapper and the compiler call

The parts of Go's `strings` and `strconv` packages the policy engine uses, over Lean strings,
together with the engine's `trimBoundingQuotes`, `cut` and `LISTSEP`. Go strings are byte
strings; here they are strings of characters, which agree with Go's functions on valid UTF-8.
-/

namespace SfProcessor.Falco

/-- Modelled from the spec: `LISTSEP`, the list separator `,` that list-valued attributes
and list literals are joined with. -/
def LISTSEP : Char := ','

namespace Strings

/-- `strings.Split(s, LISTSEP)`: the pieces between separators, at least one. -/
def splitList (s : String) : List String := (s.data.splitOn LISTSEP).map String.mk

/-- `strings.Contains`. -/
def contains (s substr : String) : Bool := decide (substr.data <:+: s.data)

/-- `strings.HasPrefix`. -/
def hasPrefix (s pre : String) : Bool := decide (pre.data <+: s.data)

/-- `strings.HasSuffix`. -/
def hasSuffix (s suf : String) : Bool := decide (suf.data <:+ s.data)

/-- Go's `unicode.ToLower`, the simple lowercase mapping of the Unicode tables, which are not
part of this repository. What `strings.ToLower` relies on is that it lowers ASCII as the fast
path does. -/
structure Unicode where
  toLower : Char → Char
  toLower_ascii : ∀ c : Char, c.toNat < 128 → toLower c = c.toLower

/-- The ASCII mapping, which agrees with `unicode.ToLower` on ASCII only. -/
instance : Inhabited Unicode := ⟨⟨Char.toLower, fun _ _ => rfl⟩⟩

/-- `strings.ToLower`: a string of ASCII characters takes the fast path that lowers `A`..`Z`;
any other is mapped rune by rune through `unicode.ToLower`. -/
def toLower (unicode : Unicode) (s : String) : String :=
  if s.data.all (·.toNat < 128) then ⟨s.data.map Char.toLower⟩ else ⟨s.data.map unicode.toLower⟩

/-- The ASCII fast path computes what the rune map does. -/
theorem toLower_eq_map (unicode : Unicode) (s : String) :
    toLower unicode s = ⟨s.data.map unicode.toLower⟩ := by
  unfold toLower
  split
  next ascii =>
    refine congrArg String.mk (List.map_congr_left fun c mem => ?_)
    exact (unicode.toLower_ascii c (by simpa using List.all_eq_true.mp ascii c mem)).symm
  next => rfl

/-- `strings.Join(parts, LISTSEP)`. -/
def joinList (parts : List String) : String := String.intercalate (String.singleton LISTSEP) parts

theorem splitList_ne_nil (s : String) : splitList s ≠ [] := by
  simp [splitList, List.splitOn, List.splitOnP_ne_nil]

theorem data_intercalate_go (acc s : String) (ts : List String) :
    (String.intercalate.go acc s ts).data =
      acc.data ++ (ts.map fun t => s.data ++ t.data).flatten := by
  induction ts generalizing acc with
  | nil => simp [String.intercalate.go]
  | cons t ts ih => simp [String.intercalate.go, ih]

theorem data_joinList (part : String) (parts : List String) :
    (joinList (part :: parts)).data =
      part.data ++ (parts.map fun p => LISTSEP :: p.data).flatten := by
  simp [joinList, String.intercalate, data_intercalate_go, String.singleton]

/-- Splitting undoes joining when no part holds the separator. -/
theorem splitList_joinList {parts : List String} (nonempty : parts ≠ [])
    (noSep : ∀ p ∈ parts, LISTSEP ∉ p.data) : splitList (joinList parts) = parts := by
  obtain ⟨part, parts, rfl⟩ := List.exists_cons_of_ne_nil nonempty
  have joined : (joinList (part :: parts)).data =
      [LISTSEP].intercalate ((part :: parts).map String.data) := by
    rw [data_joinList]
    clear noSep nonempty
    induction parts generalizing part with
    | nil => simp [List.intercalate]
    | cons p ps ih =>
      simp only [List.map_cons, List.intercalate, List.intersperse_cons_cons,
        List.flatten] at ih ⊢
      simp [← ih]
  simp only [splitList, joined]
  rw [List.splitOn_intercalate _ _ (by simpa using noSep) (by simp)]
  simp [Function.comp_def]

/-- A character that is no separator is in a join only if it is in a part. -/
theorem not_mem_joinList {c : Char} {parts : List String} (notSep : c ≠ LISTSEP)
    (absent : ∀ p ∈ parts, c ∉ p.data) : c ∉ (joinList parts).data := by
  cases parts with
  | nil => simp [joinList, String.intercalate]
  | cons part parts =>
    simp only [data_joinList, List.mem_append, List.mem_flatten, List.mem_map, not_or]
    refine ⟨absent part (List.mem_cons_self _ _), ?_⟩
    rintro ⟨_, ⟨p, mem, rfl⟩, inPart⟩
    rcases List.mem_cons.mp inPart with same | inP
    · exact notSep same
    · exact absent p (List.mem_cons_of_mem _ mem) inP

/-- A string without separators is its only piece. -/
theorem splitList_of_not_mem {s : String} (absent : LISTSEP ∉ s.data) : splitList s = [s] := by
  have : s.data.splitOnP (· == LISTSEP) = [s.data] :=
    List.splitOnP_eq_single _ _ fun c mem => by simpa using ne_of_mem_of_not_mem mem absent
  simp [splitList, List.splitOn, this]

end Strings

/-- Modelled from the spec: `trimBoundingQuotes` strips a surrounding quote, single or
double, from each end of `s`. -/
def trimBoundingQuotes (s : String) : String :=
  let isQuote (c : Char) : Bool := c == '"' || c == '\''
  let front := match s.data with
    | c :: rest => if isQuote c then rest else s.data
    | [] => []
  String.mk <| match front.getLast? with
    | some c => if isQuote c then front.dropLast else front
    | none => front

/-- `cut` slices `s` around the first occurrence of `sep`; the engine calls it with `"["`. -/
def cut (s : String) (sep : Char) : String × String × Bool :=
  match s.data.span (· != sep) with
  | (before, _ :: after) => (String.mk before, String.mk after, true)
  | (_, []) => ("", "", false)

theorem cut_of_not_mem {s : String} {sep : Char} (absent : sep ∉ s.data) :
    cut s sep = ("", "", false) := by
  have : s.data.dropWhile (· != sep) = [] :=
    List.dropWhile_eq_nil_iff.mpr fun c mem => by simpa using ne_of_mem_of_not_mem mem absent
  simp [cut, this]

/-- `cut` splits at the first `sep`. -/
theorem cut_append {before after : String} {sep : Char} (absent : sep ∉ before.data) :
    cut (before ++ String.singleton sep ++ after) sep = (before, after, true) := by
  have pos : ∀ c ∈ before.data, (c != sep) = true := fun c mem => by
    simpa using ne_of_mem_of_not_mem mem absent
  simp only [cut, List.span_eq_take_drop, String.data_append, String.singleton, String.push,
    List.nil_append, List.append_assoc, List.singleton_append]
  rw [List.takeWhile_append_of_pos pos, List.dropWhile_append_of_pos pos]
  simp

/-- When `cut` finds `sep`, the string is the part before it, `sep`, and the part after. -/
theorem cut_eq_found {s before after : String} {sep : Char}
    (found : cut s sep = (before, after, true)) :
    sep ∉ before.data ∧ s = before ++ String.singleton sep ++ after := by
  unfold cut at found
  rw [List.span_eq_take_drop] at found
  split at found
  next taken dropped heq =>
    simp only [Prod.mk.injEq] at heq found
    obtain ⟨rfl, hd⟩ := heq
    obtain ⟨rfl, rfl, -⟩ := found
    have head := List.head_dropWhile_not (· != sep) s.data (by simp [hd])
    simp only [hd, List.head_cons, bne_eq_false_iff_eq] at head
    subst head
    refine ⟨fun mem => by simpa using List.mem_takeWhile_imp mem, ?_⟩
    apply String.ext
    simp [String.singleton, ← hd]
  next => simp at found

/-- Go's slice expression `s[:n]`: out of range, for a negative `n` or one past the end, it
panics (`none`). -/
def sliceTo (s : String) (n : Int) : Option String :=
  if 0 ≤ n ∧ n ≤ s.length then some (String.mk (s.data.take n.toNat)) else none

/-- `s[:len(s)-1]` panics exactly on the empty string. -/
theorem sliceTo_pred_length_eq_none_iff (s : String) :
    sliceTo s (s.length - 1) = none ↔ s = "" := by
  have : s = "" ↔ s.length = 0 :=
    ⟨fun empty => empty ▸ rfl, fun zero => String.ext (List.eq_nil_of_length_eq_zero zero)⟩
  rw [this]
  simp only [sliceTo, ite_eq_right_iff, reduceCtorEq, imp_false, not_and, not_le]
  omega

namespace Strconv

/-- `2 ^ 63`: `int64` holds the integers from `-2 ^ 63` below `2 ^ 63`. -/
def int64Bound : Nat := 9223372036854775808

/-- `2 ^ 31`: `int32` holds the integers from `-2 ^ 31` below `2 ^ 31`. -/
def int32Bound : Nat := 2147483648

/-- `strconv.FormatInt(v, 10)`. -/
def formatInt (v : Int) : String := toString v

/-- `strconv.FormatBool`. -/
def formatBool (b : Bool) : String := if b then "true" else "false"

/-- The digits of a decimal numeral, most significant first; none unless all are digits and
there is at least one. -/
def parseDigits : List Char → Option Nat
  | [] => none
  | cs => cs.foldlM (fun n c => if c.isDigit then some (10 * n + (c.toNat - '0'.toNat)) else none) 0

/-- `strconv.ParseInt(s, 10, 64)`, with `none` for the error: an optional sign, decimal
digits, and a value in the range of `int64`. -/
def parseInt (s : String) : Option Int :=
  let (neg, digits) := match s.data with
    | '+' :: ds => (false, ds)
    | '-' :: ds => (true, ds)
    | ds => (false, ds)
  (parseDigits digits).bind fun n =>
    if neg then (if n ≤ int64Bound then some (-n) else none)
    else (if n < int64Bound then some n else none)

/-- `strconv.ParseBool`, with `none` for the error. -/
def parseBool (s : String) : Option Bool :=
  if s ∈ ["1", "t", "T", "TRUE", "true", "True"] then some true
  else if s ∈ ["0", "f", "F", "FALSE", "false", "False"] then some false
  else none

end Strconv

end SfProcessor.Falco
