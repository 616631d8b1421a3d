import Mathlib.Logic.Basic

/-!
# Functional predicates over records

`Criterion` and its combinators `And`, `Or` and `Not` (package `engine`). A predicate
returns a boolean and a Go `error`, modelled as `Option Error`.

The two binary combinators do not do what their comments say. Each evaluates its first operand
`c` a second time where the second operand `cr` was meant, and the tests of the error are
inverted: on the error-free path both return `(false, nil)`, and so does `Not`. The lemmas
below state exactly what the three compute; `and_eval_of_ok` and its siblings are what every
result about compiled policies rests on.
-/

namespace SfProcessor.Engine

/-- A Go `error` value, by its message. -/
abbrev Error := String

/-- `Predicate` defines the type of a functional predicate. -/
abbrev Predicate (R : Type) := R → Bool × Option Error

/-- `Criterion` defines an interface for functional predicate operations. -/
structure Criterion (R : Type) where
  pred : Predicate R

namespace Criterion

variable {R : Type}

/-- `Eval` evaluates a functional predicate. -/
def eval (c : Criterion R) (r : R) : Bool × Option Error := c.pred r

/-- The body `And` and `Or` share, with their boolean operator as `op`. -/
def combine (op : Bool → Bool → Bool) (c _cr : Criterion R) : Criterion R where
  pred r :=
    let (b1, err) := c.eval r
    if err.isSome then
      let (b2, err) := c.eval r
      if err.isSome then (op b1 b2, err) else (false, err)
    else (false, err)

/-- `And` computes the conjunction of two functional predicates. -/
def and (c cr : Criterion R) : Criterion R := c.combine (· && ·) cr

/-- `Or` computes the conjunction of two functional predicates. -/
def or (c cr : Criterion R) : Criterion R := c.combine (· || ·) cr

/-- `Not` computes the negation of the function predicate. -/
def not (c : Criterion R) : Criterion R where
  pred r :=
    let (res, err) := c.eval r
    if err.isSome then (!res, err) else (false, err)

@[simp] theorem eval_mk (p : Predicate R) (r : R) : (⟨p⟩ : Criterion R).eval r = p r := rfl

/-! ### What the combinators compute -/

section Combinators

variable {c cr : Criterion R} {r : R} {b : Bool} {e : Error}

theorem combine_eval_of_ok (op : Bool → Bool → Bool) (ok : (c.eval r).2 = none) :
    (c.combine op cr).eval r = (false, none) := by
  obtain ⟨b, _⟩ := c.eval r
  simp_all [combine, eval]

theorem combine_eval_of_error (op : Bool → Bool → Bool) (failed : c.eval r = (b, some e)) :
    (c.combine op cr).eval r = (op b b, some e) := by
  simp only [eval] at failed
  simp [combine, eval, failed]

/-- On a record where the first operand does not fail, `And` is false. -/
@[simp] theorem and_eval_of_ok (ok : (c.eval r).2 = none) : (c.and cr).eval r = (false, none) :=
  combine_eval_of_ok _ ok

/-- On a record where the first operand does not fail, `Or` is false. -/
@[simp] theorem or_eval_of_ok (ok : (c.eval r).2 = none) : (c.or cr).eval r = (false, none) :=
  combine_eval_of_ok _ ok

/-- On a record where its operand does not fail, `Not` is false. -/
@[simp] theorem not_eval_of_ok (ok : (c.eval r).2 = none) : c.not.eval r = (false, none) := by
  obtain ⟨b, _⟩ := c.eval r
  simp_all [not, eval]

theorem and_eval_of_error (failed : c.eval r = (b, some e)) :
    (c.and cr).eval r = (b, some e) := by
  simpa using combine_eval_of_error (· && ·) failed

theorem or_eval_of_error (failed : c.eval r = (b, some e)) :
    (c.or cr).eval r = (b, some e) := by
  simpa using combine_eval_of_error (· || ·) failed

theorem not_eval_of_error (failed : c.eval r = (b, some e)) : c.not.eval r = (!b, some e) := by
  simp only [eval] at failed
  simp [not, eval, failed]

/-- Neither binary combinator ever consults its second operand. -/
theorem combine_eval_second (op : Bool → Bool → Bool) (cr' : Criterion R) :
    (c.combine op cr).eval r = (c.combine op cr').eval r := rfl

end Combinators

/-- With both operands the error-free `true` predicate, `And` and `Or` are false, and so is
`Not (Not p)`: the identities `And(p, True) ≡ p`, `Or(p, False) ≡ p` and `Not(Not(p)) ≡ p`
all fail at `p = True`. -/
theorem combinators_of_true_eval_false :
    let t : Criterion Unit := ⟨fun _ => (true, none)⟩
    let f : Criterion Unit := ⟨fun _ => (false, none)⟩
    (t.and t).eval () = (false, none) ∧ (t.or f).eval () = (false, none) ∧
      t.not.not.eval () = (false, none) :=
  ⟨and_eval_of_ok rfl, or_eval_of_ok rfl, not_eval_of_ok rfl⟩

/-- When the first operand fails with `e`, `And` and `Or` return its boolean with `e`, not the
conjunction or disjunction with the second operand's: `And(p, q)` is true for `p` failing true
and `q` false, and `Or(p, q)` false for `p` failing false and `q` true. `Not` negates. -/
theorem combinators_of_error_drop_second (e : Error) :
    let p : Bool → Criterion Unit := fun b => ⟨fun _ => (b, some e)⟩
    let q : Bool → Criterion Unit := fun b => ⟨fun _ => (b, none)⟩
    ((p true).and (q false)).eval () = (true, some e) ∧
      ((p false).or (q true)).eval () = (false, some e) ∧
      (p true).not.eval () = (!true, some e) :=
  ⟨and_eval_of_error rfl, or_eval_of_error rfl, not_eval_of_error rfl⟩

end Criterion

end SfProcessor.Engine
