import SfProcessor.Falco.Policy
import Mathlib.Logic.Relation
import Mathlib.Data.List.Chain
import Mathlib.Data.List.Nodup
import Mathlib.Data.List.Perm.Subperm

/-!
# What list literals and list references decode to

A list literal reaches the compiler as its text, `[t1,…,tn]`, and `extractList` takes it
apart; a list reference in an `in` or `pmatch` term is flattened by `reduceList`, through the
table of the policy's lists.

## Main results

`extractList_bracketed`: a one-line literal of at least one item, no item holding the separator
`,`, decodes to its items without their quotes. `itemsre` does not see quotes, so a quoted item
holding `,` falls apart, and `[]` is one empty item.

`reduceList_of_acyclic`: on a table whose reference graph has no cycle `reduceList` returns, and
returns the leaves of the expansion tree, `Expands`; `extractListFromAtoms` returns the
expansions of its atoms one after another.

## Proof strategy

`reduceListFuel` is sound for `Expands` at any fuel (`reduceListFuel_expands`). Where its fuel,
the size of the table, runs out, it has followed a chain of one more list name than the table
has (`chain_of_reduceListFuel_eq_none`); such a chain repeats a name, and the repetition is a
cycle (`reduceList_isSome`).
-/

namespace SfProcessor.Falco

open Strings

/-! ### List literals -/

theorem splitAtLastBracket_append_bracket (cs : List Char) :
    splitAtLastBracket (cs ++ [']']) = some (cs, []) := by
  induction cs with
  | nil => rfl
  | cons c cs ih => simp [splitAtLastBracket, ih]

/-- On one line, `itemsre` strips the brackets around a list literal's items. -/
theorem itemsreReplace_bracketed {body : String} (oneLine : '\n' ∉ body.data) :
    itemsreReplace ("[" ++ body ++ "]") = body := by
  have noNewline : ∀ c ∈ body.data ++ [']'], (c != '\n') = true := by
    intro c mem
    rcases List.mem_append.mp mem with mem | mem
    · simpa using ne_of_mem_of_not_mem mem oneLine
    · simp [List.mem_singleton.mp mem]
  simp [itemsreReplace, List.takeWhile_eq_self_iff.mpr noNewline,
    List.dropWhile_eq_nil_iff.mpr noNewline, splitAtLastBracket_append_bracket]

/-- A list literal on one line, of at least one item and no item holding the separator,
decodes to its items without their quotes. -/
theorem extractList_bracketed {ts : List String} (nonempty : ts ≠ [])
    (plain : ∀ t ∈ ts, LISTSEP ∉ t.data ∧ '\n' ∉ t.data) :
    extractList ("[" ++ String.intercalate "," ts ++ "]") = ts.map trimBoundingQuotes := by
  have joined : String.intercalate "," ts = joinList ts := rfl
  have oneLine : '\n' ∉ (joinList ts).data :=
    not_mem_joinList (by decide) fun t mem => (plain t mem).2
  rw [joined, extractList, itemsreReplace_bracketed oneLine,
    splitList_joinList nonempty fun t mem => (plain t mem).1]

theorem extractList_bracketed_quoted :
    ["'a'", "b"] ≠ [] ∧ (∀ t ∈ ["'a'", "b"], LISTSEP ∉ t.data ∧ '\n' ∉ t.data) ∧
      extractList ("[" ++ String.intercalate "," ["'a'", "b"] ++ "]") =
        ["'a'", "b"].map trimBoundingQuotes :=
  ⟨by simp, by decide, extractList_bracketed (by simp) (by decide)⟩

/-- The empty literal decodes to one empty item, and a quoted item holding the separator to
two items. -/
theorem extractList_empty_and_comma :
    extractList "[]" = [""] ∧ extractList "['a,b']" = ["a", "b"] :=
  ⟨rfl, rfl⟩

/-! ### List references -/

section Expansion

variable (lists : GoMap (List String))

/-- List `l` refers to list `m`: some item of `l` is the name `m` of a list. -/
def Refers (l m : String) : Prop :=
  ∃ items, lists.lookup l = some items ∧ m ∈ items ∧ (lists.lookup m).isSome

/-- The reference graph of `lists` has no cycle. -/
def Acyclic : Prop := ∀ name, ¬Relation.TransGen (Refers lists) name name

/-- `Expands atoms out`: `out` are the leaves, in depth-first order, of the expansion trees
rooted at `atoms`, one tree after another. The name of a list expands to its items in order;
a string that names no list is a leaf, without its quotes. -/
inductive Expands : List String → List String → Prop
  | nil : Expands [] []
  | leaf {s : String} {atoms outs : List String} :
      lists.lookup s = none → Expands atoms outs →
        Expands (s :: atoms) (trimBoundingQuotes s :: outs)
  | list {s : String} {items atoms out outs : List String} :
      lists.lookup s = some items → Expands items out → Expands atoms outs →
        Expands (s :: atoms) (out ++ outs)

variable {lists}

/-- The expansion of `s :: atoms` is that of `s` followed by that of `atoms`. -/
theorem Expands.cons {s : String} {atoms out outs : List String}
    (first : Expands lists [s] out) (rest : Expands lists atoms outs) :
    Expands lists (s :: atoms) (out ++ outs) := by
  cases first with
  | leaf undefined none => cases none; exact .leaf undefined rest
  | list defined items none => cases none; simpa using .list defined items rest

/-- Atoms have one expansion. -/
theorem Expands.unique {atoms out out' : List String} (expands : Expands lists atoms out)
    (expands' : Expands lists atoms out') : out = out' := by
  induction expands generalizing out' with
  | nil => cases expands'; rfl
  | leaf undefined _ ih =>
    cases expands' with
    | leaf _ rest => rw [ih rest]
    | list defined _ _ => simp [undefined] at defined
  | list defined _ _ ihItems ihRest =>
    cases expands' with
    | leaf undefined _ => simp [undefined] at defined
    | list defined' items rest =>
      cases defined.symm.trans defined'
      rw [ihItems items, ihRest rest]

theorem Expands.iff_eq {atoms out : List String} (expands : Expands lists atoms out)
    (out' : List String) : Expands lists atoms out' ↔ out' = out :=
  ⟨fun expands' => expands'.unique expands, fun same => same ▸ expands⟩

/-- A `mapM` of sound expansions is the expansion of the whole list. -/
theorem expands_of_mapM {f : String → Option (List String)}
    (sound : ∀ {s out}, f s = some out → Expands lists [s] out) {atoms : List String}
    {outs : List (List String)} (mapped : atoms.mapM f = some outs) :
    Expands lists atoms outs.flatten := by
  induction atoms generalizing outs with
  | nil => cases mapped; exact .nil
  | cons s atoms ih =>
    simp only [List.mapM_cons, Option.bind_eq_bind, Option.bind_eq_some, Option.pure_def,
      Option.some.injEq] at mapped
    obtain ⟨out, first, rest, restMapped, rfl⟩ := mapped
    exact (sound first).cons (ih restMapped)

theorem expands_of_lookup_none {fuel : Nat} {s : String} {out : List String}
    (undefined : lists.lookup s = none) (reduced : reduceListFuel lists fuel s = some out) :
    Expands lists [s] out := by
  rw [reduceListFuel_of_lookup_none fuel undefined] at reduced
  cases reduced
  exact .leaf undefined .nil

/-- Whatever its fuel, what `reduceListFuel` returns is the expansion. -/
theorem reduceListFuel_expands {fuel : Nat} {s : String} {out : List String}
    (reduced : reduceListFuel lists fuel s = some out) : Expands lists [s] out := by
  induction fuel generalizing s out with
  | zero =>
    cases defined : lists.lookup s with
    | none => exact expands_of_lookup_none defined reduced
    | some items => simp [reduceListFuel_zero defined] at reduced
  | succ fuel ih =>
    cases defined : lists.lookup s with
    | none => exact expands_of_lookup_none defined reduced
    | some items =>
      rw [reduceListFuel_succ fuel defined] at reduced
      obtain ⟨outs, mapped, rfl⟩ := Option.map_eq_some'.mp reduced
      simpa using Expands.list defined (expands_of_mapM ih mapped) .nil

/-- A `mapM` that fails fails on some element. -/
theorem exists_of_mapM_eq_none {f : String → Option (List String)} {atoms : List String}
    (failed : atoms.mapM f = none) : ∃ s ∈ atoms, f s = none := by
  induction atoms with
  | nil => cases failed
  | cons s atoms ih =>
    rw [List.mapM_cons] at failed
    cases first : f s with
    | none => exact ⟨s, List.mem_cons_self _ _, first⟩
    | some out =>
      have rest : atoms.mapM f = none := by
        cases h : atoms.mapM f <;> simp_all
      obtain ⟨x, mem, failed⟩ := ih rest
      exact ⟨x, List.mem_cons_of_mem _ mem, failed⟩

/-- Only a defined list name runs out of fuel. -/
theorem lookup_isSome_of_reduceListFuel_eq_none {fuel : Nat} {s : String}
    (exhausted : reduceListFuel lists fuel s = none) : (lists.lookup s).isSome := by
  cases defined : lists.lookup s
  · simp [reduceListFuel_of_lookup_none _ defined] at exhausted
  · rfl

/-- Where `reduceListFuel` runs out of fuel, a chain of `fuel + 1` list names, each referring
to the next, leads from `s`. -/
theorem chain_of_reduceListFuel_eq_none {fuel : Nat} {s : String}
    (exhausted : reduceListFuel lists fuel s = none) :
    ∃ path : List String, path.length = fuel + 1 ∧ path.head? = some s ∧
      path.Chain' (Refers lists) ∧ ∀ m ∈ path, (lists.lookup m).isSome := by
  have defined := lookup_isSome_of_reduceListFuel_eq_none exhausted
  induction fuel generalizing s with
  | zero => exact ⟨[s], rfl, rfl, List.chain'_singleton _, List.forall_mem_singleton.mpr defined⟩
  | succ fuel ih =>
    obtain ⟨items, found⟩ := Option.isSome_iff_exists.mp defined
    rw [reduceListFuel_succ fuel found] at exhausted
    obtain ⟨x, mem, failed⟩ := exists_of_mapM_eq_none (Option.map_eq_none'.mp exhausted)
    obtain ⟨_ | ⟨y, rest⟩, length, head, chain, keys⟩ :=
      ih failed (lookup_isSome_of_reduceListFuel_eq_none failed)
    · cases length
    cases head
    exact ⟨s :: x :: rest, by simpa using length, rfl,
      .cons ⟨items, found, mem, keys x (List.mem_cons_self _ _)⟩ chain,
      List.forall_mem_cons.mpr ⟨defined, keys⟩⟩

/-- On an acyclic table `reduceList` returns: a chain of list names longer than the table
repeats a name, and the repetition is a cycle. -/
theorem reduceList_isSome (acyclic : Acyclic lists) (s : String) :
    (reduceList lists s).isSome := by
  cases exhausted : reduceList lists s with
  | some out => rfl
  | none =>
    obtain ⟨path, length, -, chain, keys⟩ := chain_of_reduceListFuel_eq_none exhausted
    have notNodup : ¬path.Nodup := fun nodup => by
      have within : path ⊆ lists.map Prod.fst := fun m mem => by
        obtain ⟨p, mem, same⟩ := List.lookup_isSome_iff.mp (keys m mem)
        exact List.mem_map.mpr ⟨p, mem, (beq_iff_eq.mp same).symm⟩
      have := (nodup.subperm within).length_le
      simp at this
      omega
    obtain ⟨name, twice⟩ := not_forall.mp (mt List.nodup_iff_sublist.mpr notNodup)
    have cycle := ((chain.imp fun _ _ => Relation.TransGen.single).sublist (not_not.mp twice))
    exact absurd (List.chain'_pair.mp cycle) (acyclic name)

/-- A relation along which a rank falls is acyclic. -/
theorem not_transGen_self_of_rank {α : Type} {R : α → α → Prop} (rank : α → Nat)
    (decreasing : ∀ a b, R a b → rank b < rank a) (x : α) : ¬Relation.TransGen R x x := by
  have descends : ∀ {a b}, Relation.TransGen R a b → rank b < rank a := by
    intro a b path
    induction path with
    | single step => exact decreasing _ _ step
    | tail _ step ih => exact lt_trans (decreasing _ _ step) ih
  exact fun cycle => lt_irrefl _ (descends cycle)

/-- A table whose references lower a rank is acyclic. -/
theorem acyclic_of_rank (rank : String → Nat)
    (decreasing : ∀ l m, Refers lists l m → rank m < rank l) : Acyclic lists :=
  not_transGen_self_of_rank rank decreasing

/-- On an acyclic table `reduceList` returns, and what it returns is the expansion of the atom:
the leaves of its expansion tree. `extractListFromAtoms` returns the expansion of its atoms,
their leaves one tree after another. -/
theorem reduceList_of_acyclic (acyclic : Acyclic lists) :
    (∀ s, ∃ out, reduceList lists s = some out ∧
        ∀ out', Expands lists [s] out' ↔ out' = out) ∧
      ∀ atoms, ∃ out, extractListFromAtoms lists atoms = some out ∧
        ∀ out', Expands lists atoms out' ↔ out' = out := by
  refine ⟨fun s => ?_, fun atoms => ?_⟩
  · obtain ⟨out, reduced⟩ := Option.isSome_iff_exists.mp (reduceList_isSome acyclic s)
    exact ⟨out, reduced, (reduceListFuel_expands reduced).iff_eq⟩
  · obtain ⟨outs, mapped⟩ : ∃ outs, atoms.mapM (reduceList lists) = some outs := by
      cases mapped : atoms.mapM (reduceList lists) with
      | some outs => exact ⟨outs, rfl⟩
      | none =>
        obtain ⟨s, -, failed⟩ := exists_of_mapM_eq_none mapped
        simpa [failed] using reduceList_isSome acyclic s
    exact ⟨_, by simp only [extractListFromAtoms, mapped, Option.map_some'],
      (expands_of_mapM reduceListFuel_expands mapped).iff_eq⟩

end Expansion

/-- The list `a` holds the list `b` and the quoted string `'x'`; `b` holds `y`. -/
def nestedLists : GoMap (List String) := [("a", ["b", "'x'"]), ("b", ["y"])]

theorem reduceList_of_acyclic_nested :
    Acyclic nestedLists ∧
      ((∀ s, ∃ out, reduceList nestedLists s = some out ∧
          ∀ out', Expands nestedLists [s] out' ↔ out' = out) ∧
        ∀ atoms, ∃ out, extractListFromAtoms nestedLists atoms = some out ∧
          ∀ out', Expands nestedLists atoms out' ↔ out' = out) := by
  have acyclic : Acyclic nestedLists := by
    refine acyclic_of_rank (fun s => if s = "a" then 1 else 0)
      fun l m ⟨items, hl, hm, hkey⟩ => ?_
    simp only [nestedLists, List.lookup_cons, List.lookup_nil] at hl
    by_cases la : l = "a"
    · subst la
      cases hl
      rcases List.mem_pair.mp hm with rfl | rfl
      · decide
      · exact absurd hkey (by decide)
    · by_cases lb : l = "b"
      · subst lb
        cases hl
        cases List.mem_singleton.mp hm
        exact absurd hkey (by decide)
      · rw [beq_false_of_ne la, beq_false_of_ne lb] at hl
        cases hl
  exact ⟨acyclic, reduceList_of_acyclic acyclic⟩

/-- `a` expands depth first: the items of `b`, then `x` without its quotes. -/
example : extractListFromAtoms nestedLists ["a", "z"] = some ["y", "x", "z"] := rfl

end SfProcessor.Falco
