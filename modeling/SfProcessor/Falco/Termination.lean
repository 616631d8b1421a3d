import SfProcessor.Falco.Compiler
import SfProcessor.Falco.Lists

/-!
# When the compiler returns

`visitTerm` visits a referenced macro's expression where the reference stands, and
`reduceList` expands a referenced list where it stands, so the compiler recurses along the
references between macros and between lists. Go bounds neither recursion; the model's fuel,
the size of each table, runs out only where Go's recursion never ends.

## Main results

`visitExpression_eq_none_iff`: on acyclic lists, `visitExpression` fails to return on an
expression exactly when a chain of macro references from a name the expression references
reaches a cycle. Macros the expression does not reach do not matter.

`compile_isSome`: `compile` returns on a policy file that defines each list and each macro
once, when the tables its pre-pass builds are acyclic. The main pass defines every list and
macro again where it stands, so that the tables a rule is compiled against look names up as
the pre-pass tables do.

## Proof strategy

A visit fails exactly when it fails on a defined macro that the expression references
(`visitOrWith_eq_none` and its converse `visitOrWith_eq_none_of_ref`, by structural recursion
on the terms; list expansions return by `reduceList_isSome`). Where `visitExpressionFuel` runs
out of fuel it has therefore followed a chain of `fuel + 1` macro names, each referring to the
next (`chain_of_visitExpressionFuel_eq_none`), and a chain longer than the table reaches a
cycle (`exists_cycle_of_chain`). Conversely a name that reaches a cycle always has a next one
that does (`ReachesCycle.next`), so no fuel is enough. The main pass keeps the lookups of the
pre-pass tables (`exitPolicy_sameTables`), and acyclicity depends on the lookups alone.
-/

namespace SfProcessor.Falco

open SfProcessor.Engine

/-! ### Macro references -/

mutual

/-- The names a term looks up among the macros, outside the macros it references. -/
def termRefs : Term → List String
  | .var name => [name]
  | .not t => termRefs t
  | .paren e => orRefs e
  | _ => []

def orRefs : List (List Term) → List String
  | [] => []
  | andCtx :: rest => andRefs andCtx ++ orRefs rest

def andRefs : List Term → List String
  | [] => []
  | t :: rest => termRefs t ++ andRefs rest

end

section References

variable (macroCtxs : GoMap Expression)

/-- Macro `m` refers to macro `m'`: its expression references the name `m'` of a macro. -/
def MacroRefers (m m' : String) : Prop :=
  ∃ e, macroCtxs.lookup m = some e ∧ m' ∈ orRefs e ∧ (macroCtxs.lookup m').isSome

/-- The reference graph of the macros has no cycle. -/
def MacrosAcyclic : Prop := ∀ name, ¬Relation.TransGen (MacroRefers macroCtxs) name name

/-- A chain of references leads from `name` to a macro on a cycle. -/
def ReachesCycle (name : String) : Prop :=
  ∃ m, Relation.ReflTransGen (MacroRefers macroCtxs) name m ∧
    Relation.TransGen (MacroRefers macroCtxs) m m

variable {macroCtxs}

/-- A name that reaches a cycle refers to one that does: the next on the way, or on the
cycle. -/
theorem ReachesCycle.next {name : String} (reaches : ReachesCycle macroCtxs name) :
    ∃ next, MacroRefers macroCtxs name next ∧ ReachesCycle macroCtxs next := by
  obtain ⟨m, reach, cycle⟩ := reaches
  rcases reach.cases_head with rfl | ⟨next, step, reach⟩
  · obtain ⟨next, step, back⟩ := Relation.TransGen.head'_iff.mp cycle
    exact ⟨next, step, name, back, cycle⟩
  · exact ⟨next, step, m, reach, cycle⟩

end References

theorem transGen_of_chain_mem {α : Type} {R : α → α → Prop} {a b : α} {path : List α}
    (chain : List.Chain R a path) (mem : b ∈ path) : Relation.TransGen R a b := by
  induction chain with
  | nil => cases mem
  | cons step _ ih =>
    rcases List.mem_cons.mp mem with rfl | mem
    · exact .single step
    · exact .head step (ih mem)

/-- A chain from `a` through more elements than `keys` holds, all of them among `keys`,
reaches a cycle. -/
theorem exists_cycle_of_chain {α : Type} [DecidableEq α] {R : α → α → Prop} {a : α}
    {path keys : List α} (chain : List.Chain R a path) (within : ∀ x ∈ a :: path, x ∈ keys)
    (long : keys.length ≤ path.length) :
    ∃ x, Relation.ReflTransGen R a x ∧ Relation.TransGen R x x := by
  induction chain generalizing keys with
  | nil =>
    have := List.length_pos_of_mem (within _ (List.mem_singleton_self _))
    simp only [List.length_nil] at long
    omega
  | @cons a b path step chain ih =>
    by_cases again : a ∈ b :: path
    · exact ⟨a, .refl, transGen_of_chain_mem (.cons step chain) again⟩
    have key := within a (List.mem_cons_self _ _)
    obtain ⟨x, reach, cycle⟩ := @ih (keys.erase a)
      (fun x mem => (List.mem_erase_of_ne (ne_of_mem_of_not_mem mem again)).mpr
        (within x (List.mem_cons_of_mem _ mem)))
      (by rw [List.length_erase_of_mem key]; simp only [List.length_cons] at long; omega)
    exact ⟨x, .head step reach, cycle⟩

theorem mem_keys_of_lookup_isSome {β : Type} {table : GoMap β} {name : String}
    (defined : (table.lookup name).isSome) : name ∈ table.map Prod.fst := by
  obtain ⟨p, mem, same⟩ := List.lookup_isSome_iff.mp defined
  exact List.mem_map.mpr ⟨p, mem, (beq_iff_eq.mp same).symm⟩

theorem mem_of_lookup_eq_some {β : Type} {table : GoMap β} {name : String} {v : β}
    (found : table.lookup name = some v) : (name, v) ∈ table := by
  obtain ⟨l₁, l₂, rfl, -⟩ := List.lookup_eq_some_iff.mp found
  simp

/-- Lists whose items that name a list lower a rank, entry by entry, are acyclic. -/
theorem acyclic_of_entry_rank {lists : GoMap (List String)} (rank : String → Nat)
    (decreasing : ∀ p ∈ lists, ∀ m ∈ p.2, m ∈ lists.map Prod.fst → rank m < rank p.1) :
    Acyclic lists :=
  acyclic_of_rank rank fun _ _ ⟨_, found, mem, defined⟩ =>
    decreasing _ (mem_of_lookup_eq_some found) _ mem (mem_keys_of_lookup_isSome defined)

/-- Macros whose references lower a rank, entry by entry, are acyclic. -/
theorem macrosAcyclic_of_entry_rank {macroCtxs : GoMap Expression} (rank : String → Nat)
    (decreasing : ∀ p ∈ macroCtxs, ∀ m ∈ orRefs p.2, m ∈ macroCtxs.map Prod.fst →
      rank m < rank p.1) :
    MacrosAcyclic macroCtxs :=
  not_transGen_self_of_rank rank fun _ _ ⟨_, found, mem, defined⟩ =>
    decreasing _ (mem_of_lookup_eq_some found) _ mem (mem_keys_of_lookup_isSome defined)

theorem extractListFromAtoms_isSome {lists : GoMap (List String)} (acyclic : Acyclic lists)
    (atoms : List String) : (extractListFromAtoms lists atoms).isSome := by
  cases mapped : atoms.mapM (reduceList lists) with
  | some outs => rw [extractListFromAtoms, mapped]; rfl
  | none =>
    obtain ⟨s, -, failed⟩ := exists_of_mapM_eq_none mapped
    simpa [failed] using reduceList_isSome acyclic s

/-! ### A visit fails on a macro it references -/

section Visit

variable {env : Env} {lists : GoMap (List String)} {macroCtxs : GoMap Expression}
  {visitMacro : Expression → Option (Criterion Record)}

mutual

/-- A term whose visit fails references a defined macro whose visit fails. -/
theorem visitTermWith_eq_none (acyclic : Acyclic lists) :
    ∀ t, visitTermWith env lists macroCtxs visitMacro t = none →
      ∃ name ∈ termRefs t, ∃ m, macroCtxs.lookup name = some m ∧ visitMacro m = none
  | .var name, failed => by
    cases found : macroCtxs.lookup name with
    | none => simp [visitTermWith, found] at failed
    | some m =>
      exact ⟨name, by simp [termRefs], m, found, by simpa [visitTermWith, found] using failed⟩
  | .not t, failed => by
    rw [termRefs]
    exact visitTermWith_eq_none acyclic t (by simpa [visitTermWith] using failed)
  | .unary _ .exists_, failed | .binary _ _ _, failed => by simp [visitTermWith] at failed
  | .paren e, failed => by
    rw [termRefs]
    exact visitOrWith_eq_none acyclic e (by simpa [visitTermWith] using failed)
  | .inList _ atoms, failed | .pmatch _ atoms, failed => by
    simp [visitTermWith, Option.isSome_iff_ne_none.mp (extractListFromAtoms_isSome acyclic atoms)]
      at failed

theorem visitOrWith_eq_none (acyclic : Acyclic lists) :
    ∀ e, visitOrWith env lists macroCtxs visitMacro e = none →
      ∃ name ∈ orRefs e, ∃ m, macroCtxs.lookup name = some m ∧ visitMacro m = none
  | [], failed => by simp [visitOrWith] at failed
  | andCtx :: rest, failed => by
    rw [orRefs]
    cases first : visitAndWith env lists macroCtxs visitMacro andCtx with
    | none =>
      obtain ⟨name, mem, found⟩ := visitAndWith_eq_none acyclic andCtx first
      exact ⟨name, List.mem_append_left _ mem, found⟩
    | some andPreds =>
      cases second : visitOrWith env lists macroCtxs visitMacro rest with
      | none =>
        obtain ⟨name, mem, found⟩ := visitOrWith_eq_none acyclic rest second
        exact ⟨name, List.mem_append_right _ mem, found⟩
      | some orPreds => simp [visitOrWith, first, second] at failed

theorem visitAndWith_eq_none (acyclic : Acyclic lists) :
    ∀ ts, visitAndWith env lists macroCtxs visitMacro ts = none →
      ∃ name ∈ andRefs ts, ∃ m, macroCtxs.lookup name = some m ∧ visitMacro m = none
  | [], failed => by simp [visitAndWith] at failed
  | t :: rest, failed => by
    rw [andRefs]
    cases first : visitTermWith env lists macroCtxs visitMacro t with
    | none =>
      obtain ⟨name, mem, found⟩ := visitTermWith_eq_none acyclic t first
      exact ⟨name, List.mem_append_left _ mem, found⟩
    | some c =>
      cases second : visitAndWith env lists macroCtxs visitMacro rest with
      | none =>
        obtain ⟨name, mem, found⟩ := visitAndWith_eq_none acyclic rest second
        exact ⟨name, List.mem_append_right _ mem, found⟩
      | some cs => simp [visitAndWith, first, second] at failed

end

mutual

/-- A term that references a defined macro whose visit fails fails, whatever else it holds. -/
theorem visitTermWith_eq_none_of_ref {name : String} {m : Expression}
    (found : macroCtxs.lookup name = some m) (failed : visitMacro m = none) :
    ∀ t, name ∈ termRefs t → visitTermWith env lists macroCtxs visitMacro t = none
  | .var _, mem => by
    obtain rfl := List.mem_singleton.mp mem
    simp [visitTermWith, found, failed]
  | .not t, mem => by
    rw [termRefs] at mem
    simp [visitTermWith, visitTermWith_eq_none_of_ref found failed t mem]
  | .paren e, mem => by
    rw [termRefs] at mem
    simp [visitTermWith, visitOrWith_eq_none_of_ref found failed e mem]
  | .unary _ _, mem | .binary _ _ _, mem | .inList _ _, mem | .pmatch _ _, mem => by
    simp [termRefs] at mem

theorem visitOrWith_eq_none_of_ref {name : String} {m : Expression}
    (found : macroCtxs.lookup name = some m) (failed : visitMacro m = none) :
    ∀ e, name ∈ orRefs e → visitOrWith env lists macroCtxs visitMacro e = none
  | [], mem => by simp [orRefs] at mem
  | andCtx :: rest, mem => by
    rw [orRefs] at mem
    rcases List.mem_append.mp mem with mem | mem
    · simp [visitOrWith, visitAndWith_eq_none_of_ref found failed andCtx mem]
    · simp [visitOrWith, visitOrWith_eq_none_of_ref found failed rest mem]

theorem visitAndWith_eq_none_of_ref {name : String} {m : Expression}
    (found : macroCtxs.lookup name = some m) (failed : visitMacro m = none) :
    ∀ ts, name ∈ andRefs ts → visitAndWith env lists macroCtxs visitMacro ts = none
  | [], mem => by simp [andRefs] at mem
  | t :: rest, mem => by
    rw [andRefs] at mem
    rcases List.mem_append.mp mem with mem | mem
    · simp [visitAndWith, visitTermWith_eq_none_of_ref found failed t mem]
    · simp [visitAndWith, visitAndWith_eq_none_of_ref found failed rest mem]

end

/-! ### Fuel runs out exactly on a cycle -/

/-- Where `visitExpressionFuel` runs out of fuel, a chain of `fuel + 1` macro names, each
referring to the next, leads from a name the expression references. -/
theorem chain_of_visitExpressionFuel_eq_none (acyclic : Acyclic lists) {fuel : Nat}
    {e : Expression} (exhausted : visitExpressionFuel env lists macroCtxs fuel e = none) :
    ∃ name ∈ orRefs e, ∃ path : List String, path.length = fuel ∧
      List.Chain (MacroRefers macroCtxs) name path ∧
      ∀ m ∈ name :: path, (macroCtxs.lookup m).isSome := by
  unfold visitExpressionFuel at exhausted
  obtain ⟨name, mem, m, found, failed⟩ :=
    visitOrWith_eq_none acyclic e (Option.map_eq_none'.mp exhausted)
  refine ⟨name, mem, ?_⟩
  have defined : (macroCtxs.lookup name).isSome := by rw [found]; rfl
  clear exhausted mem
  induction fuel generalizing name m with
  | zero => exact ⟨[], rfl, .nil, List.forall_mem_singleton.mpr defined⟩
  | succ fuel ih =>
    unfold visitExpressionFuel at failed
    obtain ⟨next, mem, m', found', failed'⟩ :=
      visitOrWith_eq_none acyclic m (Option.map_eq_none'.mp failed)
    obtain ⟨path, length, chain, keys⟩ := ih next m' found' failed' (by rw [found']; rfl)
    exact ⟨next :: path, by rw [List.length_cons, length],
      .cons ⟨m, found, mem, keys next (List.mem_cons_self _ _)⟩ chain,
      List.forall_mem_cons.mpr ⟨defined, keys⟩⟩

/-- A visit that runs out of fuel has reached a macro cycle. -/
theorem reachesCycle_of_visitExpression_eq_none (acyclic : Acyclic lists) {e : Expression}
    (exhausted : visitExpression env lists macroCtxs e = none) :
    ∃ name ∈ orRefs e, ReachesCycle macroCtxs name := by
  obtain ⟨name, mem, path, length, chain, keys⟩ :=
    chain_of_visitExpressionFuel_eq_none acyclic exhausted
  exact ⟨name, mem, exists_cycle_of_chain chain
    (fun m mem => mem_keys_of_lookup_isSome (keys m mem)) (by rw [List.length_map, length])⟩

/-- A name that reaches a cycle makes every visit of an expression that references it fail,
whatever its fuel. -/
theorem visitExpressionFuel_eq_none_of_reachesCycle (fuel : Nat) {e : Expression}
    {name : String} (mem : name ∈ orRefs e) (reaches : ReachesCycle macroCtxs name) :
    visitExpressionFuel env lists macroCtxs fuel e = none := by
  obtain ⟨next, ⟨m, found, mem', -⟩, reaches'⟩ := reaches.next
  unfold visitExpressionFuel
  rw [Option.map_eq_none']
  apply visitOrWith_eq_none_of_ref found _ e mem
  cases fuel with
  | zero => rfl
  | succ fuel => exact visitExpressionFuel_eq_none_of_reachesCycle fuel mem' reaches'

/-- When neither the macros nor the lists refer to themselves through a chain of references,
`visitExpression` returns on every expression. -/
theorem visitExpression_isSome (macrosAcyclic : MacrosAcyclic macroCtxs)
    (listsAcyclic : Acyclic lists) (e : Expression) :
    (visitExpression env lists macroCtxs e).isSome := by
  cases exhausted : visitExpression env lists macroCtxs e with
  | some c => rfl
  | none =>
    obtain ⟨_, -, m, -, cycle⟩ := reachesCycle_of_visitExpression_eq_none listsAcyclic exhausted
    exact absurd cycle (macrosAcyclic m)

/-- On acyclic lists, `visitExpression` fails to return on an expression exactly when a chain
of macro references from a name the expression references reaches a cycle. -/
theorem visitExpression_eq_none_iff (acyclic : Acyclic lists) (e : Expression) :
    visitExpression env lists macroCtxs e = none ↔
      ∃ name ∈ orRefs e, ReachesCycle macroCtxs name :=
  ⟨reachesCycle_of_visitExpression_eq_none acyclic,
    fun ⟨_, mem, reaches⟩ => visitExpressionFuel_eq_none_of_reachesCycle _ mem reaches⟩

/-- Macro `a` refers to `b`, and `b` back to `a`. -/
def loopMacros : GoMap Expression := [("a", [[.var "b"]]), ("b", [[.not (.var "a")]])]

/-- A condition that references `a` past a term that compiles: its visit never returns. -/
theorem visitExpression_eq_none_iff_loop :
    Acyclic [] ∧
      (visitExpression default [] loopMacros [[.binary "x" .eq "y", .var "a"]] = none ↔
        ∃ name ∈ orRefs [[.binary "x" .eq "y", .var "a"]], ReachesCycle loopMacros name) ∧
      visitExpression default [] loopMacros [[.binary "x" .eq "y", .var "a"]] = none :=
  ⟨acyclic_of_entry_rank (fun _ => 0) (by decide),
    visitExpression_eq_none_iff (acyclic_of_entry_rank (fun _ => 0) (by decide)) _, rfl⟩

end Visit

/-! ### The main pass keeps the pre-pass lookups -/

/-- The entry a declaration adds to the lists, if it defines a list. -/
def Decl.listEntry : Decl → Option (String × List String)
  | .plistDecl id items => some (id, (items.map extractList).getD [])
  | _ => none

/-- The entry a declaration adds to the macros, if it defines a macro. -/
def Decl.macroEntry : Decl → Option (String × Expression)
  | .pmacroDecl id e => some (id, e)
  | _ => none

/-- The tables of `pi` look every name up as those of `pre` do. -/
structure SameTables (pi pre : PolicyInterpreter) : Prop where
  lists : ∀ name, pi.lists.lookup name = pre.lists.lookup name
  macros : ∀ name, pi.macroCtxs.lookup name = pre.macroCtxs.lookup name

theorem SameTables.listsAcyclic {pi pre : PolicyInterpreter} (same : SameTables pi pre)
    (acyclic : Acyclic pre.lists) : Acyclic pi.lists := by
  have refers : Refers pi.lists = Refers pre.lists := by
    funext l m
    simp only [Refers, same.lists]
  unfold Acyclic
  rwa [refers]

theorem SameTables.macrosAcyclic {pi pre : PolicyInterpreter} (same : SameTables pi pre)
    (acyclic : MacrosAcyclic pre.macroCtxs) : MacrosAcyclic pi.macroCtxs := by
  have refers : MacroRefers pi.macroCtxs = MacroRefers pre.macroCtxs := by
    funext m m'
    simp only [MacroRefers, same.macros]
  unfold MacrosAcyclic
  rwa [refers]

/-- The pre-pass tables: each declaration's definition, the last first, before the tables
the interpreter held. -/
theorem foldl_exitDef_tables (decls : List Decl) (pi : PolicyInterpreter) :
    (decls.foldl PolicyInterpreter.exitDef pi).lists =
        (decls.filterMap Decl.listEntry).reverse ++ pi.lists ∧
      (decls.foldl PolicyInterpreter.exitDef pi).macroCtxs =
        (decls.filterMap Decl.macroEntry).reverse ++ pi.macroCtxs := by
  induction decls generalizing pi with
  | nil => exact ⟨rfl, rfl⟩
  | cons d decls ih =>
    rw [List.foldl_cons, (ih _).1, (ih _).2]
    cases d <;> simp [PolicyInterpreter.exitDef, PolicyInterpreter.exitPlist,
      PolicyInterpreter.exitPmacro, Decl.listEntry, Decl.macroEntry]

/-- In a table whose first entries have distinct names, a name among them is looked up as its
entry. -/
theorem lookup_append_of_mem {β : Type} {entries : GoMap β}
    (distinct : (entries.map Prod.fst).Nodup) {id : String} {v : β} (mem : (id, v) ∈ entries)
    (rest : GoMap β) : (entries ++ rest).lookup id = some v := by
  induction entries with
  | nil => cases mem
  | cons p entries ih =>
    obtain ⟨k, b⟩ := p
    obtain ⟨fresh, distinct⟩ := List.nodup_cons.mp distinct
    rw [List.cons_append]
    rcases List.mem_cons.mp mem with same | mem
    · obtain ⟨rfl, rfl⟩ := Prod.mk.inj_iff.mp same
      rw [List.lookup_cons_self]
    · have other : id ≠ k := fun same => fresh (List.mem_map.mpr ⟨(id, v), mem, same⟩)
      rw [List.lookup_cons, beq_false_of_ne other]
      exact ih distinct mem

/-- Consing an entry that `pre` already looks up keeps the lookups. -/
theorem lookup_cons_of_lookup {β : Type} {table pre : GoMap β}
    (same : ∀ name, table.lookup name = pre.lookup name) {id : String} {v : β}
    (defined : pre.lookup id = some v) (name : String) :
    ((id, v) :: table).lookup name = pre.lookup name := by
  by_cases other : name = id
  · subst other
    rw [List.lookup_cons_self, defined]
  · rw [List.lookup_cons, beq_false_of_ne other]
    exact same name

/-- Each definition of a file that defines each name once is what the pre-pass tables look up. -/
theorem lookup_prePass {β : Type} {entry : Decl → Option (String × β)} {decls : List Decl}
    (once : ((decls.filterMap entry).map Prod.fst).Nodup) {d : Decl} (mem : d ∈ decls)
    {p : String × β} (found : p ∈ entry d) (rest : GoMap β) :
    ((decls.filterMap entry).reverse ++ rest).lookup p.1 = some p.2 :=
  lookup_append_of_mem (by rwa [List.map_reverse, List.nodup_reverse])
    (List.mem_reverse.mpr (List.mem_filterMap.mpr ⟨d, mem, found⟩)) rest

/-- The tables `pre` look the name `d` defines up as `d` defines it. -/
structure HoldsDefinition (pre : PolicyInterpreter) (d : Decl) : Prop where
  lists : ∀ entry ∈ d.listEntry, pre.lists.lookup entry.1 = some entry.2
  macros : ∀ entry ∈ d.macroEntry, pre.macroCtxs.lookup entry.1 = some entry.2

section Compile

variable (env : Env) {pre : PolicyInterpreter}

/-- One declaration of the main pass, against tables that look names up as the acyclic
pre-pass tables do and hold its definition: it is compiled, and the tables still look names
up as before. -/
theorem exitPolicy_sameTables (listsAcyclic : Acyclic pre.lists)
    (macrosAcyclic : MacrosAcyclic pre.macroCtxs) {pi : PolicyInterpreter}
    (same : SameTables pi pre) {d : Decl} (holds : HoldsDefinition pre d) :
    ∃ pi', pi.exitPolicy env d = some pi' ∧ SameTables pi' pre := by
  have returns : ∀ e, ∃ c, visitExpression env pi.lists pi.macroCtxs e = some c := fun e =>
    Option.isSome_iff_exists.mp (visitExpression_isSome
      (same.macrosAcyclic macrosAcyclic) (same.listsAcyclic listsAcyclic) e)
  cases d with
  | plistDecl id items =>
    exact ⟨_, rfl, lookup_cons_of_lookup same.lists (holds.lists _ rfl), same.macros⟩
  | pmacroDecl id e =>
    exact ⟨_, rfl, same.lists, lookup_cons_of_lookup same.macros (holds.macros _ rfl)⟩
  | pfilterDecl _ e _ | pruleDecl _ _ e _ _ _ _ _ =>
    obtain ⟨c, visited⟩ := returns e
    exact ⟨_, Option.map_eq_some'.mpr ⟨c, visited, rfl⟩, same.lists, same.macros⟩

/-- The main pass returns over declarations whose definitions the acyclic pre-pass tables
hold. -/
theorem foldlM_exitPolicy_isSome (listsAcyclic : Acyclic pre.lists)
    (macrosAcyclic : MacrosAcyclic pre.macroCtxs) {decls : List Decl}
    (holds : ∀ d ∈ decls, HoldsDefinition pre d) {pi : PolicyInterpreter}
    (same : SameTables pi pre) : (decls.foldlM (PolicyInterpreter.exitPolicy env) pi).isSome := by
  induction decls generalizing pi with
  | nil => rfl
  | cons d decls ih =>
    obtain ⟨pi', stepped, same'⟩ := exitPolicy_sameTables env listsAcyclic macrosAcyclic same
      (holds d (List.mem_cons_self _ _))
    rw [List.foldlM_cons, stepped]
    exact ih (fun d mem => holds d (List.mem_cons_of_mem _ mem)) same'

/-- `compile` returns on a policy file that defines each list and each macro once, when the
tables its pre-pass builds are acyclic. -/
theorem compile_isSome (pi : PolicyInterpreter) (file : PolicyFile)
    (listsOnce : ((file.decls.filterMap Decl.listEntry).map Prod.fst).Nodup)
    (macrosOnce : ((file.decls.filterMap Decl.macroEntry).map Prod.fst).Nodup)
    (listsAcyclic : Acyclic (file.decls.foldl PolicyInterpreter.exitDef pi).lists)
    (macrosAcyclic : MacrosAcyclic (file.decls.foldl PolicyInterpreter.exitDef pi).macroCtxs) :
    (pi.compile env (.ok file)).isSome := by
  obtain ⟨lists, macros⟩ := foldl_exitDef_tables file.decls pi
  have holds : ∀ d ∈ file.decls,
      HoldsDefinition (file.decls.foldl PolicyInterpreter.exitDef pi) d := fun d mem =>
    ⟨fun _ found => by rw [lists]; exact lookup_prePass listsOnce mem found _,
      fun _ found => by rw [macros]; exact lookup_prePass macrosOnce mem found _⟩
  obtain ⟨pi', walked⟩ := Option.isSome_iff_exists.mp
    (foldlM_exitPolicy_isSome env listsAcyclic macrosAcyclic holds ⟨fun _ => rfl, fun _ => rfl⟩)
  simp only [PolicyInterpreter.compile, walked]
  split <;> rfl

/-- A policy whose rule is on the macro `shell`, which refers to the macro `spawned` and the
list `shells`. -/
def shellPolicy : PolicyFile :=
  ⟨[], [], [.plistDecl "shells" (some "[bash,sh]"),
    .pmacroDecl "spawned" [[.binary "sf.opflags" .eq "EXEC"]],
    .pmacroDecl "shell" [[.var "spawned", .inList "proc.exe" ["shells"]]],
    .pruleDecl "shell spawned" "" [[.var "shell"]] none none none none none]⟩

/-- The tables the pre-pass over `shellPolicy` builds. -/
def shellTables : PolicyInterpreter :=
  shellPolicy.decls.foldl PolicyInterpreter.exitDef ⟨[], [], [], []⟩

theorem shellTables_listsAcyclic : Acyclic shellTables.lists :=
  acyclic_of_entry_rank (fun _ => 0) (by decide)

theorem shellTables_macrosAcyclic : MacrosAcyclic shellTables.macroCtxs :=
  macrosAcyclic_of_entry_rank (fun name => if name = "shell" then 1 else 0) (by decide)

theorem compile_isSome_shell :
    ((shellPolicy.decls.filterMap Decl.listEntry).map Prod.fst).Nodup ∧
      ((shellPolicy.decls.filterMap Decl.macroEntry).map Prod.fst).Nodup ∧
      Acyclic shellTables.lists ∧ MacrosAcyclic shellTables.macroCtxs ∧
      (PolicyInterpreter.compile default ⟨[], [], [], []⟩ (.ok shellPolicy)).isSome :=
  ⟨by decide, by decide, shellTables_listsAcyclic, shellTables_macrosAcyclic,
    compile_isSome default _ shellPolicy (by decide) (by decide) shellTables_listsAcyclic
      shellTables_macrosAcyclic⟩

end Compile

end SfProcessor.Falco
