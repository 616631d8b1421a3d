import SfProcessor.Falco.Mapper

/-!
# What the views of an attribute compute

`MapStr`, `MapInt` and `Map` on the two kinds of operand a policy holds: attribute names,
with or without a JSON path, and literals.

## Main results

`mapStr_of_int64`: on an attribute whose field map returns an `int64`, the string view is its
decimal form and the integer view the value itself (the process tty and entry flags apart).
`mapStr_of_int32`: on an `int32`, as the process cache holds for the parent's ids, the views
part, since `MapInt` has no `int32` case.

`mapStr_of_unregistered_base`: an operand with a `[` whose part before it is not an attribute
maps to that part alone. `mapStrPath_eq_none_iff`: the slice that trims a JSON path panics
exactly on a registered attribute followed by a bare `[`.

The bytes `mapOID` hashes are the decimal forms of the process id and creation time with no
separator, so two process identities can share an OID whatever the hash.
-/

namespace SfProcessor.Falco

open Strings Strconv

/-- `"["`, the separator `MapStr` cuts at. -/
theorem bracket_eq_singleton : "[" = String.singleton '[' := rfl

namespace FieldMapper

variable (m : FieldMapper)

/-! ### Path expressions -/

/-- An operand with a `[` is cut at the first `[`; it is a path expression when the part
before is registered, and the part after is the path. -/
theorem pathExp_append {base rest : String} (absent : '[' ∉ base.data) :
    m.pathExp (base ++ "[" ++ rest) = (base, rest, m.isRegistered base) := by
  simp [pathExp, bracket_eq_singleton, cut_append absent]

/-- An operand with no `[` is no path expression, and its path slices to nothing. -/
theorem mapStrPath_of_not_mem {attr : String} (absent : '[' ∉ attr.data) :
    m.mapStrPath attr = some "" := by
  simp [mapStrPath, pathExp, cut_of_not_mem absent]

/-- A path expression is a registered attribute, a `[`, and the path. -/
theorem pathExp_of_isPathExp {attr : String} (isPathExp : (m.pathExp attr).2.2 = true) :
    '[' ∉ (m.pathExp attr).1.data ∧ m.isRegistered (m.pathExp attr).1 = true ∧
      attr = (m.pathExp attr).1 ++ "[" ++ (m.pathExp attr).2.1 := by
  unfold pathExp at isPathExp ⊢
  split at isPathExp
  next base path found =>
    obtain ⟨absent, split⟩ := cut_eq_found found
    exact ⟨absent, isPathExp, split⟩
  next => cases isPathExp

/-- `MapStr` slices out of range exactly on a registered attribute followed by a bare `[`. -/
theorem mapStrPath_eq_none_iff (attr : String) :
    m.mapStrPath attr = none ↔
      ∃ base, '[' ∉ base.data ∧ m.isRegistered base = true ∧ attr = base ++ "[" := by
  constructor
  · intro panics
    by_cases isPathExp : (m.pathExp attr).2.2 = true
    · obtain ⟨absent, registered, split⟩ := m.pathExp_of_isPathExp isPathExp
      have empty : (m.pathExp attr).2.1 = "" := by
        simpa [mapStrPath, isPathExp, sliceTo_pred_length_eq_none_iff] using panics
      exact ⟨_, absent, registered, by rwa [empty, String.append_empty] at split⟩
    · simp [mapStrPath, isPathExp] at panics
  · rintro ⟨base, absent, registered, rfl⟩
    have path : m.pathExp (base ++ "[" ++ "") = _ := m.pathExp_append absent
    simp only [String.append_empty] at path
    simp [mapStrPath, path, registered, sliceTo]

/-! ### Literals -/

/-- An operand with a `[` whose part before the first `[` is not registered is no path
expression, yet `MapStr` maps that part, not the operand: an unregistered name maps to itself,
so the result is the part before the `[` without its quotes. -/
theorem mapStr_of_unregistered_base (lib : Library) {base rest : String} (r : Record)
    (absent : '[' ∉ base.data) (unregistered : m.isRegistered base = false) :
    m.mapStr lib (base ++ "[" ++ rest) r = trimBoundingQuotes base := by
  have unmapped : m.mappers.lookup base = none := by simpa [isRegistered] using unregistered
  simp [mapStr, mapStrPath, pathExp_append m absent, unregistered, map, unmapped]

/-! ### Integer values -/

/-- Where the field map returns an `int64`, `MapStr` renders it in decimal and `MapInt`
returns it, unless the attribute is one of the two flags `MapStr` renders as booleans. -/
theorem mapStr_of_int64 (lib : Library) {attr : String} {r : Record} {v : Int}
    (absent : '[' ∉ attr.data) (value : m.map attr r = .int64 v)
    (notFlag : attr ≠ sfProcTty ∧ attr ≠ sfProcEntry) :
    m.mapStr lib attr r = formatInt v ∧ m.mapInt attr r = v := by
  simp [mapStr, mapStrPath, pathExp, cut_of_not_mem absent, value, notFlag, mapInt]

/-- Where the field map returns an `int32`, `MapStr` renders it in decimal, while `MapInt`,
which has no `int32` case, parses the attribute name instead. -/
theorem mapStr_of_int32 (lib : Library) {attr : String} {r : Record} {v : Int}
    (absent : '[' ∉ attr.data) (value : m.map attr r = .int32 v) :
    m.mapStr lib attr r = formatInt v ∧ m.mapInt attr r = (parseInt attr).getD 0 := by
  simp [mapStr, mapStrPath, pathExp, cut_of_not_mem absent, value, mapInt]

end FieldMapper

/-! ### The exported attributes -/

/-- `Mapper` maps an exported attribute by its exported entry, whatever the non-exported
table holds. -/
theorem Mapper_map_of_exported (env : Env) {attr : String} {entry : FieldEntry}
    (exported : (getExportedMappers env.lib).lookup attr = some entry) :
    (Mapper env).map attr = entry.map ∧ (Mapper env).isRegistered attr = true := by
  have found : (Mapper env).mappers.lookup attr = some entry := by
    simp [Mapper, getMappers, List.lookup_append, exported]
  simp [FieldMapper.map, FieldMapper.isRegistered, found]

/-- The exported attribute names do not depend on the library. -/
theorem exported_names (lib : Library) :
    (getExportedMappers lib).map Prod.fst = (getExportedMappers default).map Prod.fst := by
  simp only [getExportedMappers, List.map_append, List.map_cons, List.map_nil]

/-- No exported attribute name holds a `[`: none is read as a path expression, so `MapStr`
never slices out of range on one. -/
theorem not_mem_of_exported (lib : Library) {attr : String} {entry : FieldEntry}
    (exported : (getExportedMappers lib).lookup attr = some entry) : '[' ∉ attr.data := by
  have unbracketed : ∀ name ∈ (getExportedMappers default).map Prod.fst, '[' ∉ name.data := by
    decide
  obtain ⟨p, mem, same⟩ := List.lookup_isSome_iff.mp (Option.isSome_iff_exists.mpr ⟨_, exported⟩)
  rw [beq_iff_eq.mp same]
  exact unbracketed p.1 (exported_names lib ▸ List.mem_map_of_mem _ mem)

/-- The entries of `sf.pproc.uid`, `sf.proc.exe` and `sf.proc.oid`. -/
theorem lookup_pproc_uid (lib : Library) :
    (getExportedMappers lib).lookup "sf.pproc.uid" =
      some ⟨mapCachedValue .pprocUID, .mapSpecialInt⟩ := by
  simp only [getExportedMappers, List.lookup_append, List.lookup_cons, List.lookup_nil]
  rfl

theorem lookup_proc_exe (lib : Library) :
    (getExportedMappers lib).lookup "sf.proc.exe" = some ⟨mapStr .procExeStr, .mapStrVal⟩ := by
  simp only [getExportedMappers, List.lookup_append, List.lookup_cons, List.lookup_nil]
  rfl

theorem lookup_proc_oid (lib : Library) :
    (getExportedMappers lib).lookup "sf.proc.oid" =
      some ⟨mapOID lib [.procOidHpidInt, .procOidCreatetsInt], .mapSpecialStr⟩ := by
  simp only [getExportedMappers, List.lookup_append, List.lookup_cons, List.lookup_nil]
  rfl

/-- A record whose process cache holds the `int32` value `n` under every key, as it does for
the parent's ids. -/
def cachedInt32Record (n : Int) : Record :=
  { (default : Record) with getCachedValue := fun _ _ => .int32 n }

/-- The parent's user id `sf.pproc.uid`, of type `MapSpecialInt`, reads an `int32` from the
process cache: `MapStr` renders it, while `MapInt`, which has no `int32` case, parses the
attribute name instead, fails, and returns 0. A quoted integer literal parts the views too:
`MapStr` drops its quotes, and `ParseInt` rejects them. -/
theorem mapInt_of_cached_int32 (env : Env) (n : Int) (r : Record) :
    ((getExportedMappers env.lib).lookup "sf.pproc.uid").map FieldEntry.type =
        some .mapSpecialInt ∧
      (Mapper env).mapStr env.lib "sf.pproc.uid" (cachedInt32Record n) = formatInt n ∧
      (Mapper env).mapInt "sf.pproc.uid" (cachedInt32Record n) = 0 ∧
      (Mapper default).mapStr (default : Env).lib "\"53\"" r = formatInt 53 ∧
      (Mapper default).mapInt "\"53\"" r = 0 := by
  have value : (Mapper env).map "sf.pproc.uid" (cachedInt32Record n) = .int32 n := by
    simp [(Mapper_map_of_exported env (lookup_pproc_uid env.lib)).1, mapCachedValue,
      cachedInt32Record]
  obtain ⟨str, int⟩ := (Mapper env).mapStr_of_int32 env.lib (by decide) value
  exact ⟨by simp [lookup_pproc_uid], str, int, rfl, rfl⟩

/-- A quoted pattern such as `'[abc]'`, a literal with no registered part, maps to the empty
string: its part before the `[` is a lone quote. -/
theorem mapStr_of_bracket_literal (r : Record) :
    (∀ base rest, base ++ "[" ++ rest = "'[abc]'" → base = "'") ∧
      (Mapper default).isRegistered "'[abc]'" = false ∧
      (Mapper default).isRegistered "'" = false ∧
      (Mapper default).mapStr (default : Env).lib "'[abc]'" r = "" ∧
      trimBoundingQuotes "'[abc]'" = "[abc]" := by
  refine ⟨fun base rest split => ?_, rfl, rfl, rfl, rfl⟩
  have count := congrArg (fun s : String => s.data.count '[') split
  simp only [String.data_append, List.count_append] at count
  have absent : '[' ∉ base.data := List.count_eq_zero.mp (by simp at count; omega)
  have cut_literal : cut "'[abc]'" '[' = (base, rest, true) := by
    rw [← split, bracket_eq_singleton, cut_append absent]
  simpa using (congrArg Prod.fst cut_literal).symm

/-- `sf.proc.exe[`, the attribute `sf.proc.exe` followed by a bare `[`, slices its empty path
out of range, in every environment. -/
theorem mapStr_slices_out_of_range (env : Env) :
    (∀ attr, (Mapper env).mapStrPath attr = none ↔ ∃ base, '[' ∉ base.data ∧
        (Mapper env).isRegistered base = true ∧ attr = base ++ "[") ∧
      (Mapper env).isRegistered "sf.proc.exe" = true ∧
      (Mapper env).mapStrPath "sf.proc.exe[" = none :=
  have registered := (Mapper_map_of_exported env (lookup_proc_exe env.lib)).2
  ⟨(Mapper env).mapStrPath_eq_none_iff, registered,
    ((Mapper env).mapStrPath_eq_none_iff _).mpr ⟨_, by decide, registered, rfl⟩⟩

/-! ### Process identities -/

/-- A record of the process `hpid` created at `createts`. -/
def oidRecord (hpid createts : Int) : Record :=
  { (default : Record) with
    getInt := fun attr =>
      if attr = .procOidHpidInt then hpid else if attr = .procOidCreatetsInt then createts else 0 }

/-- The processes `(1, 23)` and `(12, 3)` hash the same bytes `123`, so they share their
`sf.proc.oid` in every environment, whatever the hash function. -/
theorem mapOID_collides (env : Env) :
    (oidRecord 1 23).getInt .procOidHpidInt ≠ (oidRecord 12 3).getInt .procOidHpidInt ∧
      oidHashInput [.procOidHpidInt, .procOidCreatetsInt] (oidRecord 1 23) = "123" ∧
      oidHashInput [.procOidHpidInt, .procOidCreatetsInt] (oidRecord 12 3) = "123" ∧
      (Mapper env).map "sf.proc.oid" (oidRecord 1 23) =
        (Mapper env).map "sf.proc.oid" (oidRecord 12 3) := by
  refine ⟨by decide, rfl, rfl, ?_⟩
  simp only [(Mapper_map_of_exported env (lookup_proc_oid env.lib)).1, mapOID]
  rfl

end SfProcessor.Falco
