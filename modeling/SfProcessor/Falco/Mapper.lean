import SfProcessor.Falco.Record

/-!
# The field mapper

`FieldMapper` and its typed views `Map`, `MapInt` and `MapStr` (package `falco`), the
field maps of the exported attributes, and the table `getExportedMappers`. The functions of
other packages the field maps call are the section variable `lib`.
-/

namespace SfProcessor.Falco

open Strings Strconv

/-- `FieldMap` is a functional type denoting a SysFlow attribute mapper. -/
abbrev FieldMap := Record → Value

/-- `MappingType` defines a mapping type. -/
inductive MappingType where
  | mapIntVal | mapStrVal | mapBoolVal | mapArrayStr | mapArrayInt
  | mapSpecialInt | mapSpecialStr | mapSpecialBool | mapArraySvc
  deriving DecidableEq, Repr

/-- `FieldEntry` is an object that stores metadata for each field in the exported map. Of its
fields the modelled code reads the field map; the type is kept to classify the attributes. -/
structure FieldEntry where
  map : FieldMap
  type : MappingType

/-- `int64(v)` for an integer the sum of two `int64`s may push out of range. -/
def toInt64 (v : Int) : Int := (v + int64Bound) % (2 * int64Bound) - int64Bound

/-- `int32(v)`. -/
def toInt32 (v : Int) : Int := (v + int32Bound) % (2 * int32Bound) - int32Bound

/-- Modelled from the spec: `SPACE`, the separator of `sf.proc.cmdline`. -/
def SPACE : String := " "

/-- Modelled from the spec: the attribute name `sf.proc.tty`. -/
def sfProcTty : String := "sf.proc.tty"

/-- Modelled from the spec: the attribute name `sf.proc.entry`. -/
def sfProcEntry : String := "sf.proc.entry"

section FieldMaps

variable (lib : Library)

def mapStr (attr : Attribute) : FieldMap := fun r => .str (r.getStr attr)

def mapInt (attr : Attribute) : FieldMap := fun r => .int64 (r.getInt attr)

def mapIntArray (attr : Attribute) : FieldMap := fun r => .intArray (r.getIntArray attr)

def mapSvcArray (attr : Attribute) : FieldMap := fun r => .svcArray (r.getSvcArray attr)

def mapSum (attrs : List Attribute) : FieldMap := fun r =>
  .int64 (attrs.foldl (fun sum attr => toInt64 (sum + r.getInt attr)) 0)

/-- `mapJoin`, whose variadic `attrs` is never empty: it reads `attrs[0]` first. -/
def mapJoin (first : Attribute) (attrs : List Attribute) : FieldMap := fun r =>
  .str (attrs.foldl (fun join attr => join ++ SPACE ++ r.getStr attr) (r.getStr first))

def mapRecType : FieldMap := fun r => .str (lib.recTypeString (r.getInt .sfRecType))

def mapOpFlags : FieldMap := fun r =>
  .str (joinList (lib.opFlags (toInt32 (r.getInt .evProcOpflagsInt)) (r.getInt .sfRecType)))

def mapRet : FieldMap := fun r =>
  let rtype := r.getInt .sfRecType
  if rtype = lib.procEvt ∨ rtype = lib.fileEvt then .int64 (r.getInt .retInt) else .int64 0

def mapEndTs : FieldMap := fun r =>
  let rtype := r.getInt .sfRecType
  if rtype = lib.fileFlow then .int64 (r.getInt .flFileEndtsInt)
  else if rtype = lib.netFlow then .int64 (r.getInt .flNetwEndtsInt)
  else if rtype = lib.k8sEvt then .int64 (r.getInt .tsInt)
  else .int64 0

def mapName (attr : Attribute) : FieldMap := fun r => .str (lib.base (r.getStr attr))

def mapPath (attr : Attribute) : FieldMap := fun r => .str (lib.parseSymPath (r.getStr attr)).1

def mapSymlink (attr : Attribute) : FieldMap := fun r => .str (lib.parseSymPath (r.getStr attr)).2

def mapDir (attr : Attribute) : FieldMap := fun r =>
  .str (lib.dir (lib.parseSymPath (r.getStr attr)).1)

def mapFileType (attr : Attribute) : FieldMap := fun r => .str (lib.fileType (r.getInt attr))

def mapIsOpenWrite (attr : Attribute) : FieldMap := fun r => .bool (lib.isOpenWrite (r.getInt attr))

def mapIsOpenRead (attr : Attribute) : FieldMap := fun r => .bool (lib.isOpenRead (r.getInt attr))

def mapOpenFlags (attr : Attribute) : FieldMap := fun r =>
  .str (joinList (lib.openFlags (r.getInt attr)))

def mapPort (attrs : List Attribute) : FieldMap := fun r =>
  .str (joinList (attrs.map fun attr => formatInt (r.getInt attr)))

def mapIP (attrs : List Attribute) : FieldMap := fun r =>
  .str (joinList (attrs.map fun attr => lib.ipStr (toInt32 (r.getInt attr))))

def mapContType (attr : Attribute) : FieldMap := fun r => .str (lib.contType (r.getInt attr))

def mapAction (attr : Attribute) : FieldMap := fun r => .str (lib.k8sAction (r.getInt attr))

def mapKind (attr : Attribute) : FieldMap := fun r => .str (lib.k8sComponent (r.getInt attr))

def mapCachedValue (attr : RecAttribute) : FieldMap := fun r =>
  r.getCachedValue ⟨r.getInt .procOidCreatetsInt, r.getInt .procOidHpidInt⟩ attr

/-- The bytes `mapOID` writes to the hasher: the decimal forms of its attributes, in order. -/
def oidHashInput (attrs : List Attribute) (r : Record) : String :=
  String.join (attrs.map fun attr => formatInt (r.getInt attr))

def mapOID (attrs : List Attribute) : FieldMap := fun r => .str (lib.xxhashHex (oidHashInput attrs r))

/-- `getExportedMappers` defines all mappers for exported attributes. The attribute names are
constants missing from the sources; they are modelled from the spec, which names attributes by
the dotted lower-case form of the constant (`SF_PROC_EXE` is `sf.proc.exe`). -/
def getExportedMappers : List (String × FieldEntry) := [
  ("sf.type", ⟨mapRecType lib, .mapSpecialStr⟩),
  ("sf.opflags", ⟨mapOpFlags lib, .mapArrayStr⟩),
  ("sf.ret", ⟨mapRet lib, .mapSpecialInt⟩),
  ("sf.ts", ⟨mapInt .tsInt, .mapIntVal⟩),
  ("sf.endts", ⟨mapEndTs lib, .mapSpecialInt⟩)] ++ [
  ("sf.proc.oid", ⟨mapOID lib [.procOidHpidInt, .procOidCreatetsInt], .mapSpecialStr⟩),
  ("sf.proc.pid", ⟨mapInt .procOidHpidInt, .mapIntVal⟩),
  ("sf.proc.name", ⟨mapName lib .procExeStr, .mapSpecialStr⟩),
  ("sf.proc.exe", ⟨mapStr .procExeStr, .mapStrVal⟩),
  ("sf.proc.args", ⟨mapStr .procExeargsStr, .mapStrVal⟩),
  ("sf.proc.uid", ⟨mapInt .procUidInt, .mapIntVal⟩),
  ("sf.proc.user", ⟨mapStr .procUsernameStr, .mapStrVal⟩),
  ("sf.proc.tid", ⟨mapInt .tidInt, .mapIntVal⟩),
  ("sf.proc.gid", ⟨mapInt .procGidInt, .mapIntVal⟩),
  ("sf.proc.group", ⟨mapStr .procGroupnameStr, .mapStrVal⟩),
  ("sf.proc.createts", ⟨mapInt .procOidCreatetsInt, .mapIntVal⟩),
  ("sf.proc.tty", ⟨mapInt .procTtyInt, .mapBoolVal⟩),
  ("sf.proc.entry", ⟨mapInt .procEntryInt, .mapBoolVal⟩),
  ("sf.proc.cmdline", ⟨mapJoin .procExeStr [.procExeargsStr], .mapSpecialStr⟩),
  ("sf.proc.aname", ⟨mapCachedValue .procAName, .mapArrayStr⟩),
  ("sf.proc.aexe", ⟨mapCachedValue .procAExe, .mapArrayStr⟩),
  ("sf.proc.acmdline", ⟨mapCachedValue .procACmdLine, .mapArrayStr⟩),
  ("sf.proc.apid", ⟨mapCachedValue .procAPID, .mapArrayInt⟩)] ++ [
  ("sf.pproc.oid", ⟨mapOID lib [.procPoidHpidInt, .procPoidCreatetsInt], .mapSpecialStr⟩),
  ("sf.pproc.pid", ⟨mapInt .procPoidHpidInt, .mapIntVal⟩),
  ("sf.pproc.name", ⟨mapCachedValue .pprocName, .mapSpecialStr⟩),
  ("sf.pproc.exe", ⟨mapCachedValue .pprocExe, .mapSpecialStr⟩),
  ("sf.pproc.args", ⟨mapCachedValue .pprocArgs, .mapSpecialStr⟩),
  ("sf.pproc.uid", ⟨mapCachedValue .pprocUID, .mapSpecialInt⟩),
  ("sf.pproc.user", ⟨mapCachedValue .pprocUser, .mapSpecialStr⟩),
  ("sf.pproc.gid", ⟨mapCachedValue .pprocGID, .mapSpecialInt⟩),
  ("sf.pproc.group", ⟨mapCachedValue .pprocGroup, .mapSpecialStr⟩),
  ("sf.pproc.createts", ⟨mapInt .procPoidCreatetsInt, .mapIntVal⟩),
  ("sf.pproc.tty", ⟨mapCachedValue .pprocTTY, .mapSpecialInt⟩),
  ("sf.pproc.entry", ⟨mapCachedValue .pprocEntry, .mapSpecialInt⟩),
  ("sf.pproc.cmdline", ⟨mapCachedValue .pprocCmdLine, .mapSpecialStr⟩)] ++ [
  ("sf.file.name", ⟨mapName lib .filePathStr, .mapSpecialStr⟩),
  ("sf.file.path", ⟨mapPath lib .filePathStr, .mapSpecialStr⟩),
  ("sf.file.symlink", ⟨mapSymlink lib .filePathStr, .mapSpecialStr⟩),
  ("sf.file.oid", ⟨mapStr .fileOidStr, .mapStrVal⟩),
  ("sf.file.directory", ⟨mapDir lib .filePathStr, .mapSpecialStr⟩),
  ("sf.file.newname", ⟨mapName lib .secFilePathStr, .mapSpecialStr⟩),
  ("sf.file.newpath", ⟨mapPath lib .secFilePathStr, .mapStrVal⟩),
  ("sf.file.newsymlink", ⟨mapSymlink lib .secFilePathStr, .mapSpecialStr⟩),
  ("sf.file.newoid", ⟨mapStr .secFileOidStr, .mapStrVal⟩),
  ("sf.file.newdirectory", ⟨mapDir lib .secFilePathStr, .mapSpecialStr⟩),
  ("sf.file.type", ⟨mapFileType lib .fileRestypeInt, .mapSpecialStr⟩),
  ("sf.file.is_open_write", ⟨mapIsOpenWrite lib .flFileOpenflagsInt, .mapSpecialBool⟩),
  ("sf.file.is_open_read", ⟨mapIsOpenRead lib .flFileOpenflagsInt, .mapSpecialBool⟩),
  ("sf.file.fd", ⟨mapInt .flFileFdInt, .mapIntVal⟩),
  ("sf.file.openflags", ⟨mapOpenFlags lib .flFileOpenflagsInt, .mapArrayStr⟩)] ++ [
  ("sf.net.proto", ⟨mapInt .flNetwProtoInt, .mapIntVal⟩),
  ("sf.net.sport", ⟨mapInt .flNetwSportInt, .mapIntVal⟩),
  ("sf.net.dport", ⟨mapInt .flNetwDportInt, .mapIntVal⟩),
  ("sf.net.port", ⟨mapPort [.flNetwSportInt, .flNetwDportInt], .mapArrayStr⟩),
  ("sf.net.sip", ⟨mapIP lib [.flNetwSipInt], .mapSpecialStr⟩),
  ("sf.net.dip", ⟨mapIP lib [.flNetwDipInt], .mapSpecialStr⟩),
  ("sf.net.ip", ⟨mapIP lib [.flNetwSipInt, .flNetwDipInt], .mapArrayStr⟩)] ++ [
  ("sf.flow.rbytes",
    ⟨mapSum [.flFileNumrrecvbytesInt, .flNetwNumrrecvbytesInt], .mapSpecialInt⟩),
  ("sf.flow.rops", ⟨mapSum [.flFileNumrrecvopsInt, .flNetwNumrrecvopsInt], .mapSpecialInt⟩),
  ("sf.flow.wbytes",
    ⟨mapSum [.flFileNumwsendbytesInt, .flNetwNumwsendbytesInt], .mapSpecialInt⟩),
  ("sf.flow.wops", ⟨mapSum [.flFileNumwsendopsInt, .flNetwNumwsendopsInt], .mapSpecialInt⟩)] ++ [
  ("sf.container.id", ⟨mapStr .contIdStr, .mapStrVal⟩),
  ("sf.container.name", ⟨mapStr .contNameStr, .mapStrVal⟩),
  ("sf.container.imageid", ⟨mapStr .contImageidStr, .mapStrVal⟩),
  ("sf.container.image", ⟨mapStr .contImageStr, .mapStrVal⟩),
  ("sf.container.type", ⟨mapContType lib .contTypeInt, .mapSpecialStr⟩),
  ("sf.container.privileged", ⟨mapInt .contPrivilegedInt, .mapIntVal⟩)] ++ [
  ("sf.pod.ts", ⟨mapInt .podTsInt, .mapIntVal⟩),
  ("sf.pod.id", ⟨mapStr .podIdStr, .mapStrVal⟩),
  ("sf.pod.name", ⟨mapStr .podNameStr, .mapStrVal⟩),
  ("sf.pod.nodename", ⟨mapStr .podNodenameStr, .mapStrVal⟩),
  ("sf.pod.namespace", ⟨mapStr .podNamespaceStr, .mapStrVal⟩),
  ("sf.pod.restartcount", ⟨mapInt .podRestartcountInt, .mapIntVal⟩),
  ("sf.pod.hostip.json", ⟨mapStr .podHostipStr, .mapStrVal⟩),
  ("sf.pod.hostip", ⟨mapIntArray .podHostipAny, .mapArrayInt⟩),
  ("sf.pod.internalip.json", ⟨mapStr .podInternalipStr, .mapStrVal⟩),
  ("sf.pod.internalip", ⟨mapIntArray .podInternalipAny, .mapArrayInt⟩),
  ("sf.pod.services.json", ⟨mapStr .podServicesStr, .mapStrVal⟩),
  ("sf.pod.services", ⟨mapSvcArray .podServicesAny, .mapArraySvc⟩)] ++ [
  ("sf.ke.action", ⟨mapAction lib .k8seActionInt, .mapSpecialStr⟩),
  ("sf.ke.kind", ⟨mapKind lib .k8seKindInt, .mapSpecialStr⟩),
  ("sf.ke.message", ⟨mapStr .k8seMessageStr, .mapStrVal⟩)] ++ [
  ("sf.node.id", ⟨mapStr .sfheExporterStr, .mapStrVal⟩),
  ("sf.node.ip", ⟨mapStr .sfheIpStr, .mapStrVal⟩)] ++ [
  ("sf.schema", ⟨mapInt .sfheVersionInt, .mapIntVal⟩),
  ("sf.tracename", ⟨mapName lib .sfheFilenameStr, .mapSpecialStr⟩)]

/-- `getMappers`: the exported mappers, then each non-exported one whose key is not exported.
The non-exported table `getNonExportedMappers` is keyed by Falco attribute names, constants
missing from the sources, so it is given as `nonExported`. -/
def getMappers (nonExported : List (String × FieldEntry)) : List (String × FieldEntry) :=
  getExportedMappers lib ++
    nonExported.filter fun entry => ((getExportedMappers lib).lookup entry.1).isNone

end FieldMaps

/-- `FieldMapper` is an adapter for SysFlow attribute mappers. -/
structure FieldMapper where
  mappers : List (String × FieldEntry)

namespace FieldMapper

variable (m : FieldMapper)

/-- Whether `attr` is a key of `Mappers`. -/
def isRegistered (attr : String) : Bool := (m.mappers.lookup attr).isSome

/-- `Map` retrieves a field map based on a SysFlow attribute; an attribute no entry has maps
to itself, as a string. -/
def map (attr : String) : FieldMap :=
  match m.mappers.lookup attr with
  | some mapper => mapper.map
  | none => fun _ => .str attr

/-- `MapInt` retrieves a numerical field map based on a SysFlow attribute. -/
def mapInt (attr : String) (r : Record) : Int :=
  match m.map attr r with
  | .int64 v => v
  | _ => (parseInt attr).getD 0

/-- The first half of `MapStr`: the attribute to map, the JSON path, and whether `attr` is a
path expression `base[path]` on a registered `base`. -/
def pathExp (attr : String) : String × String × Bool :=
  match cut attr '[' with
  | (baseattr, jsonpath, true) => (baseattr, jsonpath, m.isRegistered baseattr)
  | (_, jsonpath, false) => (attr, jsonpath, false)

/-- The JSON path `MapStr` passes to `gjson.Get`: on a path expression Go trims the closing
`]` with `jsonpath[:len(jsonpath)-1]`, which panics (`none`) on an empty path. -/
def mapStrPath (attr : String) : Option String :=
  let (_, jsonpath, isPathExp) := m.pathExp attr
  if isPathExp then sliceTo jsonpath (jsonpath.length - 1) else some jsonpath

/-- `MapStr` retrieves a string field map based on a SysFlow attribute. Where the slice that
trims the path panics (`mapStrPath` is `none`), the criterion evaluating the map panics with
it; the model has no panics and returns `sfgo.Zeros.String` there, and the theorems about
`MapStr` keep to operands whose path slices (`mapStrPath_eq_none_iff` names the others). -/
def mapStr (lib : Library) (attr : String) (r : Record) : String :=
  let (baseattr, _, isPathExp) := m.pathExp attr
  match m.mapStrPath attr with
  | none => ""
  | some jsonpath =>
      match m.map baseattr r with
      | .str v =>
        if isPathExp && v != "" && jsonpath != "" then lib.gjsonGet v jsonpath
        else trimBoundingQuotes v
      | .int64 v =>
        if baseattr == sfProcTty || baseattr == sfProcEntry then formatBool (v != 0)
        else formatInt v
      | .int32 v => formatInt v
      | .bool v => formatBool v
      | _ => ""

/-- A literal that is neither an attribute name nor a path expression maps to itself, without
its bounding quotes. -/
theorem mapStr_of_not_registered (lib : Library) {x : String} (r : Record)
    (unregistered : m.isRegistered x = false) (noBracket : '[' ∉ x.data) :
    m.mapStr lib x r = trimBoundingQuotes x := by
  have unmapped : m.mappers.lookup x = none := by simpa [isRegistered] using unregistered
  simp [mapStr, mapStrPath, pathExp, cut_of_not_mem noBracket, map, unmapped]

end FieldMapper

/-- What the field mapper takes from outside the sources: the other packages' functions, and
the non-exported mapper table. -/
structure Env where
  lib : Library
  nonExported : List (String × FieldEntry)
  deriving Inhabited

/-- `Mapper` defines a global attribute mapper instance. -/
def Mapper (env : Env) : FieldMapper := ⟨getMappers env.lib env.nonExported⟩

end SfProcessor.Falco
