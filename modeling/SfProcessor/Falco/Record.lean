import SfProcessor.Falco.Strings

/-!
# Records and the libraries the mappers call

A SysFlow record as the mappers read it: integer, string and array columns of the flat record
(all in source `SYSFLOW_SRC`, the only source the mapper tables read), and the process
registry cache of ancestor attributes. The `sfgo`, `filepath`, `gjson` and `xxhash` functions
the mappers call, and the Unicode tables of `strings.ToLower`, are not part of this
repository; `Library` takes them as given.
-/

namespace SfProcessor.Falco

/-- The flat record columns (`sfgo.Attribute`) the mapper tables read. -/
inductive Attribute where
  | sfRecType | evProcOpflagsInt | tsInt | retInt
  | procOidHpidInt | procOidCreatetsInt | procPoidHpidInt | procPoidCreatetsInt
  | procExeStr | procExeargsStr | procUidInt | procUsernameStr | tidInt | procGidInt
  | procGroupnameStr | procTtyInt | procEntryInt
  | filePathStr | fileOidStr | secFilePathStr | secFileOidStr | fileRestypeInt
  | flFileOpenflagsInt | flFileFdInt | flFileEndtsInt
  | flFileNumrrecvbytesInt | flFileNumrrecvopsInt | flFileNumwsendbytesInt
  | flFileNumwsendopsInt
  | flNetwProtoInt | flNetwSportInt | flNetwDportInt | flNetwSipInt | flNetwDipInt
  | flNetwEndtsInt | flNetwNumrrecvbytesInt | flNetwNumrrecvopsInt | flNetwNumwsendbytesInt
  | flNetwNumwsendopsInt
  | contIdStr | contNameStr | contImageidStr | contImageStr | contTypeInt | contPrivilegedInt
  | podTsInt | podIdStr | podNameStr | podNodenameStr | podNamespaceStr | podRestartcountInt
  | podHostipStr | podHostipAny | podInternalipStr | podInternalipAny | podServicesStr
  | podServicesAny
  | k8seActionInt | k8seKindInt | k8seMessageStr
  | sfheExporterStr | sfheIpStr | sfheVersionInt | sfheFilenameStr
  deriving DecidableEq, Repr

/-- The keys of the process registry cache (`RecAttribute`). -/
inductive RecAttribute where
  | procAName | procAExe | procACmdLine | procAPID
  | pprocName | pprocExe | pprocArgs | pprocUID | pprocUser | pprocGID | pprocGroup
  | pprocTTY | pprocEntry | pprocCmdLine
  deriving DecidableEq, Repr

/-- A value a field map returns (an `interface{}`): `int64`, `int32`, `string`, `bool`, or a
pointer to an array of integers or of services (`nil` as `none`). Only whether a service array
is nil is read by the modelled code, so it keeps its length alone. -/
inductive Value where
  | int64 (v : Int)
  | int32 (v : Int)
  | str (s : String)
  | bool (b : Bool)
  | intArray (a : Option (List Int))
  | svcArray (a : Option Nat)
  deriving DecidableEq, Repr, Inhabited

/-- A process identity (`sfgo.OID`). -/
structure OID where
  createTS : Int
  hpid : Int
  deriving DecidableEq, Repr

/-- A record, by its accessors `GetInt`, `GetStr`, `GetIntArray`, `GetSvcArray` and
`GetCachedValue`. -/
structure Record where
  getInt : Attribute → Int
  getStr : Attribute → String
  getIntArray : Attribute → Option (List Int)
  getSvcArray : Attribute → Option Nat
  getCachedValue : OID → RecAttribute → Value
  deriving Inhabited

/-- The functions of other packages the mappers and operators call, and the record type codes
`sfgo.PROC_EVT`, `FILE_EVT`, `FILE_FLOW`, `NET_FLOW` and `K8S_EVT`. -/
structure Library where
  recTypeString : Int → String
  opFlags : Int → Int → List String
  fileType : Int → String
  isOpenWrite : Int → Bool
  isOpenRead : Int → Bool
  openFlags : Int → List String
  ipStr : Int → String
  contType : Int → String
  k8sAction : Int → String
  k8sComponent : Int → String
  base : String → String
  dir : String → String
  parseSymPath : String → String × String
  xxhashHex : String → String
  gjsonGet : String → String → String
  unicode : Strings.Unicode
  procEvt : Int
  fileEvt : Int
  fileFlow : Int
  netFlow : Int
  k8sEvt : Int
  deriving Inhabited

end SfProcessor.Falco
