import OnchainSchema.Abi.Mapping
import OnchainSchema.Ref.Target
import OnchainSchema.Source

/-! What happened during a compilation: accesses to the source, and events for the log. -/
namespace OnchainSchema

inductive Level where
  | debug
  | info
  | warn
  deriving DecidableEq, Repr

def Level.text : Level → String
  | .debug => "DEBUG"
  | .info => "INFO"
  | .warn => "WARN"

inductive Event where
  | servedFromCache (file : String)
  | externalNotLoaded (file : String) (error : LoadError)
  | refNotResolved (ref : String) (fault : Ref.Fault)
  | refLeft (ref : String)
  | fieldSkipped (field : String) (reason : SkipReason)
  | slotReserved (field : String)
  | fieldDropped (field : String) (cause : DropCause)
  | revocationDetected
  | zeroResolver
  | compiled (name schema : String)
  | uidDerived (uid : String)
  deriving DecidableEq, Repr

/-- The field whose service handling makes a schema revocable. -/
def revokedField : String := "revoked"

def DropCause.message : DropCause → String
  | .noItemType => "array has no determinable item type"
  | .nestedArray => "arrays of arrays are not supported"

namespace Event

def level : Event → Level
  | .servedFromCache _ => .debug
  | .externalNotLoaded _ _ | .refNotResolved _ _ | .refLeft _ | .fieldDropped _ _ => .warn
  | _ => .info

def message : Event → String
  | .servedFromCache file => "external schema served from cache file=" ++ file
  | .externalNotLoaded file error =>
    "could not load external schema " ++ file ++ ": " ++ error.message
  | .refNotResolved ref fault => "cannot resolve $ref " ++ ref ++ ": " ++ fault.message
  | .refLeft ref => "leaving $ref " ++ ref ++ " unresolved"
  | .fieldSkipped field reason => "skipping field " ++ field ++ ": skip reason " ++ reason.text
  | .slotReserved field =>
    "including field " ++ field ++ " despite skip reason unused: reserved slot"
  | .fieldDropped field cause => "dropping field " ++ field ++ ": " ++ cause.message
  | .revocationDetected =>
    "revocable: true (field " ++ revokedField ++ " is handled by the attestation service)"
  | .zeroResolver => "no resolver supplied, using the zero address"
  | .compiled name schema => "compiled schema " ++ name ++ ": " ++ schema
  | .uidDerived uid => "schema UID: " ++ uid

/-- The line of the log. -/
def line (e : Event) : String := e.level.text ++ " " ++ e.message

end Event

inductive Note where
  /-- Asked the source whether it has a document. -/
  | checked (path : Path)
  /-- Asked the source for the text of a document. -/
  | opened (path : Path)
  /-- Obtained the document of a file named in a reference. -/
  | obtained (file : String)
  | logged (event : Event)
  deriving DecidableEq, Repr

abbrev Journal := List Note

namespace Journal

def reads (j : Journal) : List Path :=
  j.filterMap fun
    | .opened path => some path
    | _ => none

def events (j : Journal) : List Event :=
  j.filterMap fun
    | .logged event => some event
    | _ => none

/-- The files named in references whose documents were obtained. -/
def obtained (j : Journal) : List String :=
  j.filterMap fun
    | .obtained file => some file
    | _ => none

/-- The accesses to the source. -/
def accesses (j : Journal) : Journal :=
  j.filter fun
    | .checked _ | .opened _ => true
    | _ => false

@[simp] theorem events_append (j k : Journal) : (j ++ k : Journal).events = j.events ++ k.events :=
  List.filterMap_append

@[simp] theorem obtained_append (j k : Journal) :
    (j ++ k : Journal).obtained = j.obtained ++ k.obtained :=
  List.filterMap_append

@[simp] theorem accesses_append (j k : Journal) :
    (j ++ k : Journal).accesses = j.accesses ++ k.accesses :=
  List.filter_append ..

end Journal

end OnchainSchema
