import OnchainSchema.Registry
import OnchainSchema.Text.Lower
import OnchainSchema.Text.Pieces

/-! Decentralised identifiers: their canonical form and the address that indexes a subject. -/
namespace OnchainSchema.Did

inductive Fault where
  | notADid (value : String)
  | malformedPkh (did : String)
  deriving DecidableEq, Repr

def Fault.message : Fault → String
  | .notADid value => "not a DID: \"" ++ value ++ "\""
  | .malformedPkh did =>
    "malformed did:pkh \"" ++ did ++ "\": expected did:pkh:<namespace>:<chainId>:<address>"

/-- Begins with `did:`, in any case of its letters. -/
def hasScheme (did : String) : Bool :=
  (did.toList.take 4).map Char.toLower == ['d', 'i', 'd', ':']

/-- Scheme and method are written in lower case, and so are the host of a `web` and the account of a
`pkh` identifier; an identifier of any other method is in lower case throughout. -/
def canonical (did : String) : Except Fault String :=
  if hasScheme did then
    match Text.split ':' did with
    | _ :: method :: rest =>
      if Text.lower method = "web" then
        match rest with
        | host :: path => .ok (Text.join ":" ("did" :: "web" :: Text.lower host :: path))
        | [] => .ok (Text.lower did)
      else if Text.lower method = "pkh" then
        match rest with
        | [namespace_, chain, account] =>
          .ok (Text.join ":" ["did", "pkh", namespace_, chain, Text.lower account])
        | _ => .error (.malformedPkh did)
      else .ok (Text.lower did)
    | _ => .error (.notADid did)
  else .error (.notADid did)

def hash (did : String) : Except Fault Hash := (canonical did).map (Keccak.hash <| Text.bytes ·)

/-- Keeps the hashes of index addresses apart from other uses. -/
def indexDomain : String := "DID:Index:v1:"

def indexPreimage (h : Hash) : List UInt8 :=
  Text.bytes (indexDomain ++ String.ofList (Hex.encode h.toList))

/-- The last 20 bytes of a hash. -/
def addressOf (h : Hash) : Address := Vector.ofFn fun i => h.get ⟨i.val + 12, by omega⟩

def indexAddress (did : String) : Except Fault Address :=
  (hash did).map fun h => addressOf (Keccak.hash (indexPreimage h))

end OnchainSchema.Did
