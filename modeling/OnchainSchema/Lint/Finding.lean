import OnchainSchema.Journal

/-! What lint can find in a schema file. -/
namespace OnchainSchema.Lint

inductive Severity where
  | error
  | warning
  deriving DecidableEq, Repr

inductive Finding where
  | notLoaded (error : LoadError)
  | fileNotFound (file : String)
  | anchorNotFound (ref : String)
  | anchorNotFoundIn (file fragment : String)
  | unsupportedRef (ref : String)
  | noProperties
  | noTitle
  | unknownSkipReason (tag : String)
  | skipReasonNoText (kind : String)
  | unknownOverride (name : String)
  | overrideNoText (kind : String)
  | requiredNoProperty (name : String)
  deriving DecidableEq, Repr

namespace Finding

def code : Finding → String
  | .notLoaded _ => "E001"
  | .fileNotFound _ => "E002"
  | .anchorNotFound _ | .anchorNotFoundIn _ _ => "E003"
  | .unsupportedRef _ => "E004"
  | .noProperties => "W001"
  | .noTitle => "W002"
  | .unknownSkipReason _ | .skipReasonNoText _ => "W003"
  | .unknownOverride _ | .overrideNoText _ => "W004"
  | .requiredNoProperty _ => "W005"

def severity : Finding → Severity
  | .notLoaded _ | .fileNotFound _ | .anchorNotFound _ | .anchorNotFoundIn _ _
  | .unsupportedRef _ => .error
  | _ => .warning

def message : Finding → String
  | .notLoaded error => "syntax error: " ++ error.message
  | .fileNotFound file => "file not found: " ++ file
  | .anchorNotFound ref => "anchor not found: " ++ ref
  | .anchorNotFoundIn file fragment => "anchor not found in " ++ file ++ ": " ++ fragment
  | .unsupportedRef ref => "unsupported $ref format: " ++ ref
  | .noProperties =>
    "no properties: shared-definitions file, cannot be compiled on its own"
  | .noTitle => "schema missing title: a name override will be required"
  | .unknownSkipReason tag =>
    "unknown skip reason \"" ++ tag ++
      "\": expected metadata, eas, or unused; field will be included"
  | .skipReasonNoText kind =>
    "invalid " ++ skipReasonKey ++ " type: expected string, got " ++ kind
  | .unknownOverride name =>
    "unknown ABI override \"" ++ name ++ "\": expected bytes32; ignored"
  | .overrideNoText kind =>
    "invalid " ++ abiOverrideKey ++ " type: expected string, got " ++ kind
  | .requiredNoProperty name => "required field \"" ++ name ++ "\" is not a property"

end Finding

/-- A finding at a place of a document. -/
structure Located where
  path : String
  finding : Finding
  deriving DecidableEq, Repr

end OnchainSchema.Lint
