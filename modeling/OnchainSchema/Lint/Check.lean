import OnchainSchema.Json.Pointer
import OnchainSchema.Lint.Finding

/-! The checks of a document: references, annotations, and the document as a whole. -/
namespace OnchainSchema.Lint

mutual
/-- The objects of a value with their paths, outer before inner and in the order of the text. -/
def objects (path : String) : Json → List (String × Members)
  | .obj ms => (path, ms) :: objectsOfMembers path ms
  | .arr es => objectsOfElems path 0 es
  | _ => []
def objectsOfMembers (path : String) : List (String × Json) → List (String × Members)
  | [] => []
  | (k, v) :: ms => objects (path ++ "/" ++ k) v ++ objectsOfMembers path ms
def objectsOfElems (path : String) (i : Nat) : List Json → List (String × Members)
  | [] => []
  | e :: es => objects (path ++ "/" ++ toString i) e ++ objectsOfElems path (i + 1) es
end

/-- Judges a reference in a document of the directory `dir`. A file that cannot be loaded is left to
its own check. -/
def checkRef (t : FileTree) (dir : Path) (document : Json) (ref : String) : Option Finding :=
  match Ref.Target.ofText ref with
  | .inside pointer =>
    if Text.startsWith "#/" pointer then
      if (document.navigate pointer).isSome then none else some (.anchorNotFound ref)
    else some (.unsupportedRef ref)
  | .outside file fragment =>
    if t.has (dir.join file) then
      match t.source.load (dir.join file) with
      | .ok other =>
        if (other.navigate fragment).isSome then none
        else some (.anchorNotFoundIn file fragment)
      | .error _ => none
    else some (.fileNotFound file)

def refFinding (t : FileTree) (dir : Path) (document : Json) (node : String × Members) :
    Option Located :=
  match Members.get? "$ref" node.2 with
  | some (.str ref) => (checkRef t dir document ref).map (⟨node.1 ++ "/$ref", ·⟩)
  | _ => none

def checkSkipReason : Json → Option Finding
  | .str tag =>
    match SkipReason.parse tag with
    | .other tag => some (.unknownSkipReason tag)
    | _ => none
  | j => some (.skipReasonNoText j.kind)

def checkOverride : Json → Option Finding
  | .str name =>
    match AbiOverride.parse name with
    | .other name => some (.unknownOverride name)
    | .bytes32 => none
  | j => some (.overrideNoText j.kind)

/-- The finding, if any, on the annotation that a node has under a key. -/
def annotationFinding (key : String) (check : Json → Option Finding) (node : String × Members) :
    Option Located :=
  ((Members.get? key node.2).bind check).map (⟨node.1 ++ "/" ++ key, ·⟩)

def annotationFindings (node : String × Members) : List Located :=
  (annotationFinding skipReasonKey checkSkipReason node).toList ++
    (annotationFinding abiOverrideKey checkOverride node).toList

/-- The names of required fields that are no properties; `i` is the place of the first entry. -/
def requiredFindings (properties : Members) (i : Nat) : List Json → List Located
  | [] => []
  | .str name :: rest =>
    if Members.hasKey name properties then requiredFindings properties (i + 1) rest
    else ⟨"/required/" ++ toString i, .requiredNoProperty name⟩ ::
      requiredFindings properties (i + 1) rest
  | _ :: rest => requiredFindings properties (i + 1) rest

def documentFindings (document : Json) : List Located :=
  let properties := ((document.get? "properties").bind Json.members?).getD []
  let required := ((document.get? "required").bind Json.elems?).getD []
  (if properties = [] then [⟨"/", .noProperties⟩] else []) ++
    (if document.textAt? "title" = none then [⟨"/", .noTitle⟩] else []) ++
    requiredFindings properties 0 required

/-- All findings in a document: on references, then on annotations, then on the document. -/
def checkDocument (t : FileTree) (dir : Path) (document : Json) : List Located :=
  (objects "" document).filterMap (refFinding t dir document) ++
    (objects "" document).flatMap annotationFindings ++ documentFindings document

def checkFile (t : FileTree) (file : Path) : List Located :=
  match t.source.load file with
  | .ok document => checkDocument t file.directory document
  | .error error => [⟨"/", .notLoaded error⟩]

end OnchainSchema.Lint
