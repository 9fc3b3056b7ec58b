import OnchainSchema.Abi.Mapping

/-!
The view of a property schema that decides its type: a declared type, or the branches of its
compositions, of which one type is chosen by rank.
-/
namespace OnchainSchema

/-- A `type` keyword: one type or a list. -/
inductive TypeDecl where
  | single (name : String)
  | union (names : List String)
  deriving DecidableEq, Repr

/-- A member of a composition: its own type, and the types of the properties of its conditionals. -/
structure Branch where
  own : Option TypeDecl
  conditional : List TypeDecl
  deriving DecidableEq, Repr

inductive Shape where
  | declared (decl : TypeDecl)
  | composed (branches : List Branch)
  | untyped
  deriving DecidableEq, Repr

structure Property where
  shape : Shape
  pattern : Option String
  /-- The schema of the items as it stands, which may refer elsewhere. -/
  items : Option Json
  skipReason : Option SkipReason
  override : Option AbiOverride

namespace TypeDecl

def ofJson? : Json → Option TypeDecl
  | .str s => some (.single s)
  | .arr es => some (.union (es.filterMap Json.text?))
  | _ => none

/-- The declared type of a schema. -/
def of? (schema : Json) : Option TypeDecl := (schema.get? "type").bind ofJson?

def isNull (name : String) : Bool := Text.sameLetters "null" name

/-- The type that stands for the declaration: of a list the first that is not null, or the first. -/
def primary? : TypeDecl → Option String
  | .single name => some (Text.lower name)
  | .union names => ((names.find? (!isNull ·)).or names.head?).map Text.lower

end TypeDecl

namespace Branch

def conditionalKeywords : List String := ["then", "else"]

/-- The schemas of the properties directly under a conditional keyword. -/
def conditionalSchemas (member : Json) (keyword : String) : List Json :=
  match (member.get? keyword).bind (·.get? "properties") with
  | some (.obj ms) => ms.map Prod.snd
  | _ => []

def ofJson (member : Json) : Branch where
  own := TypeDecl.of? member
  conditional :=
    (conditionalKeywords.flatMap (conditionalSchemas member)).filterMap TypeDecl.of?

def candidates (b : Branch) : List String :=
  (b.own.toList ++ b.conditional).filterMap TypeDecl.primary?

end Branch

namespace Shape

/-- In the order in which branches are scanned. -/
def compositionKeywords : List String := ["oneOf", "anyOf", "allOf"]

/-- The arrays under the composition keywords. -/
def compositions (schema : Json) : List (List Json) :=
  compositionKeywords.filterMap fun keyword => (schema.get? keyword).bind Json.elems?

def ofJson (schema : Json) : Shape :=
  match TypeDecl.of? schema with
  | some decl => .declared decl
  | none =>
    match compositions schema with
    | [] => .untyped
    | lists => .composed ((lists.flatten.filter Json.isObject).map Branch.ofJson)

/-- Nothing else says the type of a schema. -/
theorem ofJson_congr {j j' : Json}
    (h : ∀ k ∈ "type" :: compositionKeywords, j'.get? k = j.get? k) :
    ofJson j' = ofJson j := by
  have htype : TypeDecl.of? j' = TypeDecl.of? j := by
    rw [TypeDecl.of?, TypeDecl.of?, h _ List.mem_cons_self]
  have hcompositions : compositions j' = compositions j := by
    simp only [compositions, compositionKeywords, List.filterMap_cons, h "oneOf" (by decide),
      h "anyOf" (by decide), h "allOf" (by decide)]
    rfl
  rw [ofJson, ofJson, htype, hcompositions]

end Shape

namespace Property

/-- Branch types, highest rank first. -/
def ranked : List String := ["object", "array", "string", "integer", "number", "boolean"]

/-- The candidate of the highest rank, or the first if none has a rank. -/
def pick? (candidates : List String) : Option String :=
  (ranked.find? (candidates.contains ·)).or candidates.head?

def ofJson (schema : Json) : Property where
  shape := Shape.ofJson schema
  pattern := schema.textAt? "pattern"
  items := schema.get? "items"
  skipReason := SkipReason.of? schema
  override := AbiOverride.of? schema

/-- A skip reason is read by itself: no other part of the view looks at it. -/
theorem ofJson_of_get?_eq {j j' : Json} (h : ∀ k, k ≠ skipReasonKey → j'.get? k = j.get? k) :
    ofJson j' = { ofJson j with skipReason := SkipReason.of? j' } := by
  have hshape : Shape.ofJson j' = Shape.ofJson j := by
    have hkeys : ∀ k ∈ "type" :: Shape.compositionKeywords, k ≠ skipReasonKey := by decide
    exact Shape.ofJson_congr fun k hk => h k (hkeys k hk)
  have hpattern : j'.textAt? "pattern" = j.textAt? "pattern" :=
    Json.textAt?_congr (h _ (by decide))
  have hoverride : AbiOverride.of? j' = AbiOverride.of? j :=
    congrArg (Option.map AbiOverride.parse) (Json.textAt?_congr (h _ (by decide)))
  rw [ofJson, hshape, hpattern, hoverride, h "items" (by decide)]
  rfl

/-- The type a property has for the chain; `none` if the schema says nothing. -/
def effectiveType? (p : Property) : Option String :=
  match p.shape with
  | .declared decl => decl.primary?
  | .composed branches => pick? (branches.flatMap Branch.candidates)
  | .untyped => none

def facets (p : Property) : Facets := ⟨p.effectiveType?, p.pattern, p.override⟩

theorem mem_of_pick? {candidates : List String} {t : String} (h : pick? candidates = some t) :
    t ∈ candidates := by
  rw [pick?, Option.or_eq_some_iff] at h
  rcases h with h | ⟨-, h⟩
  · simpa using List.find?_some h
  · exact List.mem_of_mem_head? h

/-- Types are compared in lower case. -/
theorem asciiLower_effectiveType {p : Property} {t : String} (h : p.effectiveType? = some t) :
    Text.asciiLower t = t := by
  have hprimary : ∀ {d : TypeDecl}, d.primary? = some t → Text.asciiLower t = t := by
    intro d hd
    cases d with
    | single name =>
      obtain rfl := Option.some.inj hd
      exact Text.asciiLower_lower name
    | union names =>
      obtain ⟨name, -, rfl⟩ := Option.map_eq_some_iff.mp hd
      exact Text.asciiLower_lower name
  unfold effectiveType? at h
  split at h
  · exact hprimary h
  next branches _ =>
    obtain ⟨b, -, hb⟩ := List.mem_flatMap.mp (mem_of_pick? h)
    obtain ⟨d, -, hd⟩ := List.mem_filterMap.mp hb
    exact hprimary hd
  · cases h

/-- So an array is one however its type is written. -/
theorem isArrayType_effectiveType (p : Property) :
    Abi.isArrayType p.effectiveType? ↔ p.effectiveType? = some "array" := by
  cases h : p.effectiveType? with
  | none => simp [Abi.isArrayType]
  | some t =>
    simp only [Abi.isArrayType, Option.map_some, Option.getD_some, Text.sameLetters_iff,
      asciiLower_effectiveType h, Option.some.injEq]
    rw [show Text.asciiLower "array" = "array" by decide]
    exact eq_comm

end Property

end OnchainSchema
