import OnchainSchema.Compile
import OnchainSchema.Proofs.SchemaCodec

/-!
What a compilation consists of. A compilation that succeeds is assembled from its options, its name
and its layout alone; its schema text decodes to the layout exactly if the names are plain.
-/
namespace OnchainSchema

namespace Compile

/-- The flag of a record: the one that is asked for, or else the detected one. -/
def flagOf (options : Options) (b : Build) : Bool := options.revocable.getD (detectsRevocation b)

def addressOf (options : Options) : Address := options.resolver.getD Address.zero

def assemble (options : Options) (name : String) (b : Build) : Compilation where
  record := ⟨name, b.schema, flagOf options b,
    if options.registry.usesResolver then some (addressText (addressOf options)) else none⟩
  uid := hashText (Uid.derive options.registry b.schema (addressOf options) (flagOf options b))
  build := b

variable (options : Options) (s : Source) (k : Cache)

@[simp] theorem value_revocability (b : Build) :
    ((revocability options b).run s k).value = flagOf options b := by
  unfold revocability flagOf
  cases options.revocable with
  | some flag => rfl
  | none => cases detectsRevocation b <;> rfl

@[simp] theorem value_resolverOf :
    ((resolverOf options).run s k).value =
      if options.registry.usesResolver then some (addressOf options) else none := by
  unfold resolverOf addressOf
  cases options.registry.usesResolver with
  | false => rfl
  | true => cases options.resolver <;> rfl

@[simp] theorem value_finish (name : String) (b : Build) :
    ((finish options name b).run s k).value = assemble options name b := by
  simp only [finish, Fetch.run_bind, Fetch.run_pure, value_revocability, value_resolverOf, assemble]
  cases hr : options.registry <;> simp [Registry.usesResolver, Uid.derive, Uid.preimage]

end Compile

/-- The three ways a compilation ends. -/
theorem value_compile (site : Site) (options : Options) (s : Source) (k : Cache) :
    ((compile site options).run s k).value =
      if Text.isBlankText (Compile.nameOf site.document options) then .error .missingName
      else match Compile.propertiesOf? site.document with
        | none => .error .noProperties
        | some properties => .ok (Compile.assemble options (Compile.nameOf site.document options)
            ((Build.ofProperties site properties).run s k).value) := by
  unfold compile
  split
  · rfl
  · cases Compile.propertiesOf? site.document with
    | none => rfl
    | some properties => simp

theorem compile_eq_ok_iff {site : Site} {options : Options} {s : Source} {k : Cache}
    {c : Compilation} :
    ((compile site options).run s k).value = .ok c ↔
      Text.isBlankText (Compile.nameOf site.document options) = false ∧
      ∃ properties, Compile.propertiesOf? site.document = some properties ∧
        Compile.assemble options (Compile.nameOf site.document options)
          ((Build.ofProperties site properties).run s k).value = c := by
  rw [value_compile]
  cases hn : Text.isBlankText (Compile.nameOf site.document options) with
  | true => simp
  | false =>
    cases hp : Compile.propertiesOf? site.document with
    | none => simp
    | some properties => simp

/-- The schema text of a compilation is decoded to its layout exactly if every field that is kept
has a plain name. -/
theorem decodes_iff_names_plain {site : Site} {options : Options} {s : Source} {k : Cache}
    {c : Compilation} (h : ((compile site options).run s k).value = .ok c) :
    SchemaText.parse c.record.schema = .ok c.build.fields ↔
      ∀ f ∈ c.build.fields, SchemaText.Plain f.name := by
  obtain ⟨-, properties, -, rfl⟩ := compile_eq_ok_iff.mp h
  exact ⟨SchemaText.plain_of_parse, SchemaText.parse_join⟩

section Samples

def noFiles : Source := ⟨fun _ => false, fun _ => .error .missing⟩

def typed (type : String) : Json := .obj [("type", .str type)]

/-- A document with a title and properties, and nothing around it. -/
def reviewSite (properties : Members) : Site :=
  ⟨.obj [("title", .str "Review"), ("properties", .obj properties)], ⟨"."⟩⟩

theorem compile_review (options : Options) (hn : options.name = none) (m : String × Json)
    (ms : Members) {b : Build}
    (hb : ((Build.ofProperties (reviewSite (m :: ms)) (m :: ms)).run noFiles Cache.empty).value = b) :
    ((compile (reviewSite (m :: ms)) options).run noFiles Cache.empty).value =
      .ok (Compile.assemble options "Review" b) := by
  have hname : Compile.nameOf (reviewSite (m :: ms)).document options = "Review" := by
    have htitle : (reviewSite (m :: ms)).document.textAt? "title" = some "Review" := rfl
    rw [Compile.nameOf, hn, htitle]
    decide
  rw [compile_eq_ok_iff, hname, ← hb]
  exact ⟨by decide, m :: ms, rfl, rfl⟩

def scoresBuild : Build :=
  ⟨[⟨"subject", .included ⟨.string, false⟩⟩, ⟨"scores", .included ⟨.uint256, true⟩⟩]⟩

theorem scores_decode :
    ((compile (reviewSite [("subject", typed "string"),
        ("scores", .obj [("type", .str "array"), ("items", typed "integer")])]) {}).run
      noFiles Cache.empty).value = .ok (Compile.assemble {} "Review" scoresBuild) ∧
    SchemaText.parse "string subject, uint256[] scores" = .ok scoresBuild.fields := by
  have h := compile_review {} rfl ("subject", typed "string")
    [("scores", .obj [("type", .str "array"), ("items", typed "integer")])]
    (b := scoresBuild) (by decide)
  exact ⟨h, (decodes_iff_names_plain h).mpr (by decide)⟩

/-- A blank in a name is written as it is, and the reader takes what follows for a third word. -/
theorem spaced_name_not_decoded :
    ((compile (reviewSite [("full name", typed "string")]) {}).run noFiles Cache.empty).value =
      .ok (Compile.assemble {} "Review" ⟨[⟨"full name", .included ⟨.string, false⟩⟩]⟩) ∧
    SchemaText.parse
        (Compile.assemble {} "Review" ⟨[⟨"full name", .included ⟨.string, false⟩⟩]⟩).record.schema =
      .error (.malformedField "string full name") :=
  ⟨compile_review {} rfl ("full name", typed "string") [] (by decide), by rfl⟩

end Samples

end OnchainSchema
