import OnchainSchema.Proofs.Compilation

/-!
Identifiers commit to layouts. The bytes that are hashed determine the schema text, since what
follows it has a fixed length, and schema text with plain names determines the fields.
-/
namespace OnchainSchema

theorem Hex.prefixed_inj {bs cs : List UInt8} : prefixed bs = prefixed cs ↔ bs = cs := by
  constructor
  · intro h
    have henc : encode bs = encode cs := by simpa [prefixed] using congrArg String.toList h
    simpa using congrArg decode? henc
  · rintro rfl
    rfl

theorem hashText_inj {h h' : Hash} : hashText h = hashText h' ↔ h = h' := by
  rw [hashText, hashText, Hex.prefixed_inj, Vector.toList_inj]

namespace Uid

/-- The resolver and the flag are cut off from the end. -/
theorem pack_inj {schema schema' : String} {a a' : Address} {flag flag' : Bool} :
    pack schema a flag = pack schema' a' flag' ↔ schema = schema' ∧ a = a' ∧ flag = flag' := by
  constructor
  · intro h
    obtain ⟨hinit, hflag⟩ := List.append_inj' h rfl
    obtain ⟨hschema, ha⟩ := List.append_inj' hinit (by simp)
    refine ⟨Text.bytes_inj.mp hschema, Vector.toList_inj.mp ha, ?_⟩
    cases flag <;> cases flag' <;> simp at hflag ⊢
  · rintro ⟨rfl, rfl, rfl⟩
    rfl

end Uid

namespace Compile

/-- The bytes that the registry of a compilation hashes. -/
def hashed (options : Options) (c : Compilation) : List UInt8 :=
  Uid.preimage options.registry c.record.schema (addressOf options) c.record.revocable

/-- Two compilations that are the same on chain: their fields, and what else the registry commits
to. -/
structure SameOnChain (options₁ options₂ : Options) (c₁ c₂ : Compilation) : Prop where
  fields : c₁.build.fields = c₂.build.fields
  resolver : options₁.registry = .eas → addressOf options₁ = addressOf options₂
  revocable : options₁.registry = .eas → c₁.record.revocable = c₂.record.revocable

theorem uid_assemble (options : Options) (name : String) (b : Build) :
    (assemble options name b).uid =
      hashText (Keccak.hash (hashed options (assemble options name b))) := rfl

theorem sameOnChain_of_hashed {options₁ options₂ : Options} (name₁ name₂ : String) {b₁ b₂ : Build}
    (hr : options₁.registry = options₂.registry)
    (hp₁ : ∀ f ∈ b₁.fields, SchemaText.Plain f.name)
    (hp₂ : ∀ f ∈ b₂.fields, SchemaText.Plain f.name)
    (h : hashed options₁ (assemble options₁ name₁ b₁) =
      hashed options₂ (assemble options₂ name₂ b₂)) :
    SameOnChain options₁ options₂ (assemble options₁ name₁ b₁) (assemble options₂ name₂ b₂) := by
  have hfields (ht : b₁.schema = b₂.schema) : b₁.fields = b₂.fields := by
    have hparse := SchemaText.parse_join hp₁
    rw [show SchemaText.join b₁.fields = SchemaText.join b₂.fields from ht,
      SchemaText.parse_join hp₂] at hparse
    exact (Except.ok.inj hparse).symm
  unfold hashed at h
  rw [← hr] at h
  cases hreg : options₁.registry with
  | eas =>
    rw [hreg] at h
    obtain ⟨ht, ha, hflag⟩ := Uid.pack_inj.mp h
    exact ⟨hfields ht, fun _ => ha, fun _ => hflag⟩
  | schemaOnly =>
    rw [hreg] at h
    exact ⟨hfields (Text.bytes_inj.mp h), fun h => by simp [hreg] at h,
      fun h => by simp [hreg] at h⟩

end Compile

open Compile

/-- Compilations for one registry whose hashed bytes are the same are the same on chain. So equal
identifiers mean equal layouts, unless the two inputs of the hash are a collision. -/
theorem identifiers_commit_to_layouts {site₁ site₂ : Site} {options₁ options₂ : Options}
    {s₁ s₂ : Source} {k₁ k₂ : Cache} {c₁ c₂ : Compilation}
    (h₁ : ((compile site₁ options₁).run s₁ k₁).value = .ok c₁)
    (h₂ : ((compile site₂ options₂).run s₂ k₂).value = .ok c₂)
    (hr : options₁.registry = options₂.registry)
    (hp₁ : ∀ f ∈ c₁.build.fields, SchemaText.Plain f.name)
    (hp₂ : ∀ f ∈ c₂.build.fields, SchemaText.Plain f.name) :
    (hashed options₁ c₁ = hashed options₂ c₂ → SameOnChain options₁ options₂ c₁ c₂) ∧
    (c₁.uid = c₂.uid →
      (Keccak.hash (hashed options₁ c₁) = Keccak.hash (hashed options₂ c₂) →
        hashed options₁ c₁ = hashed options₂ c₂) →
      SameOnChain options₁ options₂ c₁ c₂) := by
  obtain ⟨-, properties₁, -, rfl⟩ := compile_eq_ok_iff.mp h₁
  obtain ⟨-, properties₂, -, rfl⟩ := compile_eq_ok_iff.mp h₂
  have hsame := sameOnChain_of_hashed (nameOf site₁.document options₁)
    (nameOf site₂.document options₂) hr hp₁ hp₂
  refine ⟨hsame, fun huid hcoll => hsame (hcoll ?_)⟩
  rw [uid_assemble, uid_assemble] at huid
  exact hashText_inj.mp huid

def scoreBuild : Build := ⟨[⟨"score", .included ⟨.uint256, false⟩⟩]⟩

def statedOptions : Options := { resolver := some Address.zero, revocable := some false }

/-- Two documents, one compiled with the defaults and one with the same values stated. -/
theorem stated_defaults_same_on_chain :
    ((compile (reviewSite [("score", typed "integer")]) {}).run noFiles Cache.empty).value =
      .ok (assemble {} "Review" scoreBuild) ∧
    ((compile (reviewSite [("score", typed "number")]) statedOptions).run noFiles
      Cache.empty).value = .ok (assemble statedOptions "Review" scoreBuild) ∧
    SameOnChain {} statedOptions (assemble {} "Review" scoreBuild)
      (assemble statedOptions "Review" scoreBuild) := by
  have h₁ := compile_review {} rfl ("score", typed "integer") [] (b := scoreBuild)
    (by decide)
  have h₂ := compile_review statedOptions rfl ("score", typed "number") [] (b := scoreBuild)
    (by decide)
  have hplain : ∀ f ∈ scoreBuild.fields, SchemaText.Plain f.name := by decide
  exact ⟨h₁, h₂, (identifiers_commit_to_layouts h₁ h₂ rfl hplain hplain).1 rfl⟩

end OnchainSchema
