import OnchainSchema.Json.Basic

/-! Documents held under the text of the references that led to them. An entry is never replaced. -/
namespace OnchainSchema

structure Cache where
  entries : List (String × Json)
  keys_nodup : (Members.keys entries).Nodup

namespace Cache

def empty : Cache := ⟨[], List.nodup_nil⟩

def get? (c : Cache) (key : String) : Option Json := Members.get? key c.entries

def contains (c : Cache) (key : String) : Bool := Members.hasKey key c.entries

def size (c : Cache) : Nat := c.entries.length

/-- Holds a document under a key that is not yet in use. -/
def add (c : Cache) (key : String) (document : Json) : Cache :=
  if h : key ∈ Members.keys c.entries then c
  else
    { entries := c.entries ++ [(key, document)]
      keys_nodup := by
        simp only [Members.keys, List.map_append, List.map_cons, List.map_nil]
        exact List.nodup_append.mpr
          ⟨c.keys_nodup, by simp, fun a ha b hb => by simp_all [Members.keys]; grind⟩ }

@[simp] theorem get?_empty (key : String) : empty.get? key = none := rfl

theorem contains_iff {c : Cache} {key : String} : c.contains key ↔ (c.get? key).isSome := by
  rw [contains, Members.hasKey, get?]

theorem mem_entries_iff {c : Cache} {key : String} {document : Json} :
    (key, document) ∈ c.entries ↔ c.get? key = some document :=
  Members.mem_iff_get?_eq_some c.keys_nodup

theorem entries_nodup (c : Cache) : c.entries.Nodup :=
  List.Pairwise.of_map Prod.fst (fun _ _ h he => h (congrArg Prod.fst he)) c.keys_nodup

/-- Two caches that answer alike hold the same entries. -/
theorem entries_perm {c c' : Cache} (h : ∀ key, c.get? key = c'.get? key) :
    c.entries.Perm c'.entries := by
  rw [List.perm_ext_iff_of_nodup c.entries_nodup c'.entries_nodup]
  intro m
  rw [mem_entries_iff, mem_entries_iff, h]

theorem get?_add {c : Cache} {key : String} (h : c.get? key = none) (document : Json)
    (key' : String) :
    (c.add key document).get? key' = if key = key' then some document else c.get? key' := by
  have hk := Members.get?_eq_none_iff.mp h
  simp only [add, hk, ↓reduceDIte, get?]
  generalize c.entries = es at hk
  induction es with
  | nil => simp [Members.get?]
  | cons m ms ih =>
    simp only [Members.keys_cons, List.mem_cons, not_or] at hk
    by_cases hm : m.1 = key'
    · simp [Members.get?, hm, show key ≠ key' from hm ▸ hk.1]
    · simp [Members.get?, hm, ih hk.2]

end Cache

end OnchainSchema
