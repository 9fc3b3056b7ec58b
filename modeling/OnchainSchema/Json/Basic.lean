import OnchainSchema.Json.Number

/-! JSON values. Members of an object keep their order. -/
namespace OnchainSchema

inductive Json where
  | null
  | bool (b : Bool)
  | num (n : Json.Number)
  | str (s : String)
  | arr (elems : List Json)
  | obj (members : List (String × Json))
  deriving Repr, Inhabited

/-- The members of an object, in order. -/
abbrev Members := List (String × Json)

namespace Members

-- Keys are texts, but for the entries of a directory, whose names need not be.
variable {κ α : Type}

def keys (ms : List (κ × α)) : List κ := ms.map Prod.fst

@[simp] theorem keys_nil : keys ([] : List (κ × α)) = [] := rfl

@[simp] theorem keys_cons (m : κ × α) (ms : List (κ × α)) :
    keys (m :: ms) = m.1 :: keys ms := rfl

variable [DecidableEq κ]

/-- The value under a key. -/
def get? (k : κ) : List (κ × α) → Option α
  | [] => none
  | m :: ms => if m.1 = k then some m.2 else get? k ms

/-- Gives a key a value: in its old place, or at the end. -/
def put (k : κ) (v : α) : List (κ × α) → List (κ × α)
  | [] => [(k, v)]
  | m :: ms => if m.1 = k then (k, v) :: ms else m :: put k v ms

/-- The members that a sequence of writes leaves. -/
def ofWrites (ws : List (κ × α)) : List (κ × α) :=
  ws.foldl (fun ms w => put w.1 w.2 ms) []

def hasKey (k : κ) (ms : List (κ × α)) : Bool := (get? k ms).isSome

theorem get?_eq_none_iff {k : κ} {ms : List (κ × α)} :
    get? k ms = none ↔ k ∉ keys ms := by
  induction ms with
  | nil => simp [get?]
  | cons m ms ih =>
    by_cases h : m.1 = k
    · simp [get?, h]
    · simp [get?, h, ih, Ne.symm h]

theorem mem_of_get?_eq_some {k : κ} {v : α} {ms : List (κ × α)}
    (h : get? k ms = some v) : (k, v) ∈ ms := by
  induction ms with
  | nil => cases h
  | cons m ms ih =>
    rw [get?] at h
    split at h
    next hm =>
      obtain rfl := Option.some.inj h
      exact List.mem_cons.mpr (.inl (Prod.ext hm.symm rfl))
    next => exact List.mem_cons_of_mem m (ih h)

/-- Where no key is used twice, a member is what its key gives. -/
theorem mem_iff_get?_eq_some {ms : List (κ × α)} (h : (keys ms).Nodup) {k : κ} {v : α} :
    (k, v) ∈ ms ↔ get? k ms = some v := by
  induction ms with
  | nil => simp [get?]
  | cons m ms ih =>
    rw [keys_cons, List.nodup_cons] at h
    by_cases hm : m.1 = k
    · have hk : (k, v) ∉ ms := fun hmem => h.1 (hm ▸ List.mem_map_of_mem hmem)
      subst hm
      simp [get?, hk, Prod.ext_iff, eq_comm]
    · have hne : (k, v) ≠ m := fun he => hm (congrArg Prod.fst he).symm
      simp [get?, hm, hne, ih h.2]

@[simp] theorem hasKey_iff {k : κ} {ms : List (κ × α)} :
    hasKey k ms = true ↔ k ∈ keys ms := by
  rw [hasKey, Option.isSome_iff_ne_none, ne_eq, get?_eq_none_iff, Decidable.not_not]

@[simp] theorem get?_put (k k' : κ) (v : α) (ms : List (κ × α)) :
    get? k' (put k v ms) = if k = k' then some v else get? k' ms := by
  induction ms with
  | nil => rfl
  | cons m ms ih =>
    by_cases hk : m.1 = k
    · subst hk; by_cases h : m.1 = k' <;> simp [put, get?, h]
    · by_cases h : m.1 = k'
      · subst h; simp [put, get?, hk, Ne.symm hk]
      · simp [put, get?, hk, h, ih]

theorem put_eq_self {k : κ} {v : α} {ms : List (κ × α)} (h : get? k ms = some v) :
    put k v ms = ms := by
  induction ms with
  | nil => cases h
  | cons m ms ih =>
    by_cases hm : m.1 = k
    · rw [get?, if_pos hm] at h
      rw [put, if_pos hm, ← hm, ← Option.some.inj h]
    · rw [get?, if_neg hm] at h
      rw [put, if_neg hm, ih h]

theorem get?_append (k : κ) (ms ns : List (κ × α)) :
    get? k (ms ++ ns) = (get? k ms).or (get? k ns) := by
  induction ms with
  | nil => rfl
  | cons m ms ih => by_cases h : m.1 = k <;> simp [get?, h, ih]

/-- After a sequence of writes, the last write to a key counts. -/
theorem get?_foldl_put (k : κ) (ws ms : List (κ × α)) :
    get? k (ws.foldl (fun ms w => put w.1 w.2 ms) ms) = (get? k ws.reverse).or (get? k ms) := by
  induction ws generalizing ms with
  | nil => rfl
  | cons w ws ih =>
    rw [List.foldl_cons, ih, get?_put, List.reverse_cons, get?_append]
    by_cases h : w.1 = k <;> simp [get?, h]

/-- Where no key is used twice, the order of the members does not matter. -/
theorem get?_reverse {ms : List (κ × α)} (h : (keys ms).Nodup) (k : κ) :
    get? k ms.reverse = get? k ms := by
  have hrev : (keys ms.reverse).Nodup :=
    ((List.reverse_perm ms).map Prod.fst).nodup_iff.mpr h
  ext v
  rw [← mem_iff_get?_eq_some hrev, ← mem_iff_get?_eq_some h, List.mem_reverse]

theorem get?_filter (p : κ → Bool) (k : κ) (ms : List (κ × α)) :
    get? k (ms.filter (p ·.1)) = if p k then get? k ms else none := by
  induction ms with
  | nil => simp [get?]
  | cons m ms ih =>
    by_cases hm : m.1 = k
    · subst hm
      by_cases hp : p m.1 <;> simp [get?, hp, ih]
    · by_cases hp : p m.1 <;> simp [get?, hp, hm, ih]

theorem keys_put (k : κ) (v : α) (ms : List (κ × α)) :
    keys (put k v ms) = if k ∈ keys ms then keys ms else keys ms ++ [k] := by
  induction ms with
  | nil => rfl
  | cons m ms ih =>
    by_cases h : m.1 = k
    · simp [put, h]
    · simp only [put, h, ↓reduceIte, keys_cons, ih, List.mem_cons, Ne.symm h, false_or]
      split <;> rfl

theorem nodup_keys_put {k : κ} {v : α} {ms : List (κ × α)} (h : (keys ms).Nodup) :
    (keys (put k v ms)).Nodup := by
  rw [keys_put]
  split
  · exact h
  · exact List.nodup_append.mpr ⟨h, by simp, by grind⟩

theorem nodup_keys_ofWrites (ws : List (κ × α)) : (keys (ofWrites ws)).Nodup := by
  suffices ∀ ms : List (κ × α), (keys ms).Nodup →
      (keys (ws.foldl (fun ms w => put w.1 w.2 ms) ms)).Nodup from this [] List.nodup_nil
  induction ws with
  | nil => exact fun _ h => h
  | cons w ws ih => exact fun ms h => ih _ (nodup_keys_put h)

end Members

namespace Json

/-- The member of an object under a key; other values have none. -/
def get? (k : String) : Json → Option Json
  | .obj ms => Members.get? k ms
  | _ => none

def text? : Json → Option String
  | .str s => some s
  | _ => none

def elems? : Json → Option (List Json)
  | .arr es => some es
  | _ => none

def members? : Json → Option Members
  | .obj ms => some ms
  | _ => none

def isObject : Json → Bool
  | .obj _ => true
  | _ => false

/-- The text under a key, if that is a string. -/
def textAt? (k : String) (j : Json) : Option String := (j.get? k).bind text?

theorem textAt?_eq_some_iff {j : Json} {k s : String} :
    j.textAt? k = some s ↔ j.get? k = some (.str s) := by
  rw [textAt?, Option.bind_eq_some_iff]
  constructor
  · rintro ⟨v, hv, hs⟩
    cases v with
    | str t => rw [hv, Option.some.inj hs]
    | _ => cases hs
  · exact fun h => ⟨_, h, rfl⟩

theorem textAt?_congr {j j' : Json} {k : String} (h : j'.get? k = j.get? k) :
    j'.textAt? k = j.textAt? k := by
  rw [textAt?, textAt?, h]

def kind : Json → String
  | .null => "null"
  | .bool _ => "boolean"
  | .num _ => "number"
  | .str _ => "string"
  | .arr _ => "array"
  | .obj _ => "object"

mutual
/-- No object in the value has a key twice. -/
def KeysDistinct : Json → Prop
  | .arr es => KeysDistinctElems es
  | .obj ms => (Members.keys ms).Nodup ∧ KeysDistinctMembers ms
  | _ => True
def KeysDistinctElems : List Json → Prop
  | [] => True
  | e :: es => KeysDistinct e ∧ KeysDistinctElems es
def KeysDistinctMembers : List (String × Json) → Prop
  | [] => True
  | (_, v) :: ms => KeysDistinct v ∧ KeysDistinctMembers ms
end

theorem KeysDistinctElems.of_mem {es : List Json} (h : KeysDistinctElems es) {e : Json}
    (he : e ∈ es) : e.KeysDistinct := by
  induction es with
  | nil => cases he
  | cons e' es ih =>
    obtain ⟨he', hes⟩ := h
    rcases List.mem_cons.mp he with rfl | he
    · exact he'
    · exact ih hes he

theorem KeysDistinctMembers.of_mem {ms : Members} (h : KeysDistinctMembers ms) {k : String}
    {v : Json} (hm : (k, v) ∈ ms) : v.KeysDistinct := by
  induction ms with
  | nil => cases hm
  | cons m ms ih =>
    obtain ⟨hv, hms⟩ := h
    rcases List.mem_cons.mp hm with rfl | hm
    · exact hv
    · exact ih hms hm

theorem KeysDistinctMembers.put {ms : Members} (h : KeysDistinctMembers ms) {v : Json}
    (hv : v.KeysDistinct) (k : String) : KeysDistinctMembers (Members.put k v ms) := by
  induction ms with
  | nil => exact ⟨hv, trivial⟩
  | cons m ms ih =>
    obtain ⟨hm, hms⟩ := h
    rw [Members.put]
    split
    · exact ⟨hv, hms⟩
    · exact ⟨hm, ih hms⟩

theorem KeysDistinctMembers.ofWrites {ws : Members} (h : KeysDistinctMembers ws) :
    KeysDistinctMembers (Members.ofWrites ws) := by
  suffices ∀ ms : Members, KeysDistinctMembers ms →
      KeysDistinctMembers (ws.foldl (fun ms w => Members.put w.1 w.2 ms) ms) from this [] trivial
  induction ws with
  | nil => exact fun _ h => h
  | cons w ws ih =>
    obtain ⟨hw, hws⟩ := h
    exact fun ms hms => ih hws _ (hms.put hw w.1)

end Json

end OnchainSchema
