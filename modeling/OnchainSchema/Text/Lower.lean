import OnchainSchema.Text.CaseTable

/-!
Lower case. ASCII text by letters alone; other text by the full Unicode mapping, under which a
capital sigma becomes `ς` at the end of a word.
-/
namespace OnchainSchema.Text

def inRanges (ranges : List (Nat × Nat)) (n : Nat) : Bool :=
  match ranges.find? (n ≤ ·.2) with
  | some r => decide (r.1 ≤ n)
  | none => false

def isCased (c : Char) : Bool := inRanges casedRanges c.toNat

def isCaseIgnorable (c : Char) : Bool := inRanges caseIgnorableRanges c.toNat

def CaseRun.mem (r : CaseRun) (n : Nat) : Bool :=
  decide (r.first ≤ n) && decide (n ≤ r.last) && (n - r.first) % r.step == 0

/-- The one-to-one part of the mapping. -/
def lowerCode (n : Nat) : Nat :=
  match lowerRuns.find? (n ≤ ·.last) with
  | some r => if r.mem n then (n + r.shift).toNat else n
  | none => n

/-- The lowercase of a character on its own; capital I with a dot is the only one that grows. -/
def lowerChar (c : Char) : List Char :=
  if c = 'İ' then ['i', '\u0307'] else [Char.ofNat (lowerCode c.toNat)]

/-- The first character that is not case-ignorable is cased. -/
def meetsCased (cs : List Char) : Bool :=
  match cs.dropWhile isCaseIgnorable with
  | c :: _ => isCased c
  | [] => false

/-- Lowercases `cs`, which follows the characters `seen`, nearest first. -/
def lowerAfter (seen : List Char) : List Char → List Char
  | [] => []
  | c :: cs =>
    (if c = 'Σ' then [if meetsCased seen && !meetsCased cs then 'ς' else 'σ'] else lowerChar c) ++
      lowerAfter (c :: seen) cs

def lowerChars (cs : List Char) : List Char := lowerAfter [] cs

/-- Full Unicode lowercase. -/
def lower (s : String) : String := String.ofList (lowerChars s.toList)

/-- Lowercase of the ASCII letters; all else stays. -/
def asciiLower (s : String) : String := String.ofList (s.toList.map Char.toLower)

/-- Equal up to the case of ASCII letters. -/
def sameLetters (s t : String) : Bool := s.toList.map Char.toLower == t.toList.map Char.toLower

@[simp] theorem toList_lower (s : String) : (lower s).toList = lowerChars s.toList := by
  simp [lower]

@[simp] theorem toList_asciiLower (s : String) :
    (asciiLower s).toList = s.toList.map Char.toLower := by
  simp [asciiLower]

theorem sameLetters_iff {s t : String} : sameLetters s t ↔ asciiLower s = asciiLower t := by
  simp [sameLetters, asciiLower, String.ofList_inj]

theorem CaseRun.mem_iff {r : CaseRun} {n : Nat} :
    r.mem n ↔ r.first ≤ n ∧ n ≤ r.last ∧ (n - r.first) % r.step = 0 := by
  simp [CaseRun.mem, and_assoc]

theorem lowerCode_cases (n : Nat) :
    (∃ r ∈ lowerRuns, r.mem n ∧ lowerCode n = (n + r.shift).toNat) ∨ lowerCode n = n := by
  unfold lowerCode
  split
  next r hfind =>
    by_cases hmem : r.mem n
    · exact .inl ⟨r, List.mem_of_find?_eq_some hfind, hmem, if_pos hmem⟩
    · exact .inr (if_neg hmem)
  next => exact .inr rfl

theorem lt_image_of_mem_lowerRuns : ∀ r ∈ lowerRuns, (90 : Int) < r.first + r.shift := by
  decide +kernel

/-- What is changed leaves the range of the ASCII capitals. -/
theorem lt_lowerCode_or_eq (n : Nat) : 90 < lowerCode n ∨ lowerCode n = n := by
  obtain ⟨r, hr, hmem, hcode⟩ | hcode := lowerCode_cases n
  · have himage := lt_image_of_mem_lowerRuns r hr
    have hfirst := (CaseRun.mem_iff.mp hmem).1
    exact .inl (by omega)
  · exact .inr hcode

/-- Nothing is lowercased to an ASCII capital. -/
theorem not_capital_lowerCode (n : Nat) : ¬ (65 ≤ lowerCode n ∧ lowerCode n ≤ 90) := by
  rintro ⟨hlow, hhigh⟩
  obtain hcode | hcode := lt_lowerCode_or_eq n
  · omega
  · have hcapital : lowerCode n = n + 32 := by
      have hfind : lowerRuns.find? (n ≤ ·.last) = some ⟨0x41, 0x5A, 1, 32⟩ := by
        rw [lowerRuns, List.find?_cons_of_pos (by simpa using hcode ▸ hhigh)]
      have hmem : CaseRun.mem ⟨0x41, 0x5A, 1, 32⟩ n = true := by
        simp [CaseRun.mem, hcode ▸ hlow, hcode ▸ hhigh, Nat.mod_one]
      rw [lowerCode, hfind]
      simp only [hmem, ↓reduceIte]
      omega
    omega

theorem toLower_eq_self {c : Char} (h : ¬ (65 ≤ c.toNat ∧ c.toNat ≤ 90)) : c.toLower = c := by
  have hcapital : ¬ (c.val ≥ 'A'.val ∧ c.val ≤ 'Z'.val) := by
    simpa [UInt32.le_iff_toNat_le] using h
  exact dif_neg hcapital

theorem toLower_ofNat_lowerCode (n : Nat) :
    (Char.ofNat (lowerCode n)).toLower = Char.ofNat (lowerCode n) := by
  apply toLower_eq_self
  by_cases hvalid : (lowerCode n).isValidChar
  · rw [show Char.ofNat (lowerCode n) = Char.ofNatAux _ hvalid from dif_pos hvalid]
    exact not_capital_lowerCode n
  · have hzero : Char.ofNat (lowerCode n) = '\x00' := dif_neg hvalid
    rw [hzero]
    decide

theorem map_toLower_lowerAfter (seen cs : List Char) :
    (lowerAfter seen cs).map Char.toLower = lowerAfter seen cs := by
  induction cs generalizing seen with
  | nil => rfl
  | cons c cs ih =>
    rw [lowerAfter, List.map_append, ih]
    congr 1
    split
    · split <;> rfl
    · rw [lowerChar]
      split
      · rfl
      · simp [toLower_ofNat_lowerCode]

/-- Lowercase text has no ASCII capitals. -/
@[simp] theorem asciiLower_lower (s : String) : asciiLower (lower s) = lower s := by
  rw [← String.toList_inj, toList_asciiLower, toList_lower]
  exact map_toLower_lowerAfter [] s.toList

/-- A relation that holds of each ASCII capital and its lower case, and of every character and
itself, holds of every character and its lower case. -/
theorem toLower_induction {P : Char → Char → Prop} (hself : ∀ c, P c c)
    (hcapital : ∀ n : Fin 26, P (Char.ofNat (65 + n)) (Char.ofNat (65 + n)).toLower) (c : Char) :
    P c c.toLower := by
  by_cases h : 65 ≤ c.toNat ∧ c.toNat ≤ 90
  · have hc : Char.ofNat (65 + (⟨c.toNat - 65, by omega⟩ : Fin 26)) = c := by
      rw [show 65 + (c.toNat - 65) = c.toNat by omega, Char.ofNat_toNat]
    exact hc ▸ hcapital _
  · rw [toLower_eq_self h]
    exact hself c

@[simp] theorem isCased_toLower (c : Char) : isCased c.toLower = isCased c :=
  toLower_induction (P := fun c d => isCased d = isCased c) (fun _ => rfl) (by decide) c

@[simp] theorem isCaseIgnorable_toLower (c : Char) :
    isCaseIgnorable c.toLower = isCaseIgnorable c :=
  toLower_induction (P := fun c d => isCaseIgnorable d = isCaseIgnorable c) (fun _ => rfl)
    (by decide) c

@[simp] theorem lowerChar_toLower (c : Char) : lowerChar c.toLower = lowerChar c :=
  toLower_induction (P := fun c d => lowerChar d = lowerChar c) (fun _ => rfl)
    (by decide) c

@[simp] theorem toLower_eq_sigma_iff (c : Char) : c.toLower = 'Σ' ↔ c = 'Σ' :=
  toLower_induction (P := fun c d => d = 'Σ' ↔ c = 'Σ') (fun _ => Iff.rfl) (by decide) c

@[simp] theorem meetsCased_map_toLower (cs : List Char) :
    meetsCased (cs.map Char.toLower) = meetsCased cs := by
  induction cs with
  | nil => rfl
  | cons c cs ih =>
    unfold meetsCased at ih ⊢
    rw [List.map_cons, List.dropWhile_cons, List.dropWhile_cons, isCaseIgnorable_toLower]
    by_cases hskip : isCaseIgnorable c = true
    · rw [if_pos hskip, if_pos hskip]
      exact ih
    · rw [if_neg hskip, if_neg hskip]
      exact isCased_toLower c

theorem lowerAfter_map_toLower (seen cs : List Char) :
    lowerAfter (seen.map Char.toLower) (cs.map Char.toLower) = lowerAfter seen cs := by
  -- A sigma looks at both sides, so what was seen is put in lower case along with the rest.
  induction cs generalizing seen with
  | nil => rfl
  | cons c cs ih =>
    have hrest := ih (c :: seen)
    rw [List.map_cons] at hrest
    simp only [List.map_cons, lowerAfter, hrest, toLower_eq_sigma_iff, meetsCased_map_toLower,
      lowerChar_toLower]

/-- The case of ASCII letters makes no difference to the lower case of a text. -/
theorem lower_eq_of_sameLetters {s t : String} (h : sameLetters s t) : lower s = lower t := by
  have hletters : s.toList.map Char.toLower = t.toList.map Char.toLower := eq_of_beq h
  rw [lower, lower, lowerChars, lowerChars, ← lowerAfter_map_toLower [] s.toList, hletters,
    lowerAfter_map_toLower]

example : lower "ÀΣ ΟΔΟΣ. İK" = "àς οδος. i̇k" := by decide

example : lower "DID:WEB:AΣ:B" = "did:web:aσ:b" := by decide

end OnchainSchema.Text
