import OnchainSchema.Compile
import OnchainSchema.Text.Lower

/-!
The text of an address. It is read if and only if it is `0x` and 40 hexadecimal digits of either
case, and the text that is written for an address is read as that address. What is written for an
address that was read is the text it was read from, in lower case.
-/
namespace OnchainSchema

namespace Hex

/-- A hexadecimal digit in either case. -/
def IsDigit (c : Char) : Prop := c ∈ digits ++ ['A', 'B', 'C', 'D', 'E', 'F']

theorem isSome_value?_iff (c : Char) : (value? c).isSome ↔ IsDigit c := by
  have hvalue : (value? c).isSome ↔ c.toLower ∈ digits := by simp [value?, List.findIdx?_isSome]
  rw [hvalue]
  constructor
  · intro h
    by_cases hcapital : 65 ≤ c.toNat ∧ c.toNat ≤ 90
    · have hall : ∀ n ∈ List.range 91, (Char.ofNat n).toLower ∈ digits →
          IsDigit (Char.ofNat n) := by
        unfold IsDigit
        decide
      have hdigit := hall c.toNat (List.mem_range.mpr (by omega))
      rw [Char.ofNat_toNat] at hdigit
      exact hdigit h
    · rw [Text.toLower_eq_self hcapital] at h
      exact List.mem_append_left _ h
  · intro h
    have hall : (digits ++ ['A', 'B', 'C', 'D', 'E', 'F']).all (·.toLower ∈ digits) = true := by
      decide
    simpa using List.all_eq_true.mp hall c h

theorem isSome_decode?_iff (cs : List Char) :
    (decode? cs).isSome ↔ cs.length % 2 = 0 ∧ ∀ c ∈ cs, IsDigit c := by
  fun_induction decode? cs with
  | case1 => simp
  | case2 c => simp
  | case3 c d cs high low bs hbs hlow hhigh ih =>
    obtain ⟨heven, hdigits⟩ := ih.mp (by rw [hbs]; rfl)
    have hc : IsDigit c := (isSome_value?_iff c).mp (by rw [hhigh]; rfl)
    have hd : IsDigit d := (isSome_value?_iff d).mp (by rw [hlow]; rfl)
    have hlength : (c :: d :: cs).length % 2 = 0 := by
      rw [List.length_cons, List.length_cons]
      omega
    refine iff_of_true rfl ⟨hlength, ?_⟩
    simpa only [List.forall_mem_cons] using ⟨hc, hd, hdigits⟩
  | case4 c d cs h ih =>
    refine iff_of_false Bool.false_ne_true ?_
    rintro ⟨heven, hdigits⟩
    simp only [List.forall_mem_cons] at hdigits
    obtain ⟨hc, hd, hcs⟩ := hdigits
    have hlength : cs.length % 2 = 0 := by
      rw [List.length_cons, List.length_cons] at heven
      omega
    obtain ⟨high, hhigh⟩ := Option.isSome_iff_exists.mp ((isSome_value?_iff c).mpr hc)
    obtain ⟨low, hlow⟩ := Option.isSome_iff_exists.mp ((isSome_value?_iff d).mpr hd)
    obtain ⟨bs, hbs⟩ := Option.isSome_iff_exists.mp (ih.mpr ⟨hlength, hcs⟩)
    exact h high low bs hhigh hlow hbs

theorem digit_of_value? {c : Char} {n : Nat} (h : value? c = some n) : digit n = c.toLower := by
  obtain ⟨hn, hc, -⟩ := List.findIdx?_eq_some_iff_getElem.mp h
  rw [digit, List.getD_eq_getElem?_getD, List.getElem?_eq_getElem hn, Option.getD_some]
  exact eq_of_beq hc

/-- What is written for bytes that were read is what was read, in lower case. -/
theorem encode_of_decode? {cs : List Char} {bs : List UInt8} (h : decode? cs = some bs) :
    encode bs = cs.map Char.toLower := by
  fun_induction decode? cs generalizing bs with
  | case1 => simp_all [encode]
  | case2 => simp at h
  | case3 c d cs high low bs' hbs hlow hhigh ih =>
    obtain rfl := Option.some.inj h
    have hhigh16 := lt_of_value? hhigh
    have hlow16 := lt_of_value? hlow
    have hbyte : (UInt8.ofNat (high * 16 + low)).toNat = high * 16 + low :=
      UInt8.toNat_ofNat_of_lt' (by rw [UInt8.size]; omega)
    simp only [encode, hbyte, List.map_cons, ih hbs,
      show (high * 16 + low) / 16 = high by omega, show (high * 16 + low) % 16 = low by omega,
      digit_of_value? hhigh, digit_of_value? hlow]
  | case4 => simp at h

theorem IsDigit.utf8Size_eq_one {c : Char} (h : IsDigit c) : c.utf8Size = 1 := by
  have hall : (digits ++ ['A', 'B', 'C', 'D', 'E', 'F']).all (·.utf8Size = 1) = true := by decide
  simpa using List.all_eq_true.mp hall c h

/-- Hexadecimal text has as many bytes as digits. -/
theorem utf8ByteSize_ofList {cs : List Char} (h : ∀ c ∈ cs, IsDigit c) :
    (String.ofList cs).utf8ByteSize = cs.length := by
  induction cs with
  | nil => rfl
  | cons c cs ih =>
    rw [List.forall_mem_cons] at h
    have hcons : String.ofList (c :: cs) = String.singleton c ++ String.ofList cs := by
      rw [← String.toList_inj]
      simp
    rw [hcons, String.utf8ByteSize_append, String.utf8ByteSize_singleton, h.1.utf8Size_eq_one,
      ih h.2, List.length_cons, Nat.add_comm]

end Hex

namespace Address

/-- `0x` and 40 hexadecimal digits. -/
def Spelled (s : String) : Prop :=
  ∃ cs, s.toList = '0' :: 'x' :: cs ∧ cs.length = 40 ∧ ∀ c ∈ cs, Hex.IsDigit c

theorem ofText?_eq_some_iff {s : String} {a : Address} :
    ofText? s = some a ↔ ∃ cs, s.toList = '0' :: 'x' :: cs ∧ Hex.decode? cs = some a.toList := by
  unfold ofText?
  split
  next cs hcs =>
    simp only [hcs, List.cons.injEq, true_and, exists_eq_left']
    cases hbytes : Hex.decode? cs with
    | none => simp
    | some bytes =>
      simp only [Option.dite_none_right_eq_some, Option.some.injEq]
      constructor
      · rintro ⟨hsize, rfl⟩
        rfl
      · rintro rfl
        exact ⟨by simp, rfl⟩
  next hother =>
    refine iff_of_false (by simp) ?_
    rintro ⟨cs, hcs, -⟩
    exact hother cs hcs

/-- Digits that are read as bytes are read as an address if there are 40 of them. -/
theorem exists_of_length {s : String} {cs : List Char} {bytes : List UInt8}
    (hcs : s.toList = '0' :: 'x' :: cs) (hbytes : Hex.decode? cs = some bytes)
    (hlength : cs.length = 40) : ∃ a : Address, a.toList = bytes ∧ ofText? s = some a := by
  have htwice := Hex.length_of_decode? hbytes
  have hsize : bytes.toArray.size = 20 := by
    rw [List.size_toArray]
    omega
  exact ⟨⟨bytes.toArray, hsize⟩, by simp, ofText?_eq_some_iff.mpr ⟨cs, hcs, by simpa using hbytes⟩⟩

theorem isSome_ofText?_iff (s : String) : (ofText? s).isSome ↔ Spelled s := by
  rw [Option.isSome_iff_exists]
  constructor
  · rintro ⟨a, ha⟩
    obtain ⟨cs, hcs, hdecode⟩ := ofText?_eq_some_iff.mp ha
    obtain ⟨-, hdigits⟩ := (Hex.isSome_decode?_iff cs).mp (by rw [hdecode]; rfl)
    have htwice := Hex.length_of_decode? hdecode
    rw [Vector.length_toList] at htwice
    exact ⟨cs, hcs, by omega, hdigits⟩
  · rintro ⟨cs, hcs, hlength, hdigits⟩
    have hdecode := (Hex.isSome_decode?_iff cs).mpr ⟨by omega, hdigits⟩
    obtain ⟨bytes, hbytes⟩ := Option.isSome_iff_exists.mp hdecode
    obtain ⟨a, -, ha⟩ := exists_of_length hcs hbytes hlength
    exact ⟨a, ha⟩

@[simp] theorem ofText?_addressText (a : Address) : ofText? (addressText a) = some a := by
  refine ofText?_eq_some_iff.mpr ⟨Hex.encode a.toList, ?_, Hex.decode?_encode _⟩
  rw [addressText, Hex.prefixed, String.toList_ofList]

theorem addressText_of_ofText? {s : String} {a : Address} (h : ofText? s = some a) :
    addressText a = Text.asciiLower s := by
  obtain ⟨cs, hcs, hdecode⟩ := ofText?_eq_some_iff.mp h
  rw [addressText, Hex.prefixed, Hex.encode_of_decode? hdecode, Text.asciiLower, hcs]
  rfl

/-- Text of 40 bytes that is read as bytes is read as 20 of them, and so as an address. -/
theorem exists_of_decode? {digits : String} {bytes : List UInt8}
    (hsize : digits.utf8ByteSize = 40) (h : Hex.decode? digits.toList = some bytes) :
    ∃ a : Address, a.toList = bytes ∧ ofText? ("0x" ++ digits) = some a := by
  have hdigits : ∀ c ∈ digits.toList, Hex.IsDigit c :=
    ((Hex.isSome_decode?_iff _).mp (by rw [h]; rfl)).2
  have hlength := Hex.utf8ByteSize_ofList hdigits
  rw [String.ofList_toList, hsize] at hlength
  exact exists_of_length (by simp) h hlength.symm

end Address

@[simp] theorem parseResolver_addressText (a : Address) :
    parseResolver (addressText a) = .ok a := by
  rw [parseResolver, Address.ofText?_addressText]

theorem parseResolver_cases (value : String) :
    (Address.Spelled value ∧ ∃ a, parseResolver value = .ok a) ∨
    (¬ Address.Spelled value ∧ parseResolver value = .error (.invalidResolver value)) := by
  rw [← Address.isSome_ofText?_iff, parseResolver]
  cases Address.ofText? value with
  | some a => exact .inl ⟨rfl, a, rfl⟩
  | none => exact .inr ⟨Bool.false_ne_true, rfl⟩

theorem parseResolver_eq_ok_iff {value : String} {a : Address} :
    parseResolver value = .ok a ↔ Address.ofText? value = some a := by
  rw [parseResolver]
  cases Address.ofText? value <;> simp

/-- The text of an address is read back as it, and a text that is read gives its address the same
text in lower case. Any other text is refused as it stands. The digits are counted in bytes; where
there are 40 of them, what they are read as is always an address. -/
theorem resolver_text_lossless :
    (∀ a : Address, parseResolver (addressText a) = .ok a) ∧
    ∀ value : String,
      ((∃ a, parseResolver value = .ok a) ↔ Address.Spelled value) ∧
      (∀ a, parseResolver value = .ok a → addressText a = Text.asciiLower value) ∧
      (¬ Address.Spelled value → parseResolver value = .error (.invalidResolver value)) ∧
      ∀ digits bytes, value = "0x" ++ digits → digits.utf8ByteSize = 40 →
        Hex.decode? digits.toList = some bytes →
        ∃ a, a.toList = bytes ∧ parseResolver value = .ok a := by
  refine ⟨parseResolver_addressText, fun value => ⟨?_, fun a ha => ?_, fun hother => ?_, ?_⟩⟩
  · simp only [parseResolver_eq_ok_iff, ← Option.isSome_iff_exists, Address.isSome_ofText?_iff]
  · exact Address.addressText_of_ofText? (parseResolver_eq_ok_iff.mp ha)
  · rcases parseResolver_cases value with ⟨hspelled, -⟩ | ⟨-, herror⟩
    · exact absurd hspelled hother
    · exact herror
  · rintro digits bytes rfl hsize hbytes
    simp only [parseResolver_eq_ok_iff]
    exact Address.exists_of_decode? hsize hbytes

section Samples

def mixedDigits : String := "AbCdEf0000000000000000000000000000000001"

def mixedBytes : List UInt8 := [0xab, 0xcd, 0xef] ++ List.replicate 16 0 ++ [1]

/-- As many bytes as 40 digits have, in half as many characters. -/
def twentyAccents : String := "éééééééééééééééééééé"

theorem mixed_case_read_and_accents_refused :
    (∃ a, a.toList = mixedBytes ∧ parseResolver ("0x" ++ mixedDigits) = .ok a ∧
      addressText a = "0xabcdef0000000000000000000000000000000001") ∧
    twentyAccents.utf8ByteSize = 40 ∧
    parseResolver ("0x" ++ twentyAccents) = .error (.invalidResolver ("0x" ++ twentyAccents)) := by
  have haccents : ¬ Address.Spelled ("0x" ++ twentyAccents) :=
    mt (Address.isSome_ofText?_iff _).mpr (by decide)
  have hlower : Text.asciiLower ("0x" ++ mixedDigits) =
      "0xabcdef0000000000000000000000000000000001" := by decide
  obtain ⟨-, htext, -, hbytes⟩ := resolver_text_lossless.2 ("0x" ++ mixedDigits)
  obtain ⟨-, -, hrefused, -⟩ := resolver_text_lossless.2 ("0x" ++ twentyAccents)
  obtain ⟨a, ha, hread⟩ :=
    hbytes mixedDigits mixedBytes rfl (by decide) (by decide)
  exact ⟨⟨a, ha, hread, (htext a hread).trans hlower⟩, by decide, hrefused haccents⟩

end Samples

end OnchainSchema
