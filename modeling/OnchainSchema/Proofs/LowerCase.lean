import OnchainSchema.Text.Lower
import OnchainSchema.Text.Pieces

/-!
What lower case keeps. Text in lower case stays as it is, and no colon is made or lost, so that the
pieces between the colons are put in lower case each on its own, up to the form of their sigmas. Two
small ASCII letters apart, nothing but an ASCII letter becomes one.
-/
namespace OnchainSchema.Text

/-- The code points that a run is put in lower case as. -/
def CaseRun.image (r : CaseRun) : CaseRun :=
  ⟨(r.first + r.shift).toNat, (r.last + r.shift).toNat, r.step, 0⟩

/-- Two runs share no code point: their ranges are apart, or `r'` takes every other code point and
skips those of `r`. -/
def CaseRun.apart (r r' : CaseRun) : Bool :=
  Nat.blt r.last r'.first || Nat.blt r'.last r.first ||
    (r'.step == 2 && (r.step == 2 || r.first == r.last) && (r.first + r'.first) % 2 == 1)

theorem CaseRun.mem_image {r : CaseRun} (himage : 0 ≤ r.first + r.shift) {n : Nat} (hn : r.mem n) :
    r.image.mem (n + r.shift).toNat := by
  obtain ⟨hfirst, hlast, hstep⟩ := mem_iff.mp hn
  have hsame : (n + r.shift).toNat - (r.first + r.shift).toNat = n - r.first := by omega
  rw [mem_iff, image]
  dsimp only
  rw [hsame]
  exact ⟨by omega, by omega, hstep⟩

theorem CaseRun.not_mem_of_apart {r r' : CaseRun} (h : r.apart r') {n : Nat} (hn : r.mem n) :
    ¬ r'.mem n := by
  obtain ⟨hfirst, hlast, hstep⟩ := mem_iff.mp hn
  rw [mem_iff]
  rintro ⟨hfirst', hlast', hstep'⟩
  simp only [apart, Bool.or_eq_true, Bool.and_eq_true, Nat.blt_eq, beq_iff_eq] at h
  rcases h with (habove | hbelow) | ⟨⟨hother, heven⟩, hodd⟩
  · omega
  · omega
  · rw [hother] at hstep'
    rcases heven with heven | hsingle
    · rw [heven] at hstep
      omega
    · omega

/-- The capital I with a dot, which is not in the table. -/
def dottedRun : CaseRun := ⟨0x130, 0x130, 1, 0⟩

theorem images_apart :
    (lowerRuns.map CaseRun.image).all fun r => (dottedRun :: lowerRuns).all r.apart := by
  decide +kernel

theorem not_mem_image {r r' : CaseRun} (hr : r ∈ lowerRuns) (hr' : r' ∈ dottedRun :: lowerRuns)
    {n : Nat} (hn : r.mem n) : ¬ r'.mem (n + r.shift).toNat := by
  have hapart := List.all_eq_true.mp images_apart r.image (List.mem_map_of_mem hr)
  have himage := lt_image_of_mem_lowerRuns r hr
  exact CaseRun.not_mem_of_apart (List.all_eq_true.mp hapart r' hr')
    (CaseRun.mem_image (by omega) hn)

theorem lowerCode_lowerCode (n : Nat) : lowerCode (lowerCode n) = lowerCode n := by
  obtain ⟨r, hr, hn, hcode⟩ | hcode := lowerCode_cases n
  · obtain ⟨r', hr', hmem, -⟩ | hagain := lowerCode_cases (lowerCode n)
    · rw [hcode] at hmem
      exact absurd hmem (not_mem_image hr (List.mem_cons_of_mem _ hr') hn)
    · exact hagain
  · rw [hcode, hcode]

theorem lowerCode_eq_dotted {n : Nat} (h : lowerCode n = 0x130) : n = 0x130 := by
  obtain ⟨r, hr, hn, hcode⟩ | hcode := lowerCode_cases n
  · have hmem : dottedRun.mem (n + r.shift).toNat := by
      rw [← hcode, h]
      decide
    exact absurd hmem (not_mem_image hr List.mem_cons_self hn)
  · rw [← hcode, h]

/-- Every code of a character's lowercase stands for a character, or for none. -/
theorem toNat_ofNat_lowerCode (n : Nat) :
    (Char.ofNat (lowerCode n)).toNat = lowerCode n ∨ Char.ofNat (lowerCode n) = '\x00' := by
  by_cases hvalid : (lowerCode n).isValidChar
  · rw [show Char.ofNat (lowerCode n) = Char.ofNatAux _ hvalid from dif_pos hvalid]
    exact .inl rfl
  · exact .inr (dif_neg hvalid)

/-- The lowercase of a character is in lower case. -/
theorem lowerChar_of_mem_lowerChar {c d : Char} (h : d ∈ lowerChar c) : lowerChar d = [d] := by
  unfold lowerChar at h
  split at h
  · simp only [List.mem_cons, List.not_mem_nil, or_false] at h
    rcases h with rfl | rfl <;> decide
  next hdotted =>
    obtain rfl := List.mem_singleton.mp h
    obtain hcode | hzero := toNat_ofNat_lowerCode c.toNat
    · have hplain : Char.ofNat (lowerCode c.toNat) ≠ 'İ' := by
        intro heq
        rw [heq] at hcode
        apply hdotted
        rw [← Char.ofNat_toNat c, lowerCode_eq_dotted hcode.symm]
      rw [lowerChar, if_neg hplain, hcode, lowerCode_lowerCode]
    · rw [hzero]
      decide

/-- Lower case neither makes a colon nor loses one. -/
theorem colon_mem_lowerChar_iff {c : Char} : ':' ∈ lowerChar c ↔ c = ':' := by
  constructor
  · intro h
    unfold lowerChar at h
    split at h
    · simp at h
    next hdotted =>
      have hcolon := (List.mem_singleton.mp h).symm
      obtain hcode | hzero := toNat_ofNat_lowerCode c.toNat
      · rw [hcolon] at hcode
        have h58 : (':').toNat = 58 := rfl
        obtain hchanged | hsame := lt_lowerCode_or_eq c.toNat
        · omega
        · rw [← Char.ofNat_toNat c, ← hsame, ← hcode]
          rfl
      · rw [hcolon] at hzero
        exact absurd hzero (by decide)
  · rintro rfl
    decide

theorem lowerChar_sigma : lowerChar 'Σ' = ['σ'] := by decide

theorem ne_sigma_of_lowerChar {c : Char} (h : lowerChar c = [c]) : c ≠ 'Σ' := by
  rintro rfl
  rw [lowerChar_sigma] at h
  exact absurd h (by decide)

theorem lowerChar_of_mem_lowerAfter {seen cs : List Char} {d : Char} (h : d ∈ lowerAfter seen cs) :
    lowerChar d = [d] := by
  induction cs generalizing seen with
  | nil => simp [lowerAfter] at h
  | cons c cs ih =>
    rw [lowerAfter, List.mem_append] at h
    rcases h with h | h
    · split at h
      · split at h
        all_goals
          obtain rfl := List.mem_singleton.mp h
          decide
      · exact lowerChar_of_mem_lowerChar h
    · exact ih h

theorem lowerAfter_eq_self {seen cs : List Char} (h : ∀ c ∈ cs, lowerChar c = [c]) :
    lowerAfter seen cs = cs := by
  induction cs generalizing seen with
  | nil => rfl
  | cons c cs ih =>
    have hc := h c (by simp)
    have hcs : lowerAfter (c :: seen) cs = cs := ih fun d hd => h d (List.mem_cons_of_mem _ hd)
    rw [lowerAfter, if_neg (ne_sigma_of_lowerChar hc), hc, hcs]
    rfl

theorem lower_eq_self {s : String} (h : ∀ c ∈ s.toList, lowerChar c = [c]) : lower s = s := by
  rw [← String.toList_inj, toList_lower]
  exact lowerAfter_eq_self h

@[simp] theorem lower_lower (s : String) : lower (lower s) = lower s := by
  apply lower_eq_self
  rw [toList_lower]
  exact fun c => lowerChar_of_mem_lowerAfter

/-- What is cut from text in lower case is in lower case. -/
theorem lower_of_mem_split {sep : Char} {s piece : String} (h : piece ∈ split sep (lower s)) :
    lower piece = piece := by
  apply lower_eq_self
  intro c hc
  have hmem := (mem_of_mem_split h c hc).2
  rw [toList_lower] at hmem
  exact lowerChar_of_mem_lowerAfter hmem

section Ascii

/-- Only the ASCII capitals and the Kelvin sign change into ASCII characters. -/
theorem ascii_images : ∀ r ∈ lowerRuns, (128 : Int) ≤ r.first + r.shift ∨
    r = ⟨0x41, 0x5A, 1, 32⟩ ∨ r = ⟨0x212A, 0x212A, 1, -8383⟩ := by
  decide +kernel

theorem toLower_of_capital {c : Char} (h : 65 ≤ c.toNat ∧ c.toNat ≤ 90) :
    c.toLower = Char.ofNat (c.toNat + 32) := by
  have hall : ∀ n ∈ List.range 26, (Char.ofNat (65 + n)).toLower = Char.ofNat (65 + n + 32) := by
    decide
  have hc := hall (c.toNat - 65) (List.mem_range.mpr (by omega))
  rw [show 65 + (c.toNat - 65) = c.toNat by omega, Char.ofNat_toNat] at hc
  exact hc

theorem ofNat_lowerCode_eq_toLower {c : Char} (hascii : lowerCode c.toNat < 128)
    (hk : lowerCode c.toNat ≠ 0x6B) : Char.ofNat (lowerCode c.toNat) = c.toLower := by
  obtain ⟨r, hr, hmem, hcode⟩ | hcode := lowerCode_cases c.toNat
  · obtain ⟨hfirst, hlast, -⟩ := CaseRun.mem_iff.mp hmem
    rcases ascii_images r hr with habove | rfl | rfl
    · omega
    · rw [toLower_of_capital ⟨hfirst, hlast⟩, hcode]
      rfl
    · dsimp only at hfirst hlast hcode
      omega
  · have hself := toLower_ofNat_lowerCode c.toNat
    rw [hcode, Char.ofNat_toNat] at hself ⊢
    exact hself.symm

/-- The small letters of ASCII that only its own letters have as their lower case. The dotted
capital I begins with an `i`, and the Kelvin sign becomes a `k`. -/
def AsciiLetter (d : Char) : Prop := 97 ≤ d.toNat ∧ d.toNat ≤ 122 ∧ d ≠ 'i' ∧ d ≠ 'k'

instance (d : Char) : Decidable (AsciiLetter d) := by
  unfold AsciiLetter
  infer_instance

theorem lowerChar_eq_toLower {c : Char} (h : ∀ d ∈ lowerChar c, AsciiLetter d) :
    lowerChar c = [c.toLower] := by
  unfold lowerChar at h ⊢
  split at h
  next => exact absurd rfl (h 'i' (by simp)).2.2.1
  next hdotted =>
    rw [if_neg hdotted]
    obtain ⟨hlow, hhigh, -, hk⟩ := h _ (List.mem_singleton_self _)
    obtain hcode | hzero := toNat_ofNat_lowerCode c.toNat
    · rw [ofNat_lowerCode_eq_toLower (by omega)]
      intro hkelvin
      rw [hkelvin] at hk
      exact hk (by decide)
    · rw [hzero] at hlow
      exact absurd hlow (by decide)

theorem lowerAfter_eq_map_toLower {seen cs : List Char}
    (h : ∀ d ∈ lowerAfter seen cs, AsciiLetter d) :
    lowerAfter seen cs = cs.map Char.toLower := by
  induction cs generalizing seen with
  | nil => rfl
  | cons c cs ih =>
    rw [lowerAfter, List.forall_mem_append] at h
    obtain ⟨hc, hcs⟩ := h
    have hplain : c ≠ 'Σ' := by
      rintro rfl
      rw [if_pos rfl] at hc
      have hsigma := hc _ (List.mem_singleton_self _)
      split at hsigma
      all_goals exact absurd hsigma (by decide)
    rw [if_neg hplain] at hc
    rw [lowerAfter, if_neg hplain, lowerChar_eq_toLower hc, ih hcs]
    rfl

theorem AsciiLetter.lowerChar_eq_self {d : Char} (h : AsciiLetter d) : lowerChar d = [d] := by
  have hall : ∀ n ∈ List.range 123, AsciiLetter (Char.ofNat n) →
      lowerChar (Char.ofNat n) = [Char.ofNat n] := by
    decide +kernel
  obtain ⟨-, hhigh, -⟩ := id h
  have hd := hall d.toNat (List.mem_range.mpr (by omega))
  rw [Char.ofNat_toNat] at hd
  exact hd h

/-- For a word of these letters, to be its lower case is to be the word up to the case of ASCII
letters. -/
theorem lower_eq_iff_sameLetters {s word : String} (h : ∀ d ∈ word.toList, AsciiLetter d) :
    lower s = word ↔ sameLetters word s := by
  constructor
  · rintro rfl
    rw [toList_lower] at h
    rw [sameLetters_iff, asciiLower_lower, ← String.toList_inj, toList_lower, toList_asciiLower]
    exact lowerAfter_eq_map_toLower h
  · intro hsame
    rw [← lower_eq_of_sameLetters hsame]
    exact lower_eq_self fun d hd => (h d hd).lowerChar_eq_self

end Ascii
section Sigma

/-- A final small sigma as it is written inside a word. -/
def medial (c : Char) : Char := if c = 'ς' then 'σ' else c

/-- A text without the difference between its small sigmas. -/
def medials (s : String) : String := String.ofList (s.toList.map medial)

theorem medial_eq_iff {c d : Char} (hd : d ≠ 'σ') (hd' : d ≠ 'ς') :
    medial c = medial d ↔ c = d := by
  unfold medial
  rw [if_neg hd']
  split
  next hc => exact iff_of_false hd.symm fun h => hd' (h ▸ hc)
  next => rfl

/-- A text without small sigmas is told apart from every other. -/
theorem eq_of_medials_eq {s t : String} (hmedial : 'σ' ∉ t.toList) (hfinal : 'ς' ∉ t.toList)
    (h : medials s = medials t) : s = t := by
  have hchars : s.toList.map medial = t.toList.map medial := String.ofList_inj.mp h
  rw [← String.toList_inj]
  generalize s.toList = cs at hchars
  generalize t.toList = ds at hmedial hfinal hchars
  induction ds generalizing cs with
  | nil => simpa using hchars
  | cons d ds ih =>
    cases cs with
    | nil => simp at hchars
    | cons c cs =>
      simp only [List.mem_cons, not_or] at hmedial hfinal
      simp only [List.map_cons, List.cons.injEq] at hchars
      obtain ⟨hhead, htail⟩ := hchars
      rw [(medial_eq_iff (Ne.symm hmedial.1) (Ne.symm hfinal.1)).mp hhead,
        ih cs hmedial.2 hfinal.2 htail]

/-- Up to its sigmas, the lowercase of a text is that of its characters. -/
theorem map_medial_lowerAfter (seen cs : List Char) :
    (lowerAfter seen cs).map medial = cs.flatMap fun c => (lowerChar c).map medial := by
  induction cs generalizing seen with
  | nil => rfl
  | cons c cs ih =>
    rw [lowerAfter, List.map_append, ih, List.flatMap_cons]
    congr 1
    split
    next hsigma =>
      rw [hsigma, lowerChar_sigma]
      split <;> rfl
    next => rfl

theorem medial_eq_colon_iff {c : Char} : medial c = ':' ↔ c = ':' :=
  medial_eq_iff (d := ':') (by decide) (by decide)

theorem colon_mem_lower_iff {s : String} : ':' ∈ (lower s).toList ↔ ':' ∈ s.toList := by
  have hmedial (cs : List Char) : ':' ∈ cs.map medial ↔ ':' ∈ cs := by
    simp [medial_eq_colon_iff]
  rw [toList_lower, ← hmedial, lowerChars, map_medial_lowerAfter]
  simp [hmedial, colon_mem_lowerChar_iff]

/-- The colons of a text cut its lowercase in the same places. -/
theorem pieces_lowerChars (cs : List Char) :
    (pieces (· == ':') (lowerChars cs)).map (·.map medial) =
      (pieces (· == ':') cs).map fun piece => (lowerChars piece).map medial := by
  have hchars (cs : List Char) :
      (lowerChars cs).map medial = cs.flatMap fun c => (lowerChar c).map medial :=
    map_medial_lowerAfter [] cs
  calc (pieces (· == ':') (lowerChars cs)).map (·.map medial)
    _ = pieces (· == ':') ((lowerChars cs).map medial) := by
        simp only [List.map_eq_flatMap (f := medial)]
        refine (pieces_flatMap (f := fun c => [medial c]) rfl (fun c hc => ?_) _).symm
        exact medial_eq_colon_iff.mp (List.mem_singleton.mp hc).symm
    _ = pieces (· == ':') (cs.flatMap fun c => (lowerChar c).map medial) := by rw [hchars]
    _ = (pieces (· == ':') cs).map (·.flatMap fun c => (lowerChar c).map medial) := by
        refine pieces_flatMap (by decide) (fun c hc => ?_) cs
        obtain ⟨d, hd, hcolon⟩ := List.mem_map.mp hc
        rw [medial_eq_colon_iff.mp hcolon] at hd
        exact colon_mem_lowerChar_iff.mp hd
    _ = (pieces (· == ':') cs).map fun piece => (lowerChars piece).map medial := by
        simp only [hchars]

/-- A sigma looks beyond the piece that it stands in, and nothing else does. -/
theorem map_medials_split_lower (s : String) :
    (split ':' (lower s)).map medials = (split ':' s).map fun piece => medials (lower piece) := by
  have hpieces := congrArg (List.map String.ofList) (pieces_lowerChars s.toList)
  simpa [split, medials, List.map_map, Function.comp_def] using hpieces

end Sigma

end OnchainSchema.Text
