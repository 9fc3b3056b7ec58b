import OnchainSchema.Did
import OnchainSchema.Proofs.LowerCase

/-!
Canonical forms of identifiers. Two identifiers have the same canonical form exactly if they name
the same subject, and a canonical form is its own. No canonical form is the text that an index
address is hashed from.
-/
namespace OnchainSchema.Did

open Text

/-- The method of an identifier, in lower case, and the segments after it. -/
def HasMethod (did method : String) (rest : List String) : Prop :=
  ∃ scheme written, split ':' did = scheme :: written :: rest ∧ lower written = method

/-- An identifier whose segments all count alike: of neither special method, or of `web` without a
host. -/
def Other (did : String) : Prop :=
  ∀ method rest, HasMethod did method rest → method ≠ "pkh" ∧ (method = "web" → rest = [])

/-- Two identifiers that differ only in the case of what is not significant. -/
inductive SameSubject (d e : String) : Prop
  | web {host host' : String} {path : List String} (hd : HasMethod d "web" (host :: path))
      (he : HasMethod e "web" (host' :: path)) (hhost : lower host = lower host')
  | pkh {namespace_ chain account account' : String}
      (hd : HasMethod d "pkh" [namespace_, chain, account])
      (he : HasMethod e "pkh" [namespace_, chain, account'])
      (haccount : lower account = lower account')
  | other (hd : Other d) (he : Other e) (h : lower d = lower e)

/-- The canonical form of an identifier, by its method. -/
inductive Form (d : String) : String → Prop
  | web {host : String} {path : List String} (hd : HasMethod d "web" (host :: path)) :
      Form d (join ":" ("did" :: "web" :: lower host :: path))
  | pkh {namespace_ chain account : String} (hd : HasMethod d "pkh" [namespace_, chain, account]) :
      Form d (join ":" ["did", "pkh", namespace_, chain, lower account])
  | other (hd : Other d) : Form d (lower d)

variable {d e c : String} {method method' : String} {rest rest' : List String}

theorem HasMethod.unique (h : HasMethod d method rest) (h' : HasMethod d method' rest') :
    method = method' ∧ rest = rest' := by
  obtain ⟨scheme, written, hsplit, rfl⟩ := h
  obtain ⟨scheme', written', hsplit', rfl⟩ := h'
  rw [hsplit] at hsplit'
  obtain ⟨-, rfl, rfl⟩ : scheme = scheme' ∧ written = written' ∧ rest = rest' := by
    simpa using hsplit'
  exact ⟨rfl, rfl⟩

theorem HasMethod.colon_notMem (h : HasMethod d method rest) : ∀ p ∈ rest, ':' ∉ p.toList := by
  obtain ⟨scheme, written, hsplit, -⟩ := h
  intro p hp hcolon
  have hmem : p ∈ split ':' d := by
    rw [hsplit]
    exact List.mem_cons_of_mem _ (List.mem_cons_of_mem _ hp)
  exact (mem_of_mem_split hmem ':' hcolon).1 rfl

theorem hasMethod_join (hmethod : ':' ∉ method.toList) (hlower : lower method = method)
    (hrest : ∀ p ∈ rest, ':' ∉ p.toList) :
    HasMethod (join ":" ("did" :: method :: rest)) method rest := by
  refine ⟨"did", method, split_eq_iff.mpr ⟨by simp, ?_, rfl⟩, hlower⟩
  simp only [List.forall_mem_cons]
  exact ⟨by decide, hmethod, hrest⟩

/-- A method of an identifier in lower case is one of the identifier, unless it has a sigma. -/
theorem hasMethod_of_lower (hmedial : 'σ' ∉ method.toList) (hfinal : 'ς' ∉ method.toList)
    (h : HasMethod (lower d) method rest') :
    ∃ rest, HasMethod d method rest ∧ rest.length = rest'.length := by
  obtain ⟨scheme', written', hsplit', hwritten'⟩ := h
  have hfixed : lower written' = written' := by
    have hmem : written' ∈ split ':' (lower d) := by simp [hsplit']
    exact lower_of_mem_split hmem
  rw [hfixed] at hwritten'
  have hsegments := map_medials_split_lower d
  rw [hsplit', List.map_cons, List.map_cons, hwritten', eq_comm] at hsegments
  obtain ⟨scheme, tail, hsplit, -, htail⟩ := List.map_eq_cons_iff.mp hsegments
  obtain ⟨written, rest, rfl, hwritten, hrest⟩ := List.map_eq_cons_iff.mp htail
  refine ⟨rest, ⟨scheme, written, hsplit, eq_of_medials_eq hmedial hfinal hwritten⟩, ?_⟩
  simpa using congrArg List.length hrest

theorem Other.lower (h : Other d) : Other (lower d) := by
  intro method rest' hmethod
  constructor
  · rintro rfl
    obtain ⟨rest, hd, -⟩ := hasMethod_of_lower (by decide) (by decide) hmethod
    exact (h _ _ hd).1 rfl
  · rintro rfl
    obtain ⟨rest, hd, hlength⟩ := hasMethod_of_lower (by decide) (by decide) hmethod
    rw [(h _ _ hd).2 rfl] at hlength
    exact List.length_eq_zero_iff.mp hlength.symm

section Scheme

theorem hasScheme_iff : hasScheme d ↔
    ∃ a b c rest, d.toList = a :: b :: c :: ':' :: rest ∧
      a.toLower = 'd' ∧ b.toLower = 'i' ∧ c.toLower = 'd' := by
  have hcolon (x : Char) : x.toLower = ':' ↔ x = ':' :=
    toLower_induction (P := fun x y => y = ':' ↔ x = ':') (fun _ => Iff.rfl) (by decide) x
  rw [hasScheme, beq_iff_eq]
  constructor
  · intro h
    match hd : d.toList with
    | a :: b :: c :: x :: rest =>
      simp only [hd, List.take_succ_cons, List.take_zero, List.map_cons, List.map_nil,
        List.cons.injEq, and_true] at h
      obtain ⟨ha, hb, hc, hx⟩ := h
      exact ⟨a, b, c, rest, by rw [(hcolon x).mp hx], ha, hb, hc⟩
    | [] | [_] | [_, _] | [_, _, _] => simp [hd] at h
  · rintro ⟨a, b, c, rest, hd, ha, hb, hc⟩
    simp [hd, ha, hb, hc]

theorem hasScheme_of_startsWith (h : startsWith "did:" d) : hasScheme d := by
  obtain ⟨rest, rfl⟩ := startsWith_iff.mp h
  simp [hasScheme]

/-- An ASCII letter is put in lower case wherever it stands. -/
theorem lowerAfter_cons_letter {x y : Char} (hxy : x.toLower = y) (hy : lowerChar y = [y])
    (seen cs : List Char) : lowerAfter seen (x :: cs) = y :: lowerAfter (x :: seen) cs := by
  have hx : lowerChar x = [y] := by rw [← lowerChar_toLower, hxy, hy]
  have hsigma : x ≠ 'Σ' := by
    rw [ne_eq, ← toLower_eq_sigma_iff, hxy]
    exact ne_sigma_of_lowerChar hy
  rw [lowerAfter, if_neg hsigma, hx]
  rfl

theorem startsWith_lower (h : hasScheme d) : startsWith "did:" (lower d) := by
  obtain ⟨a, b, c, rest, hd, ha, hb, hc⟩ := hasScheme_iff.mp h
  have hletterD : lowerChar 'd' = ['d'] := by rfl
  have hletterI : lowerChar 'i' = ['i'] := by rfl
  have hcolon : lowerChar ':' = [':'] := by rfl
  rw [startsWith, toList_lower, hd, lowerChars, lowerAfter_cons_letter ha hletterD,
    lowerAfter_cons_letter hb hletterI, lowerAfter_cons_letter hc hletterD,
    lowerAfter_cons_letter (y := ':') rfl hcolon]
  rfl

theorem exists_hasMethod (h : hasScheme d) : ∃ method rest, HasMethod d method rest := by
  obtain ⟨a, b, c, rest, hd, -⟩ := hasScheme_iff.mp h
  have hpieces : pieces (· == ':') d.toList =
      pieces (· == ':') [a, b, c] ++ pieces (· == ':') rest := by
    rw [hd]
    exact pieces_append_sep (· == ':') [a, b, c] rest (by rfl)
  obtain ⟨first, more, hfirst⟩ := List.exists_cons_of_ne_nil (pieces_ne_nil (· == ':') [a, b, c])
  obtain ⟨second, others, hsecond⟩ := List.exists_cons_of_ne_nil (pieces_ne_nil (· == ':') rest)
  cases more with
  | nil =>
    refine ⟨_, others.map String.ofList, String.ofList first, String.ofList second, ?_, rfl⟩
    simp [split, hpieces, hfirst, hsecond]
  | cons next more =>
    refine ⟨_, (more ++ second :: others).map String.ofList, String.ofList first,
      String.ofList next, ?_, rfl⟩
    simp [split, hpieces, hfirst, hsecond]

end Scheme

theorem canonical_of_hasMethod_web {host : String} {path : List String} (hscheme : hasScheme d)
    (h : HasMethod d "web" (host :: path)) :
    canonical d = .ok (join ":" ("did" :: "web" :: lower host :: path)) := by
  obtain ⟨scheme, written, hsplit, hmethod⟩ := h
  rw [canonical, if_pos hscheme, hsplit]
  dsimp only
  rw [if_pos hmethod]

theorem canonical_of_hasMethod_pkh {namespace_ chain account : String} (hscheme : hasScheme d)
    (h : HasMethod d "pkh" [namespace_, chain, account]) :
    canonical d = .ok (join ":" ["did", "pkh", namespace_, chain, lower account]) := by
  obtain ⟨scheme, written, hsplit, hmethod⟩ := h
  rw [canonical, if_pos hscheme, hsplit]
  dsimp only
  rw [if_neg (by rw [hmethod]; decide), if_pos hmethod]

theorem canonical_of_other (hscheme : hasScheme d) (h : Other d) : canonical d = .ok (lower d) := by
  obtain ⟨method, rest, scheme, written, hsplit, hmethod⟩ := exists_hasMethod hscheme
  obtain ⟨hpkh, hweb⟩ := h method rest ⟨scheme, written, hsplit, hmethod⟩
  rw [canonical, if_pos hscheme, hsplit]
  dsimp only
  rw [hmethod]
  by_cases hmethod : method = "web"
  · rw [if_pos hmethod, hweb hmethod]
  · rw [if_neg hmethod, if_neg hpkh]

theorem SameSubject.canonical_eq (h : SameSubject d e) (hscheme : hasScheme d)
    (hscheme' : hasScheme e) : canonical d = canonical e := by
  cases h with
  | web hd he hhost =>
    rw [canonical_of_hasMethod_web hscheme hd, canonical_of_hasMethod_web hscheme' he, hhost]
  | pkh hd he haccount =>
    rw [canonical_of_hasMethod_pkh hscheme hd, canonical_of_hasMethod_pkh hscheme' he, haccount]
  | other hd he h => rw [canonical_of_other hscheme hd, canonical_of_other hscheme' he, h]

/-- What has a canonical form, and which. -/
theorem canonical_eq_ok_iff : canonical d = .ok c ↔ hasScheme d ∧ Form d c := by
  constructor
  · intro h
    by_cases hscheme : hasScheme d
    · refine ⟨hscheme, ?_⟩
      obtain ⟨method, rest, hd⟩ := exists_hasMethod hscheme
      have hother (hmethod : method ≠ "pkh" ∧ (method = "web" → rest = [])) : Form d c := by
        have hd : Other d := fun method' rest' hd' => by
          obtain ⟨rfl, rfl⟩ := hd.unique hd'
          exact hmethod
        rw [canonical_of_other hscheme hd] at h
        exact Except.ok.inj h ▸ .other hd
      by_cases hweb : method = "web"
      · cases rest with
        | nil => exact hother ⟨by rw [hweb]; decide, fun _ => rfl⟩
        | cons host path =>
          rw [hweb] at hd
          rw [canonical_of_hasMethod_web hscheme hd] at h
          exact Except.ok.inj h ▸ .web hd
      · by_cases hpkh : method = "pkh"
        · obtain ⟨scheme, written, hsplit, hmethod⟩ := hd
          rw [canonical, if_pos hscheme, hsplit] at h
          dsimp only at h
          rw [hmethod, if_neg hweb, if_pos hpkh] at h
          split at h
          · exact Except.ok.inj h ▸ .pkh ⟨scheme, written, hsplit, hmethod.trans hpkh⟩
          · cases h
        · exact hother ⟨hpkh, fun h => absurd h hweb⟩
    · rw [canonical, if_neg hscheme] at h
      cases h
  · rintro ⟨hscheme, hd | hd | hd⟩
    · exact canonical_of_hasMethod_web hscheme hd
    · exact canonical_of_hasMethod_pkh hscheme hd
    · exact canonical_of_other hscheme hd

section Forms

theorem HasMethod.web_join {host : String} {path : List String}
    (h : HasMethod d "web" (host :: path)) :
    HasMethod (join ":" ("did" :: "web" :: lower host :: path)) "web" (lower host :: path) := by
  have hfree := h.colon_notMem
  rw [List.forall_mem_cons] at hfree
  apply hasMethod_join (by decide) (by decide)
  rw [List.forall_mem_cons, colon_mem_lower_iff]
  exact hfree

theorem HasMethod.pkh_join {namespace_ chain account : String}
    (h : HasMethod d "pkh" [namespace_, chain, account]) :
    HasMethod (join ":" ["did", "pkh", namespace_, chain, lower account]) "pkh"
      [namespace_, chain, lower account] := by
  have hfree := h.colon_notMem
  simp only [List.forall_mem_cons] at hfree
  apply hasMethod_join (by decide) (by decide)
  simp only [List.forall_mem_cons, colon_mem_lower_iff]
  exact hfree

theorem startsWith_join (method : String) (rest : List String) :
    startsWith "did:" (join ":" ("did" :: method :: rest)) := by
  rw [startsWith_iff]
  refine ⟨join ":" (method :: rest), ?_⟩
  rw [← String.toList_inj]
  simp [List.intercalate_cons_cons]

theorem Form.startsWith (h : Form d c) (hscheme : hasScheme d) : startsWith "did:" c := by
  cases h with
  | web hd => exact startsWith_join _ _
  | pkh hd => exact startsWith_join _ _
  | other hd => exact startsWith_lower hscheme

/-- A canonical form is its own. -/
theorem Form.self (h : Form d c) : Form c c := by
  cases h with
  | web hd =>
    have hform := Form.web hd.web_join
    rwa [lower_lower] at hform
  | pkh hd =>
    have hform := Form.pkh hd.pkh_join
    rwa [lower_lower] at hform
  | other hd =>
    have hform := Form.other hd.lower
    rwa [lower_lower] at hform

theorem Other.not_web (h : Other d) {host : String} {path : List String} :
    ¬ HasMethod d "web" (host :: path) := by
  intro hweb
  have hempty := (h _ _ hweb).2 rfl
  simp at hempty

theorem Other.not_pkh (h : Other d) : ¬ HasMethod d "pkh" rest :=
  fun hpkh => (h _ _ hpkh).1 rfl

/-- A canonical form keeps the method and the segments after it, and those tell the subject. -/
theorem Form.sameSubject {c' : String} (h : Form d c) (h' : Form e c') (hc : c = c') :
    SameSubject d e := by
  cases h with
  | web hd =>
    have hweb := hd.web_join
    rw [hc] at hweb
    cases h' with
    | web he =>
      obtain ⟨hhost, rfl⟩ := List.cons.inj (hweb.unique he.web_join).2
      exact .web hd he hhost
    | pkh he => exact absurd (hweb.unique he.pkh_join).1 (by decide)
    | other he => exact absurd hweb he.lower.not_web
  | pkh hd =>
    have hpkh := hd.pkh_join
    rw [hc] at hpkh
    cases h' with
    | web he => exact absurd (hpkh.unique he.web_join).1 (by decide)
    | pkh he =>
      obtain ⟨rfl, rfl, haccount⟩ : _ = _ ∧ _ = _ ∧ _ = _ := by
        simpa using (hpkh.unique he.pkh_join).2
      exact .pkh hd he haccount
    | other he => exact absurd hpkh he.lower.not_pkh
  | other hd =>
    have hother := hd.lower
    rw [hc] at hother
    cases h' with
    | web he => exact absurd he.web_join hother.not_web
    | pkh he => exact absurd he.pkh_join hother.not_pkh
    | other he => exact .other hd he hc

end Forms

/-- Two identifiers have the same canonical form exactly if they name the same subject. -/
theorem canonical_eq_iff_same_subject {c c' : String} (hd : canonical d = .ok c)
    (he : canonical e = .ok c') : c = c' ↔ SameSubject d e := by
  obtain ⟨hscheme, hform⟩ := canonical_eq_ok_iff.mp hd
  obtain ⟨hscheme', hform'⟩ := canonical_eq_ok_iff.mp he
  constructor
  · exact hform.sameSubject hform'
  · intro h
    have hsame := h.canonical_eq hscheme hscheme'
    rw [hd, he] at hsame
    exact Except.ok.inj hsame

/-- A Kelvin sign stands for the letter in a method; the case of a path tells subjects apart. -/
theorem kelvin_sign_same_subject :
    canonical "did:p\u212Ah:eip155:1:0xAB" = .ok "did:pkh:eip155:1:0xab" ∧
    canonical "DID:PKH:eip155:1:0Xab" = .ok "did:pkh:eip155:1:0xab" ∧
    SameSubject "did:p\u212Ah:eip155:1:0xAB" "DID:PKH:eip155:1:0Xab" ∧
    ¬ SameSubject "did:web:Example.com:Alice" "did:web:example.com:alice" := by
  have hkelvin : canonical "did:p\u212Ah:eip155:1:0xAB" = .ok "did:pkh:eip155:1:0xab" := by rfl
  have hcapitals : canonical "DID:PKH:eip155:1:0Xab" = .ok "did:pkh:eip155:1:0xab" := by rfl
  have hAlice : canonical "did:web:Example.com:Alice" = .ok "did:web:example.com:Alice" := by rfl
  have halice : canonical "did:web:example.com:alice" = .ok "did:web:example.com:alice" := by rfl
  refine ⟨hkelvin, hcapitals, (canonical_eq_iff_same_subject hkelvin hcapitals).mp rfl, ?_⟩
  rw [← canonical_eq_iff_same_subject hAlice halice]
  decide

/-- A canonical form is its own and has the same hash and index address, and it is never the text
that an index address is hashed from. -/
theorem canonical_form_fixed_and_apart (h : canonical d = .ok c) :
    canonical c = .ok c ∧ (∃ rest, c = "did:" ++ rest) ∧
    hash d = hash c ∧ indexAddress d = indexAddress c ∧
    ∀ digest : Hash, c ≠ indexDomain ++ String.ofList (Hex.encode digest.toList) ∧
      Text.bytes c ≠ indexPreimage digest := by
  obtain ⟨hscheme, hform⟩ := canonical_eq_ok_iff.mp h
  have hstart := hform.startsWith hscheme
  have hself : canonical c = .ok c :=
    canonical_eq_ok_iff.mpr ⟨hasScheme_of_startsWith hstart, hform.self⟩
  have hhash : hash d = hash c := by rw [hash, hash, h, hself]
  obtain ⟨rest, hrest⟩ := startsWith_iff.mp hstart
  have hapart (digest : Hash) :
      c ≠ indexDomain ++ String.ofList (Hex.encode digest.toList) := by
    -- The domain begins with a capital, and a canonical form with a small letter.
    rw [hrest, ne_eq, ← String.toList_inj]
    simp [indexDomain]
  refine ⟨hself, ⟨rest, hrest⟩, hhash, ?_, fun digest => ⟨hapart digest, ?_⟩⟩
  · rw [indexAddress, indexAddress, hhash]
  · exact mt Text.bytes_inj.mp (hapart digest)

/-- Of the two capital sigmas only the second ends a word, also when it is read again. -/
theorem sigma_forms_fixed :
    canonical "DID:X:ΑΣ:ΒΣ" = .ok "did:x:ασ:βς" ∧ canonical "did:x:ασ:βς" = .ok "did:x:ασ:βς" ∧
    indexAddress "DID:X:ΑΣ:ΒΣ" = indexAddress "did:x:ασ:βς" := by
  have h : canonical "DID:X:ΑΣ:ΒΣ" = .ok "did:x:ασ:βς" := by rfl
  obtain ⟨hself, -, -, haddress, -⟩ := canonical_form_fixed_and_apart h
  exact ⟨h, hself, haddress⟩

end OnchainSchema.Did
