import Mathlib
import OnchainSchema.Ref.Resolve

/-!
Pointers to every node. A node of a document stands at the end of keys and indices, and the pointer
that is written from them leads to it; a pointer leads to nothing but nodes of the document.
-/
namespace OnchainSchema

namespace Pointer

/-- One step from a value into it. -/
inductive Step where
  | key (name : String)
  | index (i : Nat)
  deriving DecidableEq, Repr

namespace Step

/-- What the step is looked up by. -/
def text : Step → String
  | .key name => name
  | .index i => toString i

/-- The step as it stands in a pointer: a key with its tildes and slashes escaped, an index in
decimal. -/
def written : Step → String
  | .key name => String.ofList (escapeChars name.toList)
  | .index i => toString i

end Step

/-- The pointer with these steps. -/
def ofSteps (steps : List Step) : String := "#/" ++ Text.join "/" (steps.map Step.written)

section Escapes

variable {mark c d : Char} {cs : List Char}

theorem restore_cons_of_ne (h : d ≠ '~') : restore mark c (d :: cs) = d :: restore mark c cs := by
  rw [restore]
  simp [h]

theorem restore_mark : restore mark c ('~' :: mark :: cs) = c :: restore mark c cs := by
  rw [restore, if_pos rfl]

theorem restore_tilde_of_ne (h : d ≠ mark) :
    restore mark c ('~' :: d :: cs) = '~' :: restore mark c (d :: cs) := by
  rw [restore, if_neg h]

/-- A key with only its tildes escaped. -/
def escapeTildes (cs : List Char) : List Char :=
  cs.flatMap fun c => if c = '~' then ['~', '0'] else [c]

/-- No `~1` comes about where an escaped tilde stands before a one. -/
theorem restore_slashes (cs : List Char) : restore '1' '/' (escapeChars cs) = escapeTildes cs := by
  induction cs with
  | nil => rfl
  | cons c cs ih =>
    rw [escapeChars, escapeTildes, List.flatMap_cons, List.flatMap_cons, ← escapeChars,
      ← escapeTildes]
    by_cases htilde : c = '~'
    · subst htilde
      simp only [↓reduceIte, List.cons_append, List.nil_append]
      rw [restore_tilde_of_ne (by decide), restore_cons_of_ne (by decide), ih]
    · by_cases hslash : c = '/'
      · subst hslash
        simp only [htilde, ↓reduceIte, List.cons_append, List.nil_append]
        rw [restore_mark, ih]
      · simp only [htilde, hslash, ↓reduceIte, List.cons_append, List.nil_append]
        rw [restore_cons_of_ne htilde, ih]

theorem restore_tildes (cs : List Char) : restore '0' '~' (escapeTildes cs) = cs := by
  induction cs with
  | nil => rfl
  | cons c cs ih =>
    rw [escapeTildes, List.flatMap_cons, ← escapeTildes]
    by_cases htilde : c = '~'
    · subst htilde
      simp only [↓reduceIte, List.cons_append, List.nil_append]
      rw [restore_mark, ih]
    · simp only [htilde, ↓reduceIte, List.cons_append, List.nil_append]
      rw [restore_cons_of_ne htilde, ih]

theorem unescape_escapeChars (cs : List Char) : unescape (escapeChars cs) = cs := by
  rw [unescape, restore_slashes, restore_tildes]

theorem slash_notMem_escapeChars (cs : List Char) : '/' ∉ escapeChars cs := by
  intro h
  obtain ⟨c, -, hc⟩ := List.mem_flatMap.mp h
  split at hc
  · simp at hc
  · split at hc
    · simp at hc
    · next hslash => exact hslash (List.mem_singleton.mp hc).symm

theorem escapeChars_eq_nil_iff : escapeChars cs = [] ↔ cs = [] := by
  cases cs with
  | nil => exact iff_of_true rfl rfl
  | cons c cs =>
    rw [escapeChars, List.flatMap_cons]
    split
    · simp
    · split <;> simp

end Escapes

theorem escapeChars_eq_self {cs : List Char} (h : ∀ c ∈ cs, c ≠ '~' ∧ c ≠ '/') :
    escapeChars cs = cs := by
  induction cs with
  | nil => rfl
  | cons c cs ih =>
    obtain ⟨htilde, hslash⟩ := h c (by simp)
    rw [escapeChars, List.flatMap_cons, ← escapeChars, ih fun d hd => h d (by simp [hd]),
      if_neg htilde, if_neg hslash]
    rfl

section Indices

variable (i : Nat)

theorem toList_toString : (toString i).toList = Nat.toDigits 10 i := by
  rw [Nat.toString_eq_ofList_toDigits, String.toList_ofList]

theorem isDigit_of_mem_toString {c : Char} (h : c ∈ (toString i).toList) : c.isDigit = true := by
  rw [toList_toString] at h
  exact Nat.isDigit_of_mem_toDigits (by decide) (by decide) h

/-- An index that is written in decimal is read back. -/
theorem index?_toString : index? (toString i) = some i := by
  have hne : (toString i).toList ≠ [] := by
    rw [toList_toString]
    exact Nat.toDigits_ne_nil
  have hplus : ∀ cs, (toString i).toList ≠ '+' :: cs := by
    intro cs hcs
    have hdigit : '+'.isDigit = true :=
      isDigit_of_mem_toString i (hcs ▸ List.mem_cons_self (a := '+'))
    exact absurd hdigit (by decide)
  have hall : (toString i).toList.all Char.isDigit = true :=
    List.all_eq_true.mpr fun c => isDigit_of_mem_toString i
  have hvalue : (toString i).toList.foldl (fun n c => n * 10 + (c.toNat - '0'.toNat)) 0 = i := by
    rw [toList_toString]
    simpa only [Nat.ofDigitChars, Nat.mul_comm] using @Nat.ofDigitChars_ten_toDigits i
  unfold index?
  simp only [hall, hvalue]
  rw [if_pos ⟨hne, trivial⟩]

end Indices

namespace Step

/-- Digits are not escaped. -/
theorem written_eq (s : Step) : s.written = String.ofList (escapeChars s.text.toList) := by
  cases s with
  | key name => rfl
  | index i =>
    have hdigit : ∀ c ∈ (toString i).toList, c ≠ '~' ∧ c ≠ '/' := by
      intro c hc
      have hc := isDigit_of_mem_toString i hc
      constructor <;>
      · rintro rfl
        exact absurd hc (by decide)
    rw [written, text, escapeChars_eq_self hdigit, String.ofList_toList]

theorem unescape_written (s : Step) : unescape s.written.toList = s.text.toList := by
  rw [written_eq, String.toList_ofList, unescape_escapeChars]

theorem slash_notMem_written (s : Step) : '/' ∉ s.written.toList := by
  rw [written_eq, String.toList_ofList]
  exact slash_notMem_escapeChars _

/-- Only an empty key is written as nothing. -/
theorem written_eq_empty_iff {s : Step} : s.written.toList = [] ↔ s = .key "" := by
  rw [written_eq, String.toList_ofList, escapeChars_eq_nil_iff]
  cases s with
  | key name => simp [text]
  | index i => simp [text, Nat.toDigits_ne_nil]

end Step

theorem body_of_head {rest : String} (h : rest.toList.head? ≠ some '/') :
    body ("#/" ++ rest) = rest.toList := by
  have hchars : ("#/" ++ rest).toList = '#' :: '/' :: rest.toList := by simp
  rw [body, hchars]
  cases hrest : rest.toList with
  | nil => rfl
  | cons c cs =>
    rw [hrest] at h
    have hc : (c == '/') = false := by simpa using h
    simp [hc]

/-- Texts without slashes are read one by one where a pointer joins them. An empty first text would
be lost among the slashes that a pointer may begin with. -/
theorem steps_join {ts : List String} (hslash : ∀ t ∈ ts, '/' ∉ t.toList)
    (hfirst : ts.head? ≠ some "") :
    steps ("#/" ++ Text.join "/" ts) = ts.map fun t => String.ofList (unescape t.toList) := by
  cases ts with
  | nil => decide
  | cons t ts =>
    obtain ⟨rest, hrest⟩ := Text.exists_append_of_join "/" t ts
    have ht : t.toList ≠ [] := fun ht => hfirst (congrArg some (String.toList_eq_nil_iff.mp ht))
    obtain ⟨c, cs, hcs⟩ := List.exists_cons_of_ne_nil ht
    have hchars : (Text.join "/" (t :: ts)).toList = c :: (cs ++ rest) := by
      rw [hrest, hcs, List.cons_append]
    have hc : c ≠ '/' := by
      rintro rfl
      exact hslash t (List.mem_cons_self ..) (hcs ▸ List.mem_cons_self ..)
    have hbody : body ("#/" ++ Text.join "/" (t :: ts)) = c :: (cs ++ rest) := by
      rw [body_of_head (by rw [hchars]; simpa using hc), hchars]
    have hpieces : Text.pieces (· == '/') (body ("#/" ++ Text.join "/" (t :: ts))) =
        (t :: ts).map String.toList := by
      rw [hbody, ← hchars, Text.toList_join]
      apply Text.pieces_intercalate
      simpa using hslash
    rw [steps, if_neg (by simp [hbody]), hpieces, List.map_map]
    rfl

/-- The steps of a pointer are those that it is written from. -/
theorem steps_ofSteps {ss : List Step} (h : ss.head? ≠ some (.key "")) :
    steps (ofSteps ss) = ss.map Step.text := by
  have hslash : ∀ t ∈ ss.map Step.written, '/' ∉ t.toList := by simp [Step.slash_notMem_written]
  have hfirst : (ss.map Step.written).head? ≠ some "" := by
    rw [List.head?_map]
    intro hempty
    obtain ⟨s, hs, hwritten⟩ := Option.map_eq_some_iff.mp hempty
    exact h (hs.trans (congrArg some (Step.written_eq_empty_iff.mp (by simp [hwritten]))))
  rw [ofSteps, steps_join hslash hfirst, List.map_map]
  apply List.map_congr_left
  intro step _
  simp [Step.unescape_written]

end Pointer

namespace Json

open Pointer (Step)

/-- The node `k` stands in the value `j` at the end of the steps. -/
inductive At : Json → List Step → Json → Prop
  | here (j : Json) : At j [] j
  | member {name : String} {v k : Json} {ms : Members} {steps : List Step} (hm : (name, v) ∈ ms)
      (hv : At v steps k) : At (.obj ms) (.key name :: steps) k
  | elem {i : Nat} {e k : Json} {es : List Json} {steps : List Step} (he : es[i]? = some e)
      (hk : At e steps k) : At (.arr es) (.index i :: steps) k

theorem holds_iff_exists_at {j k : Json} : j.Holds k ↔ ∃ steps, j.At steps k := by
  constructor
  · intro h
    induction h with
    | refl j => exact ⟨[], .here j⟩
    | @member name _ _ _ hm _ ih =>
      obtain ⟨steps, hsteps⟩ := ih
      exact ⟨.key name :: steps, .member hm hsteps⟩
    | elem he _ ih =>
      obtain ⟨steps, hsteps⟩ := ih
      obtain ⟨i, hi⟩ := List.mem_iff_getElem?.mp he
      exact ⟨.index i :: steps, .elem hi hsteps⟩
  · rintro ⟨steps, h⟩
    induction h with
    | here j => exact .refl j
    | member hm _ ih => exact .member hm ih
    | elem he _ ih => exact .elem (List.mem_of_getElem? he) ih

/-- Where no object has a key twice, the texts of the steps lead to the node. -/
theorem At.follow {j k : Json} {steps : List Step} (h : j.At steps k) (hj : j.KeysDistinct) :
    j.follow (steps.map Step.text) = some k := by
  induction h with
  | here j => rfl
  | @member name _ _ ms _ hm _ ih =>
    obtain ⟨hkeys, hms⟩ := hj
    change (Members.get? name ms).bind _ = _
    rw [(Members.mem_iff_get?_eq_some hkeys).mp hm]
    exact ih (hms.of_mem hm)
  | elem he _ ih =>
    rw [List.map_cons, follow_cons, child?, Step.text, Pointer.index?_toString, Option.bind_some, he]
    exact ih (KeysDistinctElems.of_mem hj (List.mem_of_getElem? he))

end Json

open Json Pointer

/-- Every node of a document is named by the pointer that is written from the keys and indices on
the way to it, unless the first of them is the empty key; and what a pointer names is a node of the
document. -/
theorem pointers_reach_every_node (document : Json) (h : document.KeysDistinct) :
    (∀ steps node, document.At steps node → steps.head? ≠ some (.key "") →
      Ref.navigate document (ofSteps steps) = .ok node) ∧
    ∀ fragment node, Ref.navigate document fragment = .ok node →
      ∃ steps, document.At steps node := by
  constructor
  · intro steps node hnode hfirst
    rw [Ref.navigate, navigate, steps_ofSteps hfirst, hnode.follow h]
  · intro fragment node hnode
    rw [← holds_iff_exists_at]
    unfold Ref.navigate at hnode
    split at hnode
    next found hfound =>
      cases hnode
      exact holds_of_navigate hfound
    next => cases hnode

/-- Keys that look like the beginning of a pointer, like an escape and like an index. -/
def oddKeys : String := "\x7b\"#/~1\":[0,\x7b\"\":\x7b\"+1\":\"here\"\x7d\x7d]\x7d"

def oddSteps : List Step := [.key "#/~1", .index 1, .key "", .key "+1"]

theorem odd_keys_reached :
    ∃ document, Json.parse oddKeys = .ok document ∧ document.KeysDistinct ∧
      document.At oddSteps (.str "here") ∧ ofSteps oddSteps = "#/#~1~01/1//+1" ∧
      Ref.navigate document "#/#~1~01/1//+1" = .ok (.str "here") := by
  let document : Json :=
    .obj [("#/~1", .arr [.num (.int 0), .obj [("", .obj [("+1", .str "here")])]])]
  have hparse : Json.parse oddKeys = .ok document := by cbv
  have hkeys : document.KeysDistinct := keysDistinct_of_parse hparse
  have hat : document.At oddSteps (.str "here") :=
    .member (List.mem_cons_self ..) (.elem rfl
      (.member (List.mem_cons_self ..) (.member (List.mem_cons_self ..) (.here _))))
  have hpointer : ofSteps oddSteps = "#/#~1~01/1//+1" := by decide
  refine ⟨document, hparse, hkeys, hat, hpointer, ?_⟩
  rw [← hpointer]
  exact (pointers_reach_every_node document hkeys).1 oddSteps _ hat (by decide)

end OnchainSchema
