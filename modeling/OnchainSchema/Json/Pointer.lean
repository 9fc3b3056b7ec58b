import OnchainSchema.Json.Basic
import OnchainSchema.Text.Pieces

/-! Pointer fragments: the steps a fragment names, and the node they lead to. -/
namespace OnchainSchema.Pointer

/-- Replaces `~` followed by `mark` by `c`, from left to right. -/
def restore (mark c : Char) : List Char → List Char
  | '~' :: d :: cs => if d = mark then c :: restore mark c cs else '~' :: restore mark c (d :: cs)
  | d :: cs => d :: restore mark c cs
  | [] => []

/-- The key that a step is written for: `~1` is a slash and then `~0` a tilde. -/
def unescape (cs : List Char) : List Char := restore '0' '~' (restore '1' '/' cs)

/-- The writing of a key as a step. -/
def escapeChars (cs : List Char) : List Char :=
  cs.flatMap fun c => if c = '~' then ['~', '0'] else if c = '/' then ['~', '1'] else [c]

/-- The text of a fragment after its leading number signs and slashes. -/
def body (fragment : String) : List Char :=
  (fragment.toList.dropWhile (· == '#')).dropWhile (· == '/')

/-- An empty fragment has no steps and so names the whole document. -/
def steps (fragment : String) : List String :=
  if body fragment = [] then []
  else (Text.pieces (· == '/') (body fragment)).map fun piece => String.ofList (unescape piece)

/-- An array index: decimal digits, after a plus sign or not. -/
def index? (step : String) : Option Nat :=
  let cs := match step.toList with
    | '+' :: cs => cs
    | cs => cs
  if cs ≠ [] ∧ cs.all Char.isDigit then
    some (cs.foldl (fun n c => n * 10 + (c.toNat - '0'.toNat)) 0)
  else none

end Pointer

namespace Json

def child? (step : String) : Json → Option Json
  | .arr es => (Pointer.index? step).bind fun i => es[i]?
  | j => j.get? step

def follow : Json → List String → Option Json
  | j, [] => some j
  | j, s :: ss => (j.child? s).bind (follow · ss)

@[simp] theorem follow_nil (j : Json) : j.follow [] = some j := rfl

@[simp] theorem follow_cons (j : Json) (s : String) (ss : List String) :
    j.follow (s :: ss) = (j.child? s).bind (follow · ss) := rfl

/-- The node of a document that a fragment names. -/
def navigate (j : Json) (fragment : String) : Option Json := j.follow (Pointer.steps fragment)

/-- The node `k` stands somewhere in the value `j`, or is all of it. -/
inductive Holds : Json → Json → Prop
  | refl (j : Json) : Holds j j
  | member {key : String} {v k : Json} {ms : Members} (hm : (key, v) ∈ ms) (hv : Holds v k) :
      Holds (.obj ms) k
  | elem {e k : Json} {es : List Json} (he : e ∈ es) (hk : Holds e k) : Holds (.arr es) k

theorem Holds.trans {j k l : Json} (h : Holds j k) (h' : Holds k l) : Holds j l := by
  induction h with
  | refl j => exact h'
  | member hm _ ih => exact .member hm (ih h')
  | elem he _ ih => exact .elem he (ih h')

theorem Holds.keysDistinct {j k : Json} (h : Holds j k) (hj : j.KeysDistinct) :
    k.KeysDistinct := by
  induction h with
  | refl j => exact hj
  | member hm _ ih => exact ih (KeysDistinctMembers.of_mem hj.2 hm)
  | elem he _ ih => exact ih (KeysDistinctElems.of_mem hj he)

theorem holds_of_get? {j v : Json} {key : String} (h : j.get? key = some v) : Holds j v := by
  cases j with
  | obj ms => exact .member (Members.mem_of_get?_eq_some h) (.refl v)
  | _ => cases h

theorem holds_of_child? {j v : Json} {step : String} (h : j.child? step = some v) :
    Holds j v := by
  cases j with
  | arr es =>
    obtain ⟨i, -, hi⟩ := Option.bind_eq_some_iff.mp h
    exact .elem (List.mem_of_getElem? hi) (.refl v)
  | obj ms => exact @holds_of_get? (.obj ms) v step h
  | _ => cases h

theorem holds_of_follow {j v : Json} {steps : List String} (h : j.follow steps = some v) :
    Holds j v := by
  induction steps generalizing j with
  | nil =>
    obtain rfl := Option.some.inj h
    exact .refl j
  | cons step steps ih =>
    rw [follow_cons, Option.bind_eq_some_iff] at h
    obtain ⟨child, hchild, hrest⟩ := h
    exact (holds_of_child? hchild).trans (ih hrest)

theorem holds_of_navigate {j v : Json} {fragment : String} (h : j.navigate fragment = some v) :
    Holds j v := holds_of_follow h

end OnchainSchema.Json
