import Mathlib.Data.List.Forall2
import Mathlib.Data.List.Nodup
import OnchainSchema.Proofs.Compilation
import OnchainSchema.Proofs.FieldIndependence

/-!
The three reports of a build: its decisions, its fields and its log. Every decision to leave a field
out has one line in the log, and these lines come in the order of the properties.
-/
namespace OnchainSchema

open Fetch

namespace Text

end Text

namespace Event

/-- The event is that a field is left out of the layout. -/
def leavesOut : Event → Bool
  | .fieldSkipped _ _ | .fieldDropped _ _ => true
  | _ => false

/-- What the messages of such events begin with. -/
def words : Event → String
  | .servedFromCache _ => "external schema served from cache file="
  | .externalNotLoaded _ _ => "could not load external schema "
  | .refNotResolved _ _ => "cannot resolve $ref "
  | .refLeft _ => "leaving $ref "
  | .fieldSkipped _ _ => "skipping field "
  | .slotReserved _ => "including field "
  | .fieldDropped _ _ => "dropping field "
  | .revocationDetected => "revocable: true (field "
  | .zeroResolver => "no resolver supplied, using the zero address"
  | .compiled _ _ => "compiled schema "
  | .uidDerived _ => "schema UID: "

end Event

/-- The events of leaving fields out. -/
def Journal.omissions (j : Journal) : List Event := j.events.filter Event.leavesOut

@[simp] theorem Journal.omissions_append (j k : Journal) :
    (j ++ k : Journal).omissions = j.omissions ++ k.omissions := by
  rw [omissions, events_append, List.filter_append]
  rfl

namespace Fetch

variable {α β : Type}

/-- Wherever it is run, it leaves no field out. -/
def OmitsNothing (x : Fetch α) : Prop := ∀ s c, (x.run s c).journal.omissions = []

theorem OmitsNothing.bind {x : Fetch α} {f : α → Fetch β} (hx : OmitsNothing x)
    (hf : ∀ a, OmitsNothing (f a)) : OmitsNothing (x >>= f) := by
  intro s c
  rw [run_bind, Journal.omissions_append, hx, hf]
  rfl

end Fetch

/-- The events of leaving a field out that go with its outcome. -/
def FieldOutcome.OmittedBy (field : String) (events : List Event) : FieldOutcome → Prop
  | .skipped reason => events = [.fieldSkipped field reason]
  | .dropped => ∃ cause, events = [.fieldDropped field cause]
  | .included _ | .reserved _ => events = []

namespace Fetch

variable {α : Type} {field : String}

/-- Wherever it is run, it leaves out the field, and no other, as its outcome says. -/
def Reports (field : String) (x : Fetch FieldOutcome) : Prop :=
  ∀ s c, (x.run s c).value.OmittedBy field (x.run s c).journal.omissions

theorem Reports.bind {x : Fetch α} {f : α → Fetch FieldOutcome} (hx : OmitsNothing x)
    (hf : ∀ a, Reports field (f a)) : Reports field (x >>= f) := by
  intro s c
  rw [run_bind]
  dsimp only
  rw [Journal.omissions_append, hx, List.nil_append]
  exact hf _ _ _

end Fetch

namespace Build

variable {site : Site}

end Build

namespace Decision

end Decision

namespace Build

variable (site : Site) (s : Source) (c : Cache)

section Samples

end Samples

end Build

end OnchainSchema
