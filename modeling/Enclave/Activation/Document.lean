import Enclave.Activation.Activator
import Enclave.Json.Basic

/-! # Activations as documents

The JSON form of an activation, with the members of every object in the order of their keys. -/

namespace Enclave

open Json (Value)

/-- A path as a text. -/
def Path.toJson (path : Path) : Value := .ofText path.display

/-- A change as a document. -/
def Change.toJson : Change → Value
  | .prepended entry index =>
      .ofMembers [("change", .ofText "path_prepended"), ("entry", entry.toJson),
        ("previous_index", (index.map Value.ofNat).getD .null)]
  | .overridden key previous =>
      .ofMembers [("change", .ofText "var_changed"), ("key", .ofText key),
        ("previous", .ofText? previous.join)]

/-- A journal as a document. -/
def Journal.toJson (journal : Journal) : Value :=
  .ofMembers [("changes", .array (journal.changes.map Change.toJson))]

/-- A transition as a document. -/
def Transition.toJson (transition : Transition) : Value :=
  .ofTexts [transition.1.word, transition.2.word]

/-- A descriptor with the location of its environment as a document. -/
def Descriptor.toJson (descriptor : Descriptor) (location : Option Path) : Value :=
  .ofMembers ([("location", .ofText? (location.map Path.display)),
    ("mode", .ofText descriptor.mode.word), ("name", .ofText descriptor.name)] ++
    (descriptor.requirementFiles.map fun files =>
      ("requirement_files", Value.array (files.map Path.toJson))).toList)

/-- An activation as a document. -/
def Activation.toJson (activation : Activation) : Value :=
  .ofMembers [("descriptor", activation.descriptor.toJson activation.location),
    ("fingerprint", .ofText? (activation.fingerprint.map (·.text))),
    ("journal", activation.journal.toJson),
    ("policy", .ofText activation.policy.word),
    ("rebuilt", .bool activation.rebuilt),
    ("state", .ofText ActivationState.active.word),
    ("transitions", .array (activation.transitions.map Transition.toJson))]

end Enclave
