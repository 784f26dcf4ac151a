import Enclave.Proofs.Activation.Histories

/-! # Evaluating activations

A record is written as characters that are joined to a text, whose bytes are then put in a file, and
it is read the same way back.  Where an activation is evaluated by the kernel, hardly anything takes
as long as joining a text and taking it apart again.  Here records go from characters to bytes and
back without a text in between, which comes to the same (`System.activate_eq_activateChars`). -/

namespace Enclave

open Activation (Request)
open Procedure (watched)

namespace BuildRecord

/-! ### Records as characters -/

/-- The record that characters denote, and the report if they are not taken as one. -/
def ofChars (file : Path) (chars : List Char) : Option BuildRecord × List Event :=
  match (Json.parse? chars).bind ofJson? with
  | some record =>
      if record.fingerprint.isWellFormed then (some record, [])
      else (none, [ignored file "build record with malformed fingerprint"])
  | none => (none, [ignored file "unreadable build record"])

theorem ofContent_ofList (file : Path) (chars : List Char) :
    ofContent file (.ofList chars) = ofChars file chars := by
  rw [ofContent, parse?, String.toList_ofList]
  rfl

/-- The record of an environment. -/
def loadChars (world : World) (location : Path) : Option BuildRecord × List Event :=
  match world.files.readBytes world.base (Layout.recordFile location) with
  | .error _ => (none, [])
  | .ok bytes => bytes.decode?.elim (none, []) (ofChars (Layout.recordFile location))

theorem load_eq (world : World) (location : Path) :
    load world location = loadChars world location := by
  rw [load, World.readText, FileSystem.readText, loadChars]
  cases world.files.readBytes world.base (Layout.recordFile location) with
  | error cause => rfl
  | ok bytes =>
      dsimp only
      rw [Bytes.text?]
      cases bytes.decode? with
      | none => rfl
      | some chars => exact ofContent_ofList _ chars

/-- The bytes of a record's file. -/
def bytes (record : BuildRecord) : Bytes :=
  .ofChars (Json.prettyAt 0 record.toJson)

theorem ofText_text (record : BuildRecord) : Bytes.ofText record.text = record.bytes := by
  rw [text, Json.pretty, Bytes.ofText, String.toList_ofList, bytes]

/-- Writes a record to the draft. -/
def writeChars (record : BuildRecord) (location : Path) (world : World) :
    Except Failure Unit × World :=
  let draft := Layout.recordDraft location
  match world.change fun files base => files.writeBytes base draft record.bytes with
  | (.ok (), world) => (.ok (), world)
  | (.error cause, world) => (.error (.draft draft cause), world)

theorem writeDraft_eq (record : BuildRecord) (location : Path) (world : World) :
    record.writeDraft location world = record.writeChars location world := by
  rw [writeDraft, ofText_text]
  rfl

end BuildRecord

/-! ### Activations -/

variable {Memory : Type}

/-- How the world and a provisioner answer, with records as characters. -/
def Activator.handleChars (settings : ActivatorSettings) (provisioner : Provisioner Memory)
    (now : Instant) : (request : Request) → World × Memory → request.Answer × (World × Memory)
  | .readRecord location => onWorld fun world =>
      let (record, events) := BuildRecord.loadChars world location
      (record, world.reportAll events)
  | .writeDraft location record => onWorld (record.writeChars location)
  | request => handle settings provisioner now request

theorem Activator.handle_eq (settings : ActivatorSettings) (provisioner : Provisioner Memory)
    (now : Instant) : handle settings provisioner now = handleChars settings provisioner now := by
  funext request state
  cases request with
  | readRecord location => rw [handle, handleChars, onWorld, onWorld, BuildRecord.load_eq]
  | writeDraft location record =>
      rw [handle, handleChars, onWorld, onWorld, BuildRecord.writeDraft_eq]
  | _ => rfl

/-- The system after an activation, with records as characters. -/
def System.activateChars (system : System Memory) (provisioner : Provisioner Memory) (now : Instant)
    (request : ActivationRequest) : Activator.Completion × System Memory :=
  let (outcome, moment) := (system.steps request).run
    (watched Operation.answered
      (Activator.handleChars system.activator.settings provisioner now)) system.moment
  let completion := system.activator.complete request outcome
  (completion, ⟨completion.activator, completion.context, moment⟩)

theorem System.activate_eq_activateChars (system : System Memory) (provisioner : Provisioner Memory)
    (now : Instant) (request : ActivationRequest) :
    system.activate provisioner now request = system.activateChars provisioner now request := by
  rw [activate, Activator.watch, Activator.handle_eq]
  rfl

end Enclave
