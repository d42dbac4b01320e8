import LayerGraph.Fault
import LayerGraph.Json.Raw
/-!
# Settings

Settings shape the generated program and belong to neither graph. `Settings.validate` tests them;
`Settings.ofText?` reads them from a document, where what is left out keeps its default.
-/

namespace LayerGraph
set_option autoImplicit false
open Json (Raw)

/-- Settings of the generated program. -/
structure Settings where
  modelClassName : String := "NeuralNetwork"
  dataRoot : String := "./data"
  /-- The loss operator that is used when the architecture has none. -/
  fallbackLoss : String := "crossentropyloss"
  /-- Training steps between two reports of the loss. -/
  logInterval : Nat := 100
  checkpointDir : String := "checkpoints"
  defaultEpochs : Nat := 10
  defaultBatchSize : Nat := 64
  deriving DecidableEq, Repr

namespace Settings

def startsName (c : Char) : Bool := c.isAlpha || c = '_'

def continuesName (c : Char) : Bool := c.isAlphanum || c = '_'

/-- The text is an identifier of ASCII characters. -/
def isIdentifier (name : String) : Bool :=
  name.toList.head?.any startsName && name.toList.all continuesName

/-- The loss operator of the settings, if there is one. -/
def fallback? (s : Settings) : Option Operator :=
  (Catalog.find? .architecture s.fallbackLoss).filter (·.isLoss)

/-- Tests the settings; the class name comes first, then the loss, then the counts. -/
def validate (s : Settings) : Except Fault Unit :=
  if ¬ isIdentifier s.modelClassName then .error (.settings (.className s.modelClassName))
  else if s.fallback?.isNone then .error (.settings (.fallbackLoss s.fallbackLoss))
  else if s.logInterval = 0 ∨ s.defaultEpochs = 0 ∨ s.defaultBatchSize = 0 then
    .error (.settings .notPositive)
  else .ok ()

def count? (raw : Raw) : Option Nat :=
  raw.int?.bind fun i => if 0 ≤ i ∧ i < 4294967296 then some i.toNat else none

def fieldNames : List String :=
  ["model_class_name", "data_root", "fallback_loss", "log_interval", "checkpoint_dir",
   "default_epochs", "default_batch_size"]

/-- Reads settings; they are not tested. -/
def ofRaw? (raw : Raw) : Option Settings := do
  match ← raw.fields? fieldNames with
  | [className, dataRoot, loss, interval, directory, epochs, batchSize] => do
    let usual : Settings := {}
    let modelClassName ← Raw.withDefault usual.modelClassName Raw.string? className
    let dataRoot ← Raw.withDefault usual.dataRoot Raw.string? dataRoot
    let fallbackLoss ← Raw.withDefault usual.fallbackLoss Raw.string? loss
    let logInterval ← Raw.withDefault usual.logInterval count? interval
    let checkpointDir ← Raw.withDefault usual.checkpointDir Raw.string? directory
    let defaultEpochs ← Raw.withDefault usual.defaultEpochs count? epochs
    let defaultBatchSize ← Raw.withDefault usual.defaultBatchSize count? batchSize
    some { modelClassName, dataRoot, fallbackLoss, logInterval, checkpointDir, defaultEpochs,
           defaultBatchSize }
  | _ => none

def ofText? (text : String) : Option Settings := (Raw.ofText? text).bind ofRaw?

end Settings
end LayerGraph
