import CompiledModels.Error
import CompiledModels.Json.Value

/-!
What is worth telling the operator while models are compiled and evaluated.
-/

namespace CompiledModels

inductive Event
  | translatorTimedOut (identity : String) (timeout : Duration)
  | captureUnread (cause : FileError)
  | built (identity : String) (file : Path)
  | compiled (identity : String)
  | ready (identity : String) (cached : Bool)
  | entryIncomplete (identity : String) (cause : NotFoundError)
  | entryOfOtherAbi (identity : String) (found : Nat)
  | sourceDiffers (identity : String)
  | retiredNotRemoved (path : Path) (cause : FileError)
  | evaluationFailed (e : EvaluationError)
  | notAvailable (e : NotFoundError)

namespace Event

inductive Level
  | info
  | warning

def Level.text : Level → String
  | .info => "INFO"
  | .warning => "WARN"

def level : Event → Level
  | .built .. | .compiled _ | .ready .. => .info
  | _ => .warning

def message : Event → String
  | .translatorTimedOut .. => "translator timed out"
  | .captureUnread _ => "failed to read captured compiler output"
  | .built .. => "built model module"
  | .compiled _ => "compiled model"
  | .ready .. => "model ready"
  | .entryIncomplete .. => "cache entry is incomplete, rebuilding"
  | .entryOfOtherAbi .. => "cache entry was built for another module ABI, rebuilding"
  | .sourceDiffers _ =>
    "serving cached module built from different source; delete the entry to rebuild"
  | .retiredNotRemoved .. => "failed to remove retired entry"
  | .evaluationFailed _ => "evaluation failed"
  | .notAvailable _ => "model not available"

def details : Event → List (String × Json.Value)
  | .translatorTimedOut id timeout =>
    [("identity", .string id), ("timeout_ms", .number (.natural (UInt64.ofNat timeout.millis)))]
  | .captureUnread cause => [("error", .string cause.text)]
  | .built id file => [("identity", .string id), ("module", .string file.text)]
  | .compiled id => [("identity", .string id)]
  | .ready id cached => [("identity", .string id), ("cached", .bool cached)]
  | .entryIncomplete id cause => [("identity", .string id), ("error", .string cause.text)]
  | .entryOfOtherAbi id found =>
    [("identity", .string id), ("found", .number (.natural (UInt64.ofNat found))),
      ("expected", .number (.natural (UInt64.ofNat abiVersion)))]
  | .sourceDiffers id => [("identity", .string id)]
  | .retiredNotRemoved path cause => [("path", .string path.text), ("error", .string cause.text)]
  | .evaluationFailed e =>
    [("identity", .string e.identity), ("operation", .string e.operation),
      ("error", .string e.message)]
  | .notAvailable e => [("error", .string e.text)]

def report (e : Event) : Json.Value :=
  .ofFields (e.details ++
    [("message", .string e.message), ("level", .string e.level.text)])

end Event

end CompiledModels
