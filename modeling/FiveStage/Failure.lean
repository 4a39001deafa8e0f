import FiveStage.Config.Document
import FiveStage.Files

/-!
# Failures of a run

Why a run cannot be prepared or its reports cannot be written.
-/

namespace FiveStage

/-- Why a run cannot be prepared or reported. -/
inductive Failure
  | config (e : ConfigError)
  | memory (e : MemoryError)
  | io (path : String) (e : OsError)
  | document (e : DocumentError)
  deriving DecidableEq, Repr

namespace Failure

/-- The message for a failure. -/
def message : Failure → String
  | config e => e.message
  | memory e => e.message
  | io path e => "i/o error on " ++ path ++ ": " ++ e.message
  | document e => "invalid configuration JSON: " ++ e.message

/-- The messages of the failures behind a failure. -/
def causes : Failure → List String
  | io _ e => [e.message]
  | document e => [e.message]
  | _ => []

end Failure

end FiveStage
