import VaultSync.Json
import VaultSync.Sync.Report
/-!
An outcome as a user reads it, on two streams, and as one JSON document.
-/

namespace VaultSync

/-- Text for the two streams of a terminal. -/
structure Printed where
  out : String
  err : String
deriving DecidableEq, Repr

namespace Printed

def success (text : String) : String := "  ✓ " ++ text ++ "\n"

def warning (text : String) : String := "  ⚠ " ++ text ++ "\n"

def error (text : String) : String := "  ✗ " ++ text ++ "\n"

def header (text : String) : String := "\n" ++ text ++ "\n"

def keyLine (id : String) : Option String → String
  | some recipient => "  " ++ id ++ "  " ++ recipient ++ "\n"
  | none => "  " ++ id ++ "\n"

end Printed

/-- The words of a kind with a capital first letter. -/
def OperationKind.title (kind : OperationKind) : String :=
  match kind.display.toList with
  | [] => ""
  | c :: rest => String.ofList (c.toUpper :: rest)

def SyncReport.print (report : SyncReport) : String :=
  (if report.commitSkipped then "  Nothing to commit\n" else "") ++
  (match report.rebaseStatus with
    | some status => "  Rebase: " ++ status.describe ++ "\n"
    | none => "") ++
  String.join (report.refUpdates.map fun u => "  " ++ u.remoteRef ++ " " ++ u.status.name ++ "\n") ++
  Printed.success s!"{report.operation.title} complete ({report.commandsRun} commands)"

/-- An outcome as a user reads it. The cause is shown only if it says more than the error. -/
def SyncOutcome.print (outcome : SyncOutcome) : Printed :=
  match outcome with
  | completed report => ⟨report.print, ""⟩
  | cancelled => ⟨Printed.warning "Cancelled", ""⟩
  | failed operation error cause =>
    ⟨"", Printed.error (operation.display ++ " failed: " ++ error.message) ++
      (if cause = error.message then "" else "    cause: " ++ cause ++ "\n") ++
      (if outcome.rollbackRequested then
        "\n  Local commits were kept but are not on the remote.\n" else "")⟩

def RefUpdate.toJson (update : RefUpdate) : Json :=
  .obj [("message", .ofOption update.message), ("remote_ref", .str update.remoteRef),
    ("status", .str update.status.name)]

def SyncReport.toJson (report : SyncReport) : Json :=
  .obj [("commands_run", .num report.commandsRun), ("commit_skipped", .bool report.commitSkipped),
    ("operation", .str report.operation.tag),
    ("rebase_status", .ofOption (report.rebaseStatus.map RebaseStatus.tag)),
    ("ref_updates", .arr (report.refUpdates.map RefUpdate.toJson))]

/-- An outcome as JSON, its members in the order of their names. -/
def SyncOutcome.toJson (outcome : SyncOutcome) : Json :=
  match outcome with
  | completed report => .obj [("report", report.toJson), ("status", .str "completed")]
  | cancelled => .obj [("status", .str "cancelled")]
  | failed operation error cause =>
    .obj [("error", .str error.message), ("operation", .str operation.tag),
      ("rollback_requested", .bool outcome.rollbackRequested), ("root_cause", .str cause),
      ("status", .str "failed")]

end VaultSync
