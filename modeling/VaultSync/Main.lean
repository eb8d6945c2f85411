import Std.Time.DateTime.Timestamp
import VaultSync.Cli.Disk
/-!
The program: it collects what a run finds around it, runs the command line, and puts on the disk and on
the streams what came of it. Repositories last for one run.
-/

namespace VaultSync.Cli

/-- The content of a file, if it can be read. -/
def readable (path : String) : IO (Option ByteArray) := do
  try
    pure (some (← IO.FS.readBinFile path))
  catch _ => pure none

/-- The files that can be read, with their contents. -/
def findFiles (paths : List String) : IO (List (String × ByteArray)) := do
  let found ← paths.mapM fun path => do
    pure ((← readable path).map fun content => (path, content))
  pure (found.filterMap id)

/-- The rights that a digit of a mode gives. -/
def accessRight (digit : Nat) : IO.AccessRight :=
  ⟨digit / 4 % 2 = 1, digit / 2 % 2 = 1, digit % 2 = 1⟩

def Change.apply : Change → IO Unit
  | removed path => IO.FS.removeFile path
  | written path content mode => do
    IO.FS.createDirAll ((Path.parent? path).getD "/")
    IO.FS.writeBinFile path content
    IO.setAccessRights path
      ⟨accessRight (mode / 64), accessRight (mode / 8), accessRight mode⟩

def surroundings : IO Surroundings := do
  let seconds := (← Std.Time.Timestamp.now).toSecondsSinceUnixEpoch.val.toNat
  pure ⟨⟨true⟩, .ofSeconds seconds, ← IO.getEnv "PASSYNC_DATA_DIR", ← IO.getEnv "HOME"⟩

def machineFor (around : Surroundings) (invocation : Invocation) : IO Machine := do
  let dataDir := invocation.dataDir.getD around.defaultDataDir
  let input ← if invocation.task.readsInput then readable "/dev/stdin" else pure none
  let input := (input.getD ByteArray.empty).toList
  let catalogue ← readable (cataloguePath dataDir)
  let paths := cataloguePaths ((catalogue.bind String.fromUTF8?).getD "")
  let found ← findFiles (Config.pathIn dataDir :: invocation.task.namedFiles input ++ paths)
  let workDir := (← IO.getEnv "PWD").getD "/"
  pure ⟨⟨loadedFiles workDir found, []⟩, ⟨← IO.getRandomBytes 32, 0⟩, input, .empty, .empty⟩

/-- Brings what a run left behind to the disk. -/
def keepFiles (dataDir : String) (old new : Files) : IO Unit := do
  let changed := changes old new
  changed.forM Change.apply
  unless changed.isEmpty do
    IO.FS.writeFile (cataloguePath dataDir) (catalogueText (filePaths new))

end VaultSync.Cli

open VaultSync.Cli

def main (args : List String) : IO UInt32 := do
  let around ← surroundings
  let invocation? := (readArguments around.dataDir args).toOption
  let start ← match invocation? with
    | some invocation => machineFor around invocation
    | none => pure ⟨⟨⟨[], []⟩, []⟩, ⟨.empty, 0⟩, [], .empty, .empty⟩
  let (code, machine) := run around args start
  if let some invocation := invocation? then
    keepFiles (invocation.dataDir.getD around.defaultDataDir) start.files machine.files
  (← IO.getStdout).write machine.out
  (← IO.getStderr).write machine.err
  pure (UInt32.ofNat code)
