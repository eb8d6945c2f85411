import VaultSync.Text.Blank
/-!
The words of a command line. Options may stand before and behind a command, and each command has a
level of its own; an option that every level has counts where it was written last.
-/

namespace VaultSync.Cli

/-- What is done with the stored keys. -/
inductive KeysTask
  | importFile (file : String)
  | generate
  | list
  | reveal (id : String)
  | remove (id : String)
deriving DecidableEq, Repr

/-- What is done with a store that is there. -/
inductive StoreTask
  | pull
  | push
  | sync
  | reset
  | unstick
deriving DecidableEq, Repr

/-- What a run is for. -/
inductive Task
  | setUp (mode username : String) (noKey : Bool)
  | keys (task : KeysTask)
  | insert (name : String)
  | reveal (name : String)
  | clone (url : String)
  | store (task : StoreTask)
deriving DecidableEq, Repr

/-- A run as the command line asks for it. -/
structure Invocation where
  /-- The data directory, if one was named. -/
  dataDir : Option String
  /-- Whether outcomes are reported as JSON. -/
  json : Bool
  task : Task
deriving DecidableEq, Repr

/-- Why a command line asks for no run. -/
inductive Stop
  | help
  | version
  | misuse
deriving DecidableEq, Repr

/-! ### Levels -/

/-- What may be written after a command, up to the next one. -/
structure Level where
  /-- The options with a value, and whether the value may be empty. -/
  options : List (String × Bool)
  flags : List String
  /-- Letters that stand for flags. -/
  letters : List (Char × String)
  /-- The arguments by position, and whether each may be empty. -/
  operands : List Bool
  commands : List String

/-- What was written of a level. -/
structure Reading where
  options : List (String × String)
  flags : List String
  operands : List String
deriving DecidableEq, Repr

def dataDirOption : String := "data-dir"

namespace Level

def common (operands : List Bool) (commands : List String) : Level where
  options := [(dataDirOption, false)]
  flags := ["verbose", "json", "help"]
  letters := [('v', "verbose"), ('h', "help")]
  operands := operands
  commands := commands

def topCommands : List String :=
  ["init", "keys", "insert", "show", "clone", "pull", "push", "sync", "reset", "unstick"]

def keysCommands : List String :=
  ["import", "generate", "list", "show", "remove"]

def helpCommand : String := "help"

def top : Level :=
  let level := common [] (helpCommand :: topCommands)
  { level with
    flags := "version" :: level.flags
    letters := ('V', "version") :: level.letters }

def keys : Level :=
  common [] (helpCommand :: keysCommands)

/-- The level behind the command that sets a vault up. -/
def setUp : Level :=
  let level := common [] []
  { level with
    options := ("mode", true) :: ("username", true) :: level.options
    flags := "no-key" :: level.flags }

/-! ### Reading -/

/-- Takes a flag. It may not be given twice. -/
def takeFlag (level : Level) (name : String) (r : Reading) : Except Stop Reading :=
  if name = "help" then .error .help
  else if name = "version" then .error .version
  else if !level.flags.contains name ∨ r.flags.contains name then .error .misuse
  else .ok { r with flags := r.flags ++ [name] }

def takeLetters (level : Level) : List Char → Reading → Except Stop Reading
  | [], r => .ok r
  | c :: rest, r =>
    match level.letters.lookup c with
    | none => .error .misuse
    | some name => do level.takeLetters rest (← level.takeFlag name r)

/-- Takes the value of an option. The option may not be given twice. -/
def takeOption (level : Level) (name value : String) (r : Reading) : Except Stop Reading :=
  match level.options.lookup name with
  | none => .error .misuse
  | some mayBeEmpty =>
    if (value.isEmpty ∧ !mayBeEmpty) ∨ (r.options.lookup name).isSome then .error .misuse
    else .ok { r with options := r.options ++ [(name, value)] }

def takeOperand (level : Level) (value : String) (r : Reading) : Except Stop Reading :=
  match level.operands[r.operands.length]? with
  | none => .error .misuse
  | some mayBeEmpty =>
    if value.isEmpty ∧ !mayBeEmpty then .error .misuse
    else .ok { r with operands := r.operands ++ [value] }

/-- Takes what stands behind two dashes, with or without a value. None is left open, or the option
whose value comes next. -/
def takeLong (level : Level) (text : List Char) (r : Reading) : Except Stop (Reading × Option String) :=
  let name := String.ofList (text.takeWhile (· ≠ '='))
  match text.dropWhile (· ≠ '=') with
  | _ :: value => do
    pure (← level.takeOption name (String.ofList value) r, none)
  | [] =>
    if level.flags.contains name then do pure (← level.takeFlag name r, none)
    else if (level.options.lookup name).isSome then .ok (r, some name)
    else .error .misuse

/-- Reads a level up to the next command or to the end. `waiting` is an option whose value comes next;
behind two dashes alone, which is `literal`, everything counts by position. -/
def read (level : Level) (waiting : Option String) (literal : Bool) (r : Reading) :
    List String → Except Stop (Reading × Option (String × List String))
  | [] => if waiting.isSome then .error .misuse else .ok (r, none)
  | arg :: rest =>
    if literal then do level.read none true (← level.takeOperand arg r) rest
    else
      match waiting, arg.toList with
      | none, '-' :: '-' :: [] => level.read none true r rest
      | none, '-' :: '-' :: text => do
        let (r, waiting) ← level.takeLong text r
        level.read waiting false r rest
      | none, '-' :: c :: more => do level.read none false (← level.takeLetters (c :: more) r) rest
      | some _, '-' :: _ :: _ => .error .misuse
      | some name, _ => do level.read none false (← level.takeOption name arg r) rest
      | none, _ =>
        if level.commands.contains arg then .ok (r, some (arg, rest))
        else do level.read none false (← level.takeOperand arg r) rest

end Level

/-! ### Command lines -/

/-- Whether the words behind the command that explains name a command. -/
def explains (commands : List String) : List String → Bool
  | [] => true
  | [command] => command = Level.helpCommand || commands.contains command
  | [first, second] =>
    first = "keys" && commands.contains first &&
      (second = Level.helpCommand || Level.keysCommands.contains second)
  | _ => false

/-- The data directory that a level names. A preset one that is empty is a mistake wherever no
option stands in for it. -/
def Reading.dataDir (preset : Option String) (r : Reading) : Except Stop (Option String) :=
  match r.options.lookup dataDirOption with
  | some dir => .ok (some dir)
  | none => if preset = some "" then .error .misuse else .ok none

/-- What a level says that every level can say. -/
structure Common where
  dataDir : Option String
  json : Bool

/-- What a level says that every level can say. -/
def Reading.common (preset : Option String) (r : Reading) : Except Stop Common := do
  pure ⟨← r.dataDir preset, r.flags.contains "json"⟩

def Common.over (inner outer : Common) : Common :=
  ⟨inner.dataDir.orElse fun _ => outer.dataDir, inner.json || outer.json⟩

def readLast (preset : Option String) (level : Level) (args : List String) :
    Except Stop (Reading × Common) := do
  let (r, _) ← level.read none false ⟨[], [], []⟩ args
  if r.operands.length < level.operands.length then .error .misuse
  else pure (r, ← r.common preset)

/-- Reads a level that a command ends, and what stands behind the command. -/
def readCommand (level : Level) (args : List String) :
    Except Stop (Reading × String × List String) := do
  let (r, next) ← level.read none false ⟨[], [], []⟩ args
  match next with
  | none => .error .misuse
  | some (command, rest) =>
    if command = Level.helpCommand then
      .error (if explains (level.commands.filter (· ≠ Level.helpCommand)) rest then .help else .misuse)
    else pure (r, command, rest)

def readKeys (preset : Option String) (args : List String) : Except Stop (KeysTask × Common) := do
  let (outer, command, rest) ← readCommand .keys args
  let takesOne := command ≠ "generate" ∧ command ≠ "list"
  let operands := if takesOne then [decide (command ≠ "import")] else []
  let (r, inner) ← readLast preset (.common operands []) rest
  let operand := r.operands.headD ""
  let task : KeysTask :=
    if command = "import" then .importFile operand
    else if command = "generate" then .generate
    else if command = "list" then .list
    else if command = "show" then .reveal operand
    else .remove operand
  pure (task, inner.over (← outer.common preset))

def storeTasks : List (String × StoreTask) :=
  [("pull", .pull), ("push", .push), ("sync", .sync), ("reset", .reset), ("unstick", .unstick)]

def readTask (preset : Option String) (command : String) (args : List String) :
    Except Stop (Task × Common) := do
  match storeTasks.lookup command with
  | some task =>
    let (_, common) ← readLast preset (.common [] []) args
    pure (.store task, common)
  | none =>
    if command = "init" then
      let (r, common) ← readLast preset .setUp args
      pure (.setUp ((r.options.lookup "mode").getD "ssh-key") ((r.options.lookup "username").getD "git")
        (r.flags.contains "no-key"), common)
    else if command = "keys" then
      let (task, common) ← readKeys preset args
      pure (.keys task, common)
    else
      let (r, common) ← readLast preset (.common [true] []) args
      let operand := r.operands.headD ""
      pure (if command = "insert" then .insert operand
        else if command = "show" then .reveal operand
        else .clone operand, common)

/-- Reads a command line. Any option outdoes the preset data directory. -/
def readArguments (preset : Option String) (args : List String) : Except Stop Invocation := do
  let (outer, command, rest) ← readCommand .top args
  let (task, inner) ← readTask preset command rest
  let common := inner.over (← outer.common preset)
  pure ⟨common.dataDir.orElse fun _ => preset, common.json, task⟩

end VaultSync.Cli
