import VaultSync.Auth.Resolver
import VaultSync.Git.Host
import VaultSync.Ssh.Keygen
import VaultSync.Sync.Part
import VaultSync.Sync.Render
/-!
A terminal with a machine behind it: what was typed and not yet read, what was written, and the files.
Questions are written to the error stream and answered by the next line of input. A user leaves at a
question by ending the input.
-/

namespace VaultSync.Cli

/-- A machine and its terminal. -/
structure Machine where
  host : Git.Host
  entropy : Entropy
  /-- What was typed and not yet read. -/
  input : List UInt8
  out : ByteArray
  err : ByteArray

namespace Machine

def files (m : Machine) : Files := m.host.files

def withFiles (files : Files) (m : Machine) : Machine :=
  { m with host := m.host.withFiles fun _ => files }

def hostPart : Part Machine Git.Host where
  get m := m.host
  set host m := { m with host }

def filesPart : Part Machine Files where
  get m := m.files
  set files m := m.withFiles files

theorem input_withFiles (files : Files) (m : Machine) : (m.withFiles files).input = m.input := rfl

/-! ### Writing and reading -/

def write (bytes : ByteArray) (m : Machine) : Machine :=
  { m with out := m.out ++ bytes }

def print (text : String) (m : Machine) : Machine :=
  m.write text.toUTF8

def complain (text : String) (m : Machine) : Machine :=
  { m with err := m.err ++ text.toUTF8 }

theorem input_complain (text : String) (m : Machine) : (m.complain text).input = m.input := rfl

/-- The bytes of the first line, with its line break, and those behind it. -/
def splitLine : List UInt8 → List UInt8 × List UInt8
  | [] => ([], [])
  | b :: rest =>
    if b = 10 then ([b], rest)
    else
      let (line, rest) := splitLine rest
      (b :: line, rest)

theorem length_splitLine_le (bytes : List UInt8) : (splitLine bytes).2.length ≤ bytes.length := by
  induction bytes with
  | nil => simp [splitLine]
  | cons b rest ih =>
    rw [splitLine]
    split
    · simp
    · simp only [List.length_cons]
      omega

theorem length_splitLine_lt {bytes : List UInt8} (h : bytes ≠ []) :
    (splitLine bytes).2.length < bytes.length := by
  match bytes with
  | [] => exact absurd rfl h
  | b :: rest =>
    rw [splitLine]
    split
    · simp
    · simp only [List.length_cons]
      exact Nat.lt_succ_of_le (length_splitLine_le rest)

def isLineBreak (b : UInt8) : Bool :=
  b = 10 || b = 13

/-- The first line as text, without the line breaks at its end. At the end of input there is none. -/
def firstLine (input : List UInt8) : Except VaultError (Option String) :=
  if input = [] then .ok none
  else
    match String.fromUTF8? (Text.dropEndWhile isLineBreak (splitLine input).1).toByteArray with
    | some text => .ok (some text)
    | none => .error (.prompt FileError.notText.message)

def readLine (m : Machine) : Except VaultError (Option String) × Machine :=
  (firstLine m.input, { m with input := (splitLine m.input).2 })

theorem ne_nil_of_firstLine {input : List UInt8} {text : String}
    (h : firstLine input = .ok (some text)) : input ≠ [] := by
  rintro rfl
  simp [firstLine] at h

theorem input_readLine_le (m : Machine) : m.readLine.2.input.length ≤ m.input.length :=
  length_splitLine_le m.input

theorem input_readLine_lt {m : Machine} {text : String} (h : m.readLine.1 = .ok (some text)) :
    m.readLine.2.input.length < m.input.length :=
  length_splitLine_lt (ne_nil_of_firstLine h)

/-! ### Questions -/

def ask (prompt : SecretPrompt) (m : Machine) : Except VaultError (Option String) × Machine :=
  (m.complain (Printed.header prompt.title ++ "  " ++ prompt.message ++ "\n" ++
    (if prompt.showError then Printed.error "Wrong passphrase" else "") ++
    "  " ++ prompt.hint ++ ": ")).readLine

/-- The menu for a key file that is missing. -/
def menu : String :=
  Printed.header "No ssh key found" ++
    "  1. Import an existing private key\n" ++
    "  2. Generate a new key\n" ++
    "  3. Cancel\n" ++
    "  Selection [3]: "

def selection : Option String → KeyChoice
  | some line =>
    if Text.trim line = "1" then .importFile
    else if Text.trim line = "2" then .generate
    else .cancel
  | none => .cancel

/-- Asks what to do about a key file that is missing. -/
def choose (m : Machine) : Except VaultError KeyChoice × Machine :=
  let (line, m) := (m.complain menu).readLine
  (line.map selection, m)

/-- Copies a private key file to where it is looked for, for its owner alone. -/
def importKey (source dest : String) (files : Files) : Except VaultError Unit × Files :=
  if !files.isFile source then (.error (.keyProvisioning (source ++ " is not a file")), files)
  else
    match files.createParents dest with
    | (.error e, files) => (.error (.file e), files)
    | (.ok (), files) =>
      match (do
        let files ← files.write dest (← files.read source)
        files.setMode dest Ssh.Keygen.privateMode) with
      | .error e => (.error (.file e), files)
      | .ok files => (.ok (), files)

def keyPathQuestion : String :=
  "  Path to your private key: "

def provision (keygen : Ssh.Keygen) (choice : KeyChoice) (dest : String) (m : Machine) :
    Except VaultError Unit × Machine :=
  match choice with
  | .cancel => (.ok (), m)
  | .generate =>
    let made := keygen.generate dest m.files m.entropy
    (made.1, { m.withFiles made.2.1 with entropy := made.2.2 })
  | .importFile =>
    match (m.complain keyPathQuestion).readLine with
    | (.error e, m) => (.error e, m)
    | (.ok none, m) => (.error (.keyProvisioning "no key path entered"), m)
    | (.ok (some line), m) =>
      let copied := importKey (Text.trim line) dest m.files
      (copied.1, m.withFiles copied.2)

theorem input_provision_le (keygen : Ssh.Keygen) (choice : KeyChoice) (dest : String) (m : Machine) :
    (m.provision keygen choice dest).2.input.length ≤ m.input.length := by
  cases choice with
  | cancel => exact Nat.le_refl _
  | generate => exact Nat.le_refl _
  | importFile =>
    have hread := input_readLine_le (m.complain keyPathQuestion)
    simp only [provision]
    split <;> rename_i h <;> rw [h] at hread <;> simpa only [input_withFiles, input_complain] using hread

/-- The user at the terminal, and the key tool of the machine. -/
def services (keygen : Ssh.Keygen) : AuthServices Machine where
  supply m := m.input.length
  keyPresent path m := m.files.isFile path
  ask prompt m := m.ask prompt
  choose m := m.choose
  provision choice path m := m.provision keygen choice path
  isEncrypted path m := (.ofExcept (keygen.isEncrypted path m.files), m)
  verify path secret m := (.ofExcept (keygen.verify path secret m.files), m)
  ask_lt _ m _ m' h := by
    have hsnd : (m.ask _).2 = m' := congrArg Prod.snd h
    rw [← hsnd]
    exact input_readLine_lt (congrArg Prod.fst h)
  choose_lt m choice m' h hne := by
    have hsnd : m.choose.2 = m' := congrArg Prod.snd h
    have hfst : (firstLine m.input).map selection = .ok choice := congrArg Prod.fst h
    rw [← hsnd]
    refine length_splitLine_lt ?_
    intro hnil
    rw [show m.input = [] from hnil] at hfst
    exact hne (Except.ok.inj hfst).symm
  provision_le choice path m m' h := by
    have hsnd : (m.provision keygen choice path).2 = m' := congrArg Prod.snd h
    rw [← hsnd]
    exact input_provision_le keygen choice path m
  verify_le _ _ m _ m' h := by
    have hsnd : m = m' := congrArg Prod.snd h
    exact hsnd ▸ Nat.le_refl _

end Machine

end VaultSync.Cli
