import VaultSync.Files
import VaultSync.Sync.Service
/-!
Collaborators that follow a script: answers of the user, what the key tools do, and the results of
commands, each list used up from its front. A list of answers that is used up is a prompt error; a
command without results left succeeds with nothing to report.
-/

namespace VaultSync

/-- What a scripted provisioning does at the path of the key. -/
inductive ScriptedProvision
  | writeFile
  | makeDirectory
  | nothing
deriving DecidableEq, Repr

/-- How scripted key tools answer. A file is protected when there is a passphrase for it. -/
structure ScriptedKeyTools where
  passphrase : Option String
  protectionError : Option String
  verifyError : Option String
  verifyCrash : Option String
deriving DecidableEq, Repr

/-- The results of one command, by turns. -/
abbrev Results (α : Type) := List (Reply TransportError α)

/-- What is still to come from each collaborator. Errors in the lists are details of prompt errors. -/
structure Script where
  files : Files
  answers : List (Except String (Option String))
  choices : List (Except String KeyChoice)
  provisions : List (Except String ScriptedProvision)
  keyTools : ScriptedKeyTools
  statuses : Results StatusReport
  commits : Results Unit
  pulls : Results RebaseStatus
  pushes : Results (List RefUpdate)
  /-- The results of the other commands, by name. -/
  others : List (String × Results Unit)

namespace Script

def next {α : Type} : List (Except String α) → Except VaultError α × List (Except String α)
  | [] => (.error (.prompt "script exhausted"), [])
  | .error detail :: rest => (.error (.prompt detail), rest)
  | .ok a :: rest => (.ok a, rest)

theorem length_next_lt {α : Type} {xs : List (Except String α)} {a : α}
    (h : (next xs).1 = .ok a) : (next xs).2.length < xs.length := by
  match xs with
  | [] => simp [next] at h
  | .error _ :: _ => simp [next] at h
  | .ok _ :: _ => simp [next]

/-- The content of a file that a script makes. -/
def keyFile : ByteArray := "key".toUTF8

/-- What a provisioning does to the files. One that cannot be done does nothing. -/
def ScriptedProvision.apply (files : Files) (path : String) : ScriptedProvision → Files
  | .writeFile => (files.write path keyFile).toOption.getD files
  | .makeDirectory => (files.createDirAll path).2
  | .nothing => files

def protection (tools : ScriptedKeyTools) : Reply VaultError Bool :=
  match tools.protectionError with
  | some detail => .error (.keyProvisioning detail)
  | none => .ok tools.passphrase.isSome

def opens (tools : ScriptedKeyTools) (secret : String) : Reply VaultError Bool :=
  match tools.verifyError, tools.verifyCrash with
  | some detail, _ => .error (.keyProvisioning detail)
  | none, some message => .crashed message
  | none, none => .ok (tools.passphrase = some secret)

def services : AuthServices Script where
  supply s := s.answers.length + s.choices.length
  keyPresent path s := s.files.isFile path
  ask _ s := ((next s.answers).1, { s with answers := (next s.answers).2 })
  choose s := ((next s.choices).1, { s with choices := (next s.choices).2 })
  provision _ path s :=
    let (r, provisions) := next s.provisions
    match r with
    | .error e => (.error e, { s with provisions })
    | .ok p => (.ok (), { s with provisions, files := ScriptedProvision.apply s.files path p })
  isEncrypted _ s := (protection s.keyTools, s)
  verify _ secret s := (opens s.keyTools secret, s)
  ask_lt _ s secret s' h := by
    simp only [Prod.mk.injEq] at h
    rw [← h.2]
    exact Nat.add_lt_add_right (length_next_lt h.1) _
  choose_lt s choice s' h _ := by
    simp only [Prod.mk.injEq] at h
    rw [← h.2]
    exact Nat.add_lt_add_left (length_next_lt h.1) _
  provision_le _ _ s s' h := by
    simp only at h
    split at h
    · simp at h
    · simp only [Prod.mk.injEq] at h
      exact h.2 ▸ Nat.le_refl _
  verify_le _ _ _ _ _ h := by
    simp only [Prod.mk.injEq] at h
    exact h.2 ▸ Nat.le_refl _

def turn {α : Type} (default : α) : Results α → Reply TransportError α × Results α
  | [] => (.ok default, [])
  | r :: rest => (r, rest)

def resultsOf (others : List (String × Results Unit)) (name : String) : Results Unit :=
  (others.lookup name).getD []

def backend : Backend Script where
  perform command _ s :=
    match command with
    | .status => let (r, statuses) := turn .clean s.statuses; (r, { s with statuses })
    | .commit _ => let (r, commits) := turn () s.commits; (r, { s with commits })
    | .pull _ => let (r, pulls) := turn .upToDate s.pulls; (r, { s with pulls })
    | .push .. => let (r, pushes) := turn [] s.pushes; (r, { s with pushes })
    | .plain command =>
      let (r, rest) := turn () (resultsOf s.others command.name)
      (r, { s with others := (command.name, rest) :: s.others.filter (·.1 ≠ command.name) })

end Script

end VaultSync
