import VaultSync.Sync.Service
/-!
Recording what is asked, called and told. Services, backends and hooks that are logged do what the ones under
them do, and write down each interaction with its answer. In what form is for the caller to choose.
-/

namespace VaultSync

/-! ### What there is to write down -/

/-- One use of a collaborator, with its answer. -/
inductive Interaction
  | chose (answer : Except VaultError KeyChoice)
  | provisioned (choice : KeyChoice) (path : String) (answer : Except VaultError Unit)
  | checkedProtection (path : String) (answer : Reply VaultError Bool)
  | asked (prompt : SecretPrompt) (answer : Except VaultError (Option String))
  | verified (path secret : String) (answer : Reply VaultError Bool)

/-- An interaction, and whether a plain file lay at the path of the key when it began. -/
structure Exchange where
  keyThere : Bool
  interaction : Interaction

/-- One command that a backend was given, the credential that came with it, and the answer. -/
structure Call where
  command : Command
  credential : Option Credential
  reply : Reply TransportError command.Result

/-- One thing that a run does outside the executor. -/
inductive Entry
  | called (call : Call)
  | succeeded (report : SyncReport)
  | failed (error : SyncError)

/-- What somebody sees who watches a run and learns no answers. -/
inductive Event
  | asked (prompt : SecretPrompt)
  | askedChoice
  | provisioned (choice : KeyChoice) (path : String)
  | checkedProtection (path : String)
  | verified (path secret : String)
  | called (command : Command) (credential : Option Credential)
  | succeeded (report : SyncReport)
  | failed (error : SyncError)
  | continued

def Exchange.event (exchange : Exchange) : Event :=
  match exchange.interaction with
  | .chose _ => .askedChoice
  | .provisioned choice path _ => .provisioned choice path
  | .checkedProtection path _ => .checkedProtection path
  | .asked prompt _ => .asked prompt
  | .verified path secret _ => .verified path secret

def Entry.event : Entry → Event
  | called call => .called call.command call.credential
  | succeeded report => .succeeded report
  | failed error => .failed error

/-! ### Logs -/

/-- A state with a log of what was done to it, in order. -/
structure Logged (α σ : Type) where
  log : List α
  state : σ

namespace Logged

variable {α β σ : Type}

/-- Nothing has happened yet. -/
def start (state : σ) : Logged α σ := ⟨[], state⟩

/-- Does something to the state, and writes down an entry about the answer. -/
def note (t : Logged α σ) (write : β → α) (run : σ → β × σ) : β × Logged α σ :=
  ((run t.state).1, ⟨t.log ++ [write (run t.state).1], (run t.state).2⟩)

theorem run_of_note {t t' : Logged α σ} {write : β → α} {run : σ → β × σ} {b : β}
    (h : t.note write run = (b, t')) : run t.state = (b, t'.state) := by
  obtain ⟨rfl, rfl⟩ := Prod.mk.inj h
  rfl

end Logged

/-- A state with all that could be seen so far. -/
abbrev Traced (σ : Type) := Logged Event σ

namespace Traced

variable {σ : Type}

def events (t : Traced σ) : List Event := t.log

def record {α : Type} (t : Traced σ) (event : Event) (run : σ → α × σ) : α × Traced σ :=
  t.note (fun _ => event) run

end Traced

/-! ### Services, backends and hooks -/

variable {α σ : Type}

def Command.received (command : Command) (credential : Credential) : Option Credential :=
  if command.takesCredential then some credential else none

/-- The call that a backend answers in a state. -/
def Backend.answered (backend : Backend σ) (credential : Credential) (command : Command) (state : σ) : Call :=
  ⟨command, command.received credential, (backend.perform command credential state).1⟩

/-- A backend that writes down each call with its answer. -/
def Backend.logged (backend : Backend σ) (write : Entry → α) : Backend (Logged α σ) where
  perform command credential t :=
    let call := backend.answered credential command t.state
    (call.reply, ⟨t.log ++ [write (.called call)], (backend.perform command credential t.state).2⟩)

/-- Hooks that write down what they are told. -/
def Hooks.logged (hooks : Hooks σ) (write : Entry → α) : Hooks (Logged α σ) where
  onSuccess report t := ⟨t.log ++ [write (.succeeded report)], hooks.onSuccess report t.state⟩
  onError error t := ⟨t.log ++ [write (.failed error)], hooks.onError error t.state⟩

/-- Hooks that are told and leave no record of it. -/
def Hooks.lifted (hooks : Hooks σ) : Hooks (Logged α σ) where
  onSuccess report t := ⟨t.log, hooks.onSuccess report t.state⟩
  onError error t := ⟨t.log, hooks.onError error t.state⟩

/-- Services that write down every exchange. -/
def AuthServices.logged (services : AuthServices σ) (keyPath : String) (write : Exchange → α) :
    AuthServices (Logged α σ) where
  supply t := services.supply t.state
  keyPresent path t := services.keyPresent path t.state
  ask prompt t :=
    t.note (fun answer => write ⟨services.keyPresent keyPath t.state, .asked prompt answer⟩)
      (services.ask prompt)
  choose t :=
    t.note (fun answer => write ⟨services.keyPresent keyPath t.state, .chose answer⟩) services.choose
  provision choice path t :=
    t.note (fun answer => write ⟨services.keyPresent keyPath t.state, .provisioned choice path answer⟩)
      (services.provision choice path)
  isEncrypted path t :=
    t.note (fun answer => write ⟨services.keyPresent keyPath t.state, .checkedProtection path answer⟩)
      (services.isEncrypted path)
  verify path secret t :=
    t.note (fun answer => write ⟨services.keyPresent keyPath t.state, .verified path secret answer⟩)
      (services.verify path secret)
  ask_lt _ _ _ _ h := services.ask_lt _ _ _ _ (Logged.run_of_note h)
  choose_lt _ _ _ h := services.choose_lt _ _ _ (Logged.run_of_note h)
  provision_le _ _ _ _ h := services.provision_le _ _ _ _ (Logged.run_of_note h)
  verify_le _ _ _ _ _ h := services.verify_le _ _ _ _ _ (Logged.run_of_note h)

/-! ### What is seen of them -/

def Backend.traced (backend : Backend σ) : Backend (Traced σ) :=
  backend.logged Entry.event

def Hooks.traced (hooks : Hooks σ) : Hooks (Traced σ) :=
  hooks.logged Entry.event

def AuthServices.traced (services : AuthServices σ) : AuthServices (Traced σ) :=
  services.logged "" Exchange.event

end VaultSync
