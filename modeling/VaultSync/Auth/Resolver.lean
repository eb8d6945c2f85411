import VaultSync.Credential
import VaultSync.Error
import VaultSync.Reply
/-!
Getting a credential from the user. For a key file the user is asked to import or generate one as long
as there is none, and then, if the file is protected, for its passphrase until one opens it. For a
password there is one question. The user may leave at every question.

The loops end because every answer uses up some of the user's supply of answers.
-/

namespace VaultSync

/-- A question for a secret. -/
structure SecretPrompt where
  title : String
  message : String
  hint : String
  /-- The answer before was wrong. -/
  showError : Bool
deriving DecidableEq, Repr

/-- What to do about a key file that is missing. -/
inductive KeyChoice
  | importFile
  | generate
  | cancel
deriving DecidableEq, Repr

/-- The user and the key tools, with a state that dealing with them changes. `supply` bounds how many
more answers there are: one that goes on lowers it, and nothing raises it. -/
structure AuthServices (σ : Type) where
  supply : σ → Nat
  /-- Whether a plain file lies at the path of the key. -/
  keyPresent : String → σ → Bool
  /-- A secret, or none if the user leaves. -/
  ask : SecretPrompt → σ → Except VaultError (Option String) × σ
  choose : σ → Except VaultError KeyChoice × σ
  provision : KeyChoice → String → σ → Except VaultError Unit × σ
  isEncrypted : String → σ → Reply VaultError Bool × σ
  verify : String → String → σ → Reply VaultError Bool × σ
  ask_lt : ∀ prompt s secret s', ask prompt s = (.ok (some secret), s') → supply s' < supply s
  choose_lt : ∀ s choice s', choose s = (.ok choice, s') → choice ≠ .cancel → supply s' < supply s
  provision_le : ∀ choice path s s', provision choice path s = (.ok (), s') → supply s' ≤ supply s
  verify_le : ∀ path secret s b s', verify path secret s = (.ok b, s') → supply s' ≤ supply s

/-- How authentication ends when nothing goes wrong. -/
inductive Resolution
  | authenticated (credential : Credential)
  /-- The user left. -/
  | cancelled
deriving DecidableEq, Repr

namespace AuthServices

variable {σ : Type}

/-- Asks for a key file until there is one. True means that there is one, false that the user left. -/
def ensureKey (services : AuthServices σ) (path : String) (s : σ) : Except VaultError Bool × σ :=
  if services.keyPresent path s then (.ok true, s)
  else
    match hc : services.choose s with
    | (.error e, s) => (.error e, s)
    | (.ok choice, s₁) =>
      if hne : choice = .cancel then (.ok false, s₁)
      else
        match hp : services.provision choice path s₁ with
        | (.error e, s) => (.error e, s)
        | (.ok (), s₂) =>
          have : services.supply s₂ < services.supply s :=
            Nat.lt_of_le_of_lt (services.provision_le _ _ _ _ hp) (services.choose_lt _ _ _ hc hne)
          services.ensureKey path s₂
termination_by services.supply s

/-- The question for the passphrase of a key file. -/
def passphrasePrompt (path : String) (showError : Bool) : SecretPrompt :=
  ⟨"Unlock ssh key", "Enter the passphrase for " ++ path, "Passphrase", showError⟩

/-- Asks for the passphrase of a key file until one opens it. None means that the user left. -/
def unlock (services : AuthServices σ) (path : String) (showError : Bool) (s : σ) :
    Except VaultError (Option String) × σ :=
  match ha : services.ask (passphrasePrompt path showError) s with
  | (.error e, s) => (.error e, s)
  | (.ok none, s) => (.ok none, s)
  | (.ok (some secret), s₁) =>
    match hv : services.verify path secret s₁ with
    | (.error e, s) => (.error e, s)
    | (.crashed message, s) => (.error (.taskFailed (Reply.crashDetail message)), s)
    | (.ok true, s) => (.ok (some secret), s)
    | (.ok false, s₂) =>
      have : services.supply s₂ < services.supply s :=
        Nat.lt_of_le_of_lt (services.verify_le _ _ _ _ _ hv) (services.ask_lt _ _ _ _ ha)
      services.unlock path true s₂
termination_by services.supply s

def resolveKey (services : AuthServices σ) (request : AuthRequest) (s : σ) :
    Except VaultError Resolution × σ :=
  match services.ensureKey request.keyPath s with
  | (.error e, s) => (.error e, s)
  | (.ok false, s) => (.ok .cancelled, s)
  | (.ok true, s) =>
    match services.isEncrypted request.keyPath s with
    | (.error e, s) => (.error e, s)
    | (.crashed message, s) => (.error (.taskFailed (Reply.crashDetail message)), s)
    | (.ok false, s) => (.ok (.authenticated (.sshKey request.keyPath request.username "")), s)
    | (.ok true, s) =>
      match services.unlock request.keyPath false s with
      | (.error e, s) => (.error e, s)
      | (.ok none, s) => (.ok .cancelled, s)
      | (.ok (some secret), s) =>
        (.ok (.authenticated (.sshKey request.keyPath request.username secret)), s)

def passwordPrompt (username : String) : SecretPrompt :=
  ⟨"Authenticate", "Enter the password for " ++ username, "Password", false⟩

def resolvePassword (services : AuthServices σ) (request : AuthRequest) (s : σ) :
    Except VaultError Resolution × σ :=
  match services.ask (passwordPrompt request.username) s with
  | (.error e, s) => (.error e, s)
  | (.ok none, s) => (.ok .cancelled, s)
  | (.ok (some secret), s) => (.ok (.authenticated (.password request.username secret)), s)

def resolve (services : AuthServices σ) (request : AuthRequest) (s : σ) :
    Except VaultError Resolution × σ :=
  match request.mode with
  | .sshKey => services.resolveKey request s
  | .password => services.resolvePassword request s

/-- Hands a resolved credential on, once. None means that the user left. -/
def resolveThen {α : Type} (services : AuthServices σ) (request : AuthRequest)
    (continuation : Credential → σ → α × σ) (s : σ) : Except VaultError (Option α) × σ :=
  match services.resolve request s with
  | (.error e, s) => (.error e, s)
  | (.ok .cancelled, s) => (.ok none, s)
  | (.ok (.authenticated credential), s) =>
    let (a, s) := continuation credential s
    (.ok (some a), s)

end AuthServices

end VaultSync
