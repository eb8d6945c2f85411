import VaultSync.Text.Blank
import VaultSync.Text.Quoted
/-!
How a remote is authenticated, and the credential of one attempt. A shown credential never holds a
secret.
-/

namespace VaultSync

/-- How the remote is authenticated. -/
inductive ConnectionMode
  | sshKey
  | password
deriving DecidableEq, Repr

namespace ConnectionMode

def tag : ConnectionMode → String
  | sshKey => "ssh-key"
  | password => "username/password"

/-- Only the tag of a key, blanks around it and ASCII case aside, selects a key. -/
def ofTag (tag : String) : ConnectionMode :=
  if Text.eqIgnoreAsciiCase (Text.trim tag) sshKey.tag then sshKey else password

end ConnectionMode

/-- The secret that one sync attempt authenticates with. -/
inductive Credential
  | password (username secret : String)
  | sshKey (keyPath username secret : String)
deriving DecidableEq, Repr

namespace Credential

def username : Credential → String
  | password username _ | sshKey _ username _ => username

def mode : Credential → ConnectionMode
  | password .. => .password
  | sshKey .. => .sshKey

/-- The private key file, for a credential that has one. -/
def keyPath? : Credential → Option String
  | password .. => none
  | sshKey keyPath .. => some keyPath

/-- The passphrase of the key file; an unprotected key has none. -/
def passphrase? : Credential → Option String
  | password .. => none
  | sshKey _ _ secret => if secret.isEmpty then none else some secret

def describe : Credential → String
  | password username _ => Text.recordText "UserPassword" [("username", Text.quote username)] true
  | sshKey keyPath username _ =>
    Text.recordText "SshKey"
      [("key_path", Text.quote keyPath), ("username", Text.quote username)] true

end Credential

/-- What authentication starts from. -/
structure AuthRequest where
  mode : ConnectionMode
  username : String
  /-- Where the private key lies, or will be put. -/
  keyPath : String
deriving DecidableEq, Repr

end VaultSync
