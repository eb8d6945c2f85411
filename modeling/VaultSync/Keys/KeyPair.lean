import VaultSync.Bytes
import VaultSync.Text.Quoted
/-!
A key for entries: the bytes of its file, its public part and the id derived from them.
-/

namespace VaultSync

/-- One key for entries. The id is derived from the key and serves as its name. -/
structure KeyPair where
  id : String
  secret : ByteArray
  recipient : Option ByteArray
deriving DecidableEq

namespace KeyPair

/-- The public part as text, if it is text. -/
def recipientText? (key : KeyPair) : Option String :=
  key.recipient.bind String.fromUTF8?

def describe (key : KeyPair) : String :=
  Text.recordText "KeyPair"
    [("id", Text.quote key.id), ("private_key", Text.quote "<redacted>"),
      ("public_key", Text.quoteOption key.recipientText?)] false

/-- The id, and the public part in brackets behind it. -/
def display (key : KeyPair) : String :=
  match key.recipientText? with
  | some recipient => key.id ++ " (" ++ recipient ++ ")"
  | none => key.id

end KeyPair

end VaultSync
