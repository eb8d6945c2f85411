import VaultSync.Error
/-!
Key ids that may serve as file names.
-/

namespace VaultSync.KeyId

def isAlphanumeric (c : Char) : Bool :=
  ('0' ≤ c && c ≤ '9') || ('A' ≤ c && c ≤ 'Z') || ('a' ≤ c && c ≤ 'z')

def isInner (c : Char) : Bool :=
  isAlphanumeric c || c == '.' || c == '_' || c == '-'

def maxLength : Nat := 128

/-- An id that is safe as a file name: a letter or digit, and after it also dots, underscores and
hyphens. -/
def isValid (id : String) : Bool :=
  match id.toList with
  | [] => false
  | c :: rest => isAlphanumeric c && rest.all isInner && rest.length < maxLength

/-- Refuses an id that is not safe as a file name. -/
def validate (id : String) : Except VaultError Unit :=
  if isValid id then .ok () else .error (.invalidKeyId id)

end VaultSync.KeyId
