import VaultSync.Error
import VaultSync.Path
/-!
Where an entry lies. Its name is a relative path inside the store that never leads up.
-/

namespace VaultSync.Entries

def fileExtension : String := "age"

/-- A name that is not blank and has plain names for its steps. -/
def isName (name : String) : Bool :=
  !(Text.trim name).isEmpty &&
    (Path.components name).all fun
      | .name _ => true
      | _ => false

def location (root name : String) : Except VaultError String :=
  if isName name then .ok (Path.join root (name ++ "." ++ fileExtension))
  else .error (.invalidEntryName name)

end VaultSync.Entries
