import VaultSync.Text.Quoted
/-!
The answer of a task that runs apart: a value, an error of its own, or a crash with a message.
-/

namespace VaultSync

/-- How a background task ends. -/
inductive Reply (ε α : Type)
  | ok (value : α)
  | error (error : ε)
  | crashed (message : String)

namespace Reply

/-- What is reported of a task that crashed. Tasks are not told apart. -/
def crashDetail (message : String) : String :=
  "task <N> panicked with message " ++ Text.quote message

def ofExcept {ε α : Type} : Except ε α → Reply ε α
  | .ok a => .ok a
  | .error e => .error e

end Reply

end VaultSync
