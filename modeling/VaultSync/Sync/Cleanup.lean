import VaultSync.Files
import VaultSync.Sync.Executor
/-!
What is done about the files of a clone that failed.
-/

namespace VaultSync

/-- Removes the work tree of a clone that failed. A tree that cannot be removed stays. -/
def cloneCleanup (workTree : String) : Hooks Files where
  onSuccess _ files := files
  onError _ files := (files.removeDirAll workTree).toOption.getD files

end VaultSync
