import VaultSync.Cli.Syncing
import VaultSync.Proofs.Files.Tree
import VaultSync.Proofs.Sync.Cancellation
import VaultSync.Proofs.Sync.Completed

/-! What a clone leaves behind that does not succeed. The hooks are told of a run that failed and remove its
work tree, so that the next clone finds the place vacant. They are not told of a run that the user
cancelled: its work tree stays as the clone left it. -/
namespace VaultSync

open Files (destination_of_resolve destination_congr)

/-! ### The work tree -/

/-- After an error the work tree is removed, when it can be. -/
theorem onError_cloneCleanup {files files' : Files} {workTree : String} (error : SyncError)
    (h : files.removeDirAll workTree = .ok files') :
    (cloneCleanup workTree).onError error files = files' := by
  simp [cloneCleanup, h, Except.toOption]

/-- What cannot be removed stays as it is. -/
theorem onError_cloneCleanup_of_error {files : Files} {workTree : String} {e : FileError} (error : SyncError)
    (h : files.removeDirAll workTree = .error e) :
    (cloneCleanup workTree).onError error files = files := by
  simp [cloneCleanup, h, Except.toOption]

/-- Nothing lies at the work tree after the cleanup, whatever lay there, unless it is a plain file or the
root. -/
theorem has_onError_cloneCleanup {files : Files} {workTree : String}
    (hFile : files.isFile workTree = false) (hRoot : files.resolve workTree ≠ .ok []) (error : SyncError) :
    ((cloneCleanup workTree).onError error files).has workTree = false := by
  cases hRemoved : files.removeDirAll workTree with
  | ok files' =>
      rw [onError_cloneCleanup error hRemoved, Bool.eq_false_iff]
      intro hHas
      obtain ⟨loc', node, hPath', hNode⟩ := Files.has_eq_true_iff.1 hHas
      obtain ⟨loc, hPath, -, rfl⟩ := Files.removeDirAll_eq_ok hRemoved
      -- The path still leads where it led before, and that is gone.
      obtain rfl : loc' = loc := by
        rw [← destination_of_resolve hPath', ← destination_of_resolve hPath]
        exact destination_congr rfl workTree
      have hBelow : loc' ≠ [] := fun hNil => hRoot (hNil ▸ hPath)
      rw [Files.lookup_removeBelow _ _ hBelow, if_pos (List.prefix_refl loc')] at hNode
      cases hNode
  | error e =>
      rw [onError_cloneCleanup_of_error error hRemoved, Bool.eq_false_iff]
      intro hHas
      obtain ⟨loc, node, hPath, hNode⟩ := Files.has_eq_true_iff.1 hHas
      cases node with
      | file content mode =>
          rw [Files.isFile, Files.stat_of_resolve hPath, hNode] at hFile
          cases hFile
      | directory => simp [Files.removeDirAll, hPath, hNode, bind, Except.bind] at hRemoved

/-- A clone may be put where nothing lies. -/
theorem checkVacant_of_absent {files : Files} {workTree : String} (h : files.has workTree = false) :
    Cli.checkVacant workTree files = .ok () := by
  rw [Files.has] at h
  rw [Cli.checkVacant]
  cases hStat : files.stat workTree with
  | error e => rfl
  | ok node => simp [hStat, Except.isOk, Except.toBool] at h

/-! ### The run -/

variable {σ : Type} (backend : Backend σ) (credential : Credential)

/-- A clone is a single call, and the answer to it is all that the executor knows in the end. -/
theorem Backend.steps_clone (url workTree : String) (s : σ) :
    let called := backend.perform (.plain (.clone url workTree)) credential s
    backend.steps credential (Operation.clone url workTree).steps .start s =
      (Progress.start.after ⟨.plain (.clone url workTree), some credential, called.1⟩, called.2) := by
  rw [Operation.clone, Backend.steps_cons rfl]
  rfl

/-- A clone leaves its work tree complete, or as it is when the user cancels, or gone. It is cancelled
exactly when its only call fails with a cancellation that is seen, and then nothing is removed. After any
other failure and after a crash nothing lies at the work tree, so that the next clone is not refused. That
removing succeeds is assumed: the call left neither a plain file in the place of the tree, nor is the tree
all that there is. -/
theorem execute_clone_cleaned (part : Part σ Files) (hPart : ∀ files s, part.get (part.set files s) = files)
    (url workTree : String) (s : σ)
    (hFile : (part.get (backend.perform (.plain (.clone url workTree)) credential s).2).isFile workTree =
      false)
    (hRoot : (part.get (backend.perform (.plain (.clone url workTree)) credential s).2).resolve workTree ≠
      .ok []) :
    let called := backend.perform (.plain (.clone url workTree)) credential s
    let run := backend.execute (part.hooks (cloneCleanup workTree)) (.clone url workTree) credential s
    (∃ report, called.1 = .ok () ∧ run.1 = .completed report ∧ part.get run.2 = part.get called.2) ∨
    (∃ e, called.1 = .error e ∧ (SyncError.command "clone" e).isUserCancelled = true ∧
      run = (.cancelled, called.2)) ∨
    (∃ error cause, (∀ e, called.1 = .error e → (SyncError.command "clone" e).isUserCancelled = false) ∧
      run.1 = .failed .clone error cause ∧ (part.get run.2).has workTree = false ∧
      Cli.checkVacant workTree (part.get run.2) = .ok ()) := by
  intro called run
  have hAbsent (error : SyncError) :
      (part.get ((part.hooks (cloneCleanup workTree)).onError error called.2)).has workTree = false := by
    rw [Part.hooks, hPart]
    exact has_onError_cloneCleanup hFile hRoot error
  have hSteps := backend.steps_clone credential url workTree s
  dsimp only at hSteps
  -- What a failure other than a cancellation comes to.
  have hFailed (error : SyncError) (hSeen : error.isUserCancelled = false)
      (hLast : (Progress.start.after ⟨.plain (.clone url workTree), some credential, called.1⟩).failure =
        some error) :
      ∃ cause, run.1 = .failed .clone error cause ∧ (part.get run.2).has workTree = false ∧
        Cli.checkVacant workTree (part.get run.2) = .ok () := by
    have hRun : run = (.failed .clone error error.root.message, _) :=
      Backend.execute_of_failure (part.hooks (cloneCleanup workTree)) hSteps hLast hSeen
    have hGone : (part.get run.2).has workTree = false := by
      rw [hRun]
      exact hAbsent error
    exact ⟨error.root.message, congrArg Prod.fst hRun, hGone, checkVacant_of_absent hGone⟩
  cases hReply : called.1 with
  | ok value =>
      obtain ⟨report, hRun⟩ := Backend.execute_of_clear (part.hooks (cloneCleanup workTree)) hSteps
        (show (Progress.after _ ⟨_, _, called.1⟩).failure = none by rw [hReply]; rfl)
      refine .inl ⟨report, rfl, congrArg Prod.fst hRun, ?_⟩
      rw [show run = _ from hRun]
      exact hPart _ _
  | error e =>
      have hLast : (Progress.start.after ⟨.plain (.clone url workTree), some credential, called.1⟩).failure =
          some (.command "clone" e) := by rw [hReply]; rfl
      cases hSeen : (SyncError.command "clone" e).isUserCancelled with
      | true =>
          exact .inr (.inl ⟨e, rfl, hSeen, Backend.execute_of_cancelled _ hSteps hLast hSeen⟩)
      | false =>
          obtain ⟨cause, hRun, hGone, hVacant⟩ := hFailed _ hSeen hLast
          refine .inr (.inr ⟨_, cause, ?_, hRun, hGone, hVacant⟩)
          rintro e' ⟨⟩
          exact hSeen
  | crashed message =>
      obtain ⟨cause, hRun, hGone, hVacant⟩ := hFailed (.task (Reply.crashDetail message)) rfl
        (by rw [hReply]; rfl)
      exact .inr (.inr ⟨_, cause, by simp, hRun, hGone, hVacant⟩)

/-- A backend whose clone writes half of a work tree before it answers. -/
def Backend.halfClone (reply : Reply TransportError Unit) : Backend Files where
  perform command _ files :=
    match command with
    | .plain (.clone _ workTree) =>
      let files := (files.createDirAll workTree).2
      (reply, (files.write (Path.join workTree "half.age") "x".toUTF8).toOption.getD files)
    | .plain _ | .status | .commit _ | .pull _ | .push .. => (.crashed "not a clone", files)

/-- Files as a part of themselves. -/
def Part.whole (σ : Type) : Part σ σ :=
  ⟨id, fun s _ => s⟩

/-- A clone that loses its connection leaves nothing behind. -/
theorem execute_clone_cleaned_lost :
    let run := (Backend.halfClone (.error (.disconnected .connectionLost))).execute
      ((Part.whole Files).hooks (cloneCleanup "/store")) (.clone "file:///remote" "/store")
      (.password "alice" "pw") ⟨[], []⟩
    run.1.isSuccess = false ∧ run.2.has "/store" = false := by
  intro run
  rcases execute_clone_cleaned (.halfClone (.error (.disconnected .connectionLost))) (.password "alice" "pw")
      (Part.whole Files) (fun _ _ => rfl) "file:///remote" "/store" ⟨[], []⟩ (by decide +kernel)
      (by decide +kernel) with
    ⟨report, hReply, -⟩ | ⟨e, hReply, hSeen, -⟩ | ⟨error, cause, -, hRun, hGone, -⟩
  · cases hReply
  · cases hReply
    cases hSeen
  · exact ⟨by rw [show run.1 = _ from hRun]; rfl, hGone⟩

/-- A clone that the user cancels leaves the half of its work tree that was written, though it could be
removed, and the next clone is refused. -/
theorem execute_clone_cancelled_keeps_half :
    let run := (Backend.halfClone (.error (.buried 1))).execute
      ((Part.whole Files).hooks (cloneCleanup "/store")) (.clone "file:///remote" "/store")
      (.password "alice" "pw") ⟨[], []⟩
    (⟨[], []⟩ : Files).has "/store" = false ∧ run.1 = .cancelled ∧ run.2.isFile "/store/half.age" = true ∧
      (run.2.removeDirAll "/store").isOk = true ∧ (Cli.checkVacant "/store" run.2).isOk = false :=
  ⟨by decide +kernel, rfl, by decide +kernel, by decide +kernel, by decide +kernel⟩

end VaultSync
