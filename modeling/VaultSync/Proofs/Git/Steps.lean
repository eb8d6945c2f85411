import VaultSync.Git.Workspace
import VaultSync.Proofs.Git.Record
import VaultSync.Proofs.Sync.Completed

/-! What the commands of a completed run have done to a workspace. Each lemma takes the first command off a
run and says what it was performed with. -/
namespace VaultSync.Git.Workspace

variable {w w' : Workspace} {author : Option Person} {credential : Credential} {remote : String}
  {rest : List Command} {updates : List RefUpdate}

/-- What a command answers in a run is what it performs. -/
theorem perform_eq_ok {command : Command} {value : command.Result}
    (h : (backend author).perform command credential w = (.ok value, w')) :
    w.perform author command = (.ok value, w') := by
  have hPerform : (backend author).perform command credential w =
      (.ofExcept (w.perform author command).1, (w.perform author command).2) := rfl
  rw [hPerform] at h
  generalize w.perform author command = result at h ⊢
  obtain ⟨answer, next⟩ := result
  cases answer with
  | error e => cases (Prod.mk.inj h).1
  | ok value' =>
      obtain ⟨hReply, rfl⟩ := Prod.mk.inj h
      rw [Reply.ok.inj hReply]

/-- A plain command of the checkout alone. -/
theorem locally_of_completes {command : PlainCommand} {step : Checkout → Except TransportError Unit × Checkout}
    (hStep : w.performPlain command = w.locally step)
    (h : (backend author).Completes credential (.plain command :: rest) w updates w') :
    ∃ c, step w.checkout = (.ok (), c) ∧
      (backend author).Completes credential rest { w with checkout := c } updates w' := by
  cases h with
  | @ran _ _ _ next _ _ value hPerform hFailures hRest =>
      obtain ⟨hResult, hNext⟩ := Prod.mk.inj (hStep.symm.trans (perform_eq_ok hPerform))
      exact ⟨(step w.checkout).2, Prod.ext hResult rfl, hNext ▸ hRest⟩

/-- A run that completes from staging goes on from the staged checkout. -/
theorem addAll_of_completes
    (h : (backend author).Completes credential (.plain .addAll :: rest) w updates w') :
    w.checkout.Stageable ∧ (backend author).Completes credential rest
      { w with checkout := { w.checkout with index := w.checkout.stagedAll } } updates w' := by
  have hLocal : w.performPlain .addAll = w.locally Checkout.addAll := rfl
  obtain ⟨c, hAdd, hRest⟩ := locally_of_completes hLocal h
  obtain ⟨hStageable, rfl⟩ := Checkout.addAll_eq_ok hAdd
  exact ⟨hStageable, hRest⟩

theorem status_of_completes (h : (backend author).Completes credential (.status :: rest) w updates w') :
    (backend author).Completes credential rest w updates w' := by
  cases h with
  | ran hPerform hFailures hRest =>
      obtain ⟨-, rfl⟩ := Prod.mk.inj (perform_eq_ok hPerform)
      exact hRest

/-- A commit that was left out has changed nothing. -/
theorem commit_of_completes {message : String}
    (h : (backend author).Completes credential (.commit message :: rest) w updates w') :
    ∃ recorded, (recorded = w.checkout ∨ w.checkout.commit author message = (.ok (), recorded)) ∧
      (backend author).Completes credential rest { w with checkout := recorded } updates w' := by
  cases h with
  | leftOut hRest => exact ⟨w.checkout, .inl rfl, hRest⟩
  | ran hPerform hFailures hRest =>
      obtain ⟨hCommit, rfl⟩ := Prod.mk.inj (perform_eq_ok hPerform)
      exact ⟨_, .inr (Prod.ext hCommit rfl), hRest⟩

theorem pull_of_perform {status : RebaseStatus}
    (h : (backend author).perform (.pull remote) credential w = (.ok status, w')) :
    w.checkout.pull author w.reach remote = (.ok status, w'.checkout) ∧ w'.reach = w.reach := by
  obtain ⟨hResult, hNext⟩ := Prod.mk.inj (perform_eq_ok h)
  rw [← hNext]
  exact ⟨Prod.ext hResult rfl, rfl⟩

/-- A run that completes from a pull goes on behind one that did not stop. -/
theorem pull_of_completes (h : (backend author).Completes credential (.pull remote :: rest) w updates w') :
    ∃ status next, w.checkout.pull author w.reach remote = (.ok status, next.checkout) ∧
      next.reach = w.reach ∧ status ≠ .stopped ∧
      (backend author).Completes credential rest next updates w' := by
  cases h with
  | @ran _ _ _ next _ _ status hPerform hFailures hRest =>
      obtain ⟨hPull, hReach⟩ := pull_of_perform hPerform
      refine ⟨status, next, hPull, hReach, fun hStopped => ?_, hRest⟩
      simp [Call.failures, hStopped] at hFailures

/-- All that the last push of a run reported was accepted. -/
theorem push_of_completes {branch : Option String} {force : Bool}
    (h : (backend author).Completes credential [.push remote branch force] w updates w') :
    w.push remote branch force = (.ok updates, w') ∧ ∀ update ∈ updates, update.Accepted := by
  cases h with
  | ran hPerform hFailures hRest =>
      cases hRest
      rw [List.append_nil]
      exact ⟨perform_eq_ok hPerform, Call.accepted_of_failures hFailures⟩

end VaultSync.Git.Workspace
