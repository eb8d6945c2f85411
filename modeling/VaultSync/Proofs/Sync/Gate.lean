import Mathlib.Data.List.Forall2
import VaultSync.Proofs.Auth.Resolution
import VaultSync.Proofs.Sync.Outcome
import VaultSync.Sync.Service

/-! Authentication in front of operations, over any number of runs of one service. In every run the
exchanges with the user come before everything else, the operation runs only if they end with a
credential, and then with the credential that this run's own answers gave. -/
namespace VaultSync

/-! ### Backends that do the same -/

section Simulation

variable {τ σ : Type} {concrete : Backend τ} {abstract : Backend σ} {view : τ → σ}

/-- A backend does on what is seen of a state what another one does on the state. -/
def Backend.Simulates (abstract : Backend σ) (concrete : Backend τ) (view : τ → σ) : Prop :=
  ∀ command credential t,
    abstract.perform command credential (view t) =
      (concrete.perform command credential t).map id view

/-- One step on the concrete state is the abstract step on its view. -/
theorem Backend.Simulates.step (h : abstract.Simulates concrete view) (credential : Credential)
    (command : Command) (progress : Progress) (t : τ) :
    abstract.step credential command progress (view t) =
      (concrete.step credential command progress t).map id view := by
  cases hSkips : progress.skips command with
  | true => simp [Backend.step, hSkips]
  | false => simp [Backend.step, hSkips, h command credential t]

/-- A run on the concrete state is the abstract run on its view. -/
theorem Backend.Simulates.steps (h : abstract.Simulates concrete view) (credential : Credential)
    (steps : List Command) (progress : Progress) (t : τ) :
    abstract.steps credential steps progress (view t) =
      (concrete.steps credential steps progress t).map id view := by
  induction steps generalizing progress t with
  | nil => rfl
  | cons command steps ih =>
      rw [Backend.steps, Backend.steps]
      cases hHalted : progress.halted with
      | true => rfl
      | false =>
          rw [if_neg Bool.false_ne_true, if_neg Bool.false_ne_true, h.step]
          exact ih _ _

/-- An execution on the concrete state is the abstract one on its view, where the hooks agree. -/
theorem Backend.Simulates.execute (h : abstract.Simulates concrete view) {told : Hooks σ}
    {hooks : Hooks τ} (hSuccess : ∀ report t, told.onSuccess report (view t) = view (hooks.onSuccess report t))
    (hError : ∀ error t, told.onError error (view t) = view (hooks.onError error t))
    (operation : Operation) (credential : Credential) (t : τ) :
    abstract.execute told operation credential (view t) =
      (concrete.execute hooks operation credential t).map id view := by
  dsimp only [Backend.execute]
  rw [h.steps]
  rcases concrete.steps credential operation.steps .start t with ⟨progress, t⟩
  cases hOutcome : progress.outcome operation.kind <;> simp [hOutcome, hSuccess, hError]

end Simulation

/-! ### Runs that are written down -/

/-- One thing that a run of a service does: an exchange with the user or the key tools, a call of the
backend, or a word to the hooks. -/
inductive Happening
  | exchanged (exchange : Exchange)
  | entered (entry : Entry)

variable {α σ : Type}

/-- The execution of an operation adds to a log what it adds to an empty transcript, in the form of the log. -/
theorem Backend.execute_logged (backend : Backend σ) (write : Entry → α) (credential : Credential)
    (hooks : Hooks σ) (operation : Operation) (t : Logged α σ) :
    (backend.logged write).execute (hooks.logged write) operation credential t =
      (backend.recorded.execute hooks.recorded operation credential (.start t.state)).map id
        fun run => ⟨t.log ++ run.log.map write, run.state⟩ := by
  have hSimulates : (backend.logged write).Simulates backend.recorded
      fun run => ⟨t.log ++ run.log.map write, run.state⟩ := by
    intro command credential run
    simp [Backend.logged, Backend.recorded, Backend.answered]
  have hStart : t = ⟨t.log ++ (Logged.start t.state).log.map write, t.state⟩ := by
    simp [Logged.start]
  conv_lhs => rw [hStart]
  exact hSimulates.execute (by simp [Hooks.logged, Hooks.recorded]) (by simp [Hooks.logged, Hooks.recorded])
    operation credential (.start t.state)

/-- With hooks that leave no record the log has the calls alone. -/
theorem Backend.execute_lifted (backend : Backend σ) (write : Entry → α) (credential : Credential)
    (hooks : Hooks σ) (operation : Operation) (t : Logged α σ) :
    (backend.logged write).execute hooks.lifted operation credential t =
      (backend.recorded.execute hooks.recorded operation credential (.start t.state)).map id
        fun run => ⟨t.log ++ run.calls.map fun call => write (.called call), run.state⟩ := by
  have hSimulates : (backend.logged write).Simulates backend.recorded
      fun run => ⟨t.log ++ run.calls.map fun call => write (.called call), run.state⟩ := by
    intro command credential run
    simp [Backend.logged, Backend.recorded, Backend.answered, Transcript.calls, Entry.call?]
  have hStart : t = ⟨t.log ++ (Transcript.calls (.start t.state)).map fun call => write (.called call),
      t.state⟩ := by
    simp [Transcript.calls, Logged.start]
  conv_lhs => rw [hStart]
  refine hSimulates.execute ?_ ?_ operation credential (.start t.state)
  · simp [Hooks.lifted, Hooks.recorded, Hooks.logged, Transcript.calls, Entry.call?]
  · simp [Hooks.lifted, Hooks.recorded, Hooks.logged, Transcript.calls, Entry.call?]

/-- What is seen of an execution: the calls of its steps in their order, and behind them what the hooks are
told. -/
theorem Backend.execute_traced (backend : Backend σ) (credential : Credential) (hooks : Hooks σ)
    (operation : Operation) (t : Traced σ) :
    let outcome := (backend.execute hooks operation credential t.state).1
    ∃ slots, Plan credential [] operation.steps slots ∧
      backend.traced.execute hooks.traced operation credential t =
        (outcome, ⟨t.events ++ (slots.reduceOption.map Entry.called ++ outcome.tellings).map Entry.event,
          (backend.execute hooks operation credential t.state).2⟩) := by
  intro outcome
  obtain ⟨slots, hPlan, hLog, -⟩ := backend.execute_told credential hooks operation t.state
  have hRecorded := backend.execute_recorded credential hooks operation (.start t.state)
  have hOutcome : (backend.recorded.execute hooks.recorded operation credential (.start t.state)).1 = outcome :=
    congrArg Prod.fst hRecorded
  have hState : (backend.recorded.execute hooks.recorded operation credential (.start t.state)).2.state =
      (backend.execute hooks operation credential t.state).2 := congrArg Prod.snd hRecorded
  refine ⟨slots, hPlan, ?_⟩
  rw [Backend.traced, Hooks.traced, backend.execute_logged, ← hLog, ← hOutcome, ← hState]
  rfl

/-- What is seen of an authentication: the exchanges of its dialogue, without the answers. -/
theorem AuthServices.resolve_traced (services : AuthServices σ) (request : AuthRequest) (t : Traced σ) :
    ∃ exchanges,
      services.traced.resolve request t = ((services.resolve request t.state).1,
        ⟨t.events ++ exchanges.map Exchange.event, (services.resolve request t.state).2⟩) ∧
      services.Conversed request t.state exchanges (services.resolve request t.state).1 :=
  -- whether there is a key file is no part of what is seen, and so the path that is looked at does not matter
  services.resolve_dialogue request Exchange.event t

/-! ### Where a credential comes from -/

/-- A credential is made of the request and of the answers of these exchanges: of the password that was
entered, of nothing for a key without protection, or of the passphrase that was entered last and then
accepted. -/
def Supplied (request : AuthRequest) (exchanges : List Exchange) (credential : Credential) : Prop :=
  match request.mode with
  | .password => ∃ there prompt secret,
      exchanges = [⟨there, .asked prompt (.ok (some secret))⟩] ∧
        credential = .password request.username secret
  | .sshKey => ∃ front secret, credential = .sshKey request.keyPath request.username secret ∧
      ((secret = "" ∧ ∃ there,
          exchanges = front ++ [⟨there, .checkedProtection request.keyPath (.ok false)⟩]) ∨
        ∃ there there' prompt, exchanges = front ++
          [⟨there, .asked prompt (.ok (some secret))⟩,
            ⟨there', .verified request.keyPath secret (.ok true)⟩])

/-- A passphrase is checked right after it was entered. -/
def AnsweredBefore (path : String) (exchanges : List Exchange) : Prop :=
  ∀ front there other secret answer, exchanges = front ++ [⟨there, .verified other secret answer⟩] →
    other = path ∧ ∃ before asked prompt,
      front = before ++ [⟨asked, .asked prompt (.ok (some secret))⟩]

/-- Earlier exchanges take no answer away. -/
theorem AnsweredBefore.append {path : String} (round : List Exchange) {exchanges : List Exchange}
    (hNonempty : exchanges ≠ []) (h : AnsweredBefore path exchanges) :
    AnsweredBefore path (round ++ exchanges) := by
  intro front there other secret answer hEq
  obtain ⟨middle, last, rfl⟩ := List.eq_nil_or_concat' exchanges |>.resolve_left hNonempty
  rw [← List.append_assoc] at hEq
  obtain ⟨rfl, hLast⟩ := List.append_inj' hEq rfl
  obtain ⟨hPath, before, asked, prompt, rfl⟩ := h middle there other secret answer (by rw [hLast])
  exact ⟨hPath, round ++ before, asked, prompt, by simp⟩

/-- Only a last check of a passphrase needs an answer before it. -/
theorem AnsweredBefore.concat {path : String} (front : List Exchange) (last : Exchange)
    (h : ∀ there other secret answer, last = ⟨there, .verified other secret answer⟩ →
      other = path ∧ ∃ before asked prompt, front = before ++ [⟨asked, .asked prompt (.ok (some secret))⟩]) :
    AnsweredBefore path (front ++ [last]) := by
  intro front' there other secret answer hEq
  obtain ⟨rfl, hLast⟩ := List.append_inj' hEq rfl
  exact h there other secret answer (List.singleton_inj.1 hLast)

/-- Unlocking checks only the passphrase just given. -/
theorem Unlocking.answeredBefore {path : String} {again : Bool} {exchanges : List Exchange}
    (h : Unlocking path again exchanges) : AnsweredBefore path exchanges := by
  induction h with
  | stop again =>
      intro front there other secret answer hEq
      simp at hEq
  | ask again asked reply => exact .concat [] _ (by simp)
  | @verify again asked verified passphrase reply rest hRest ih =>
      cases rest with
      | cons exchange rest => exact ih.append [_, _] (by simp)
      | nil =>
          refine .concat [_] _ ?_
          intro there other secret answer hLast
          simp only [Exchange.mk.injEq, Interaction.verified.injEq] at hLast
          obtain ⟨-, rfl, rfl, -⟩ := hLast
          exact ⟨rfl, [], asked, _, rfl⟩

/-- A dialogue about a key checks only passphrases that were given. -/
theorem KeyDialogue.answeredBefore {path : String} {exchanges : List Exchange}
    (h : KeyDialogue path exchanges) : AnsweredBefore path exchanges := by
  induction h with
  | stop =>
      intro front there other secret answer hEq
      simp at hEq
  | choose reply => exact .concat [] _ (by simp)
  | @provision choice provided reply rest hRest ih =>
      cases rest with
      | cons exchange rest => exact ih.append [_, _] (by simp)
      | nil => exact .concat [_] _ (by simp)
  | check reply => exact .concat [] _ (by simp)
  | @unlock rest hRest =>
      cases rest with
      | cons exchange rest => exact hRest.answeredBefore.append [_] (by simp)
      | nil => exact .concat [] _ (by simp)

/-- Unlocking does not ask whether the key is protected; that was asked before. -/
theorem Unlocking.not_checked {path : String} {again : Bool} {exchanges : List Exchange}
    (h : Unlocking path again exchanges) {there : Bool} {other : String} {answer : Reply VaultError Bool} :
    ⟨there, .checkedProtection other answer⟩ ∉ exchanges := by
  induction h with
  | stop again => simp
  | ask again asked reply => simp
  | verify again asked verified passphrase reply hRest ih => simpa using ih

/-- Only the key file of the request is looked at. -/
theorem KeyDialogue.checked_path {path : String} {exchanges : List Exchange}
    (h : KeyDialogue path exchanges) {there : Bool} {other : String} {answer : Reply VaultError Bool}
    (hMem : ⟨there, .checkedProtection other answer⟩ ∈ exchanges) : other = path := by
  induction h with
  | stop => simp at hMem
  | choose reply => simp at hMem
  | provision choice provided reply hRest ih => exact ih (by simpa using hMem)
  | check reply =>
      simp only [List.mem_singleton, Exchange.mk.injEq, Interaction.checkedProtection.injEq] at hMem
      exact hMem.2.1
  | unlock hRest =>
      rcases List.mem_cons.1 hMem with hMem | hMem
      · simp only [Exchange.mk.injEq, Interaction.checkedProtection.injEq] at hMem
        exact hMem.2.1
      · exact absurd hMem hRest.not_checked

/-- Authentication that ends with a credential has got it from the answers of its own exchanges. -/
theorem Settled.supplied {request : AuthRequest} {exchanges : List Exchange} {credential : Credential}
    (h : Settled request exchanges (.ok (.authenticated credential)))
    (hForm : Dialogue request exchanges) : Supplied request exchanges credential := by
  obtain ⟨front, ⟨there, interaction⟩, rfl, -, hLast⟩ := h
  cases hMode : request.mode with
  | password =>
      simp only [Dialogue, hMode] at hForm
      simp only [Supplied, hMode]
      obtain ⟨asked, answer, hEq⟩ := hForm
      -- a dialogue about a password is one question, so its answer is what settled it
      obtain ⟨rfl, hHere⟩ := List.append_inj' (hEq.trans (List.nil_append _).symm) rfl
      cases hHere
      rcases answer with e | _ | secret
      · simp [Interaction.ending] at hLast
      · simp [Interaction.ending] at hLast
      · refine ⟨there, _, secret, rfl, ?_⟩
        simpa [Interaction.ending, hMode, eq_comm] using hLast
  | sshKey =>
      simp only [Dialogue, hMode] at hForm
      simp only [Supplied, hMode]
      obtain ⟨secret, rfl, ⟨rfl, path, rfl⟩ | ⟨path, rfl⟩⟩ :=
        (Interaction.ending_eq_authenticated_iff hMode).1 hLast
      · have hPath : path = request.keyPath :=
          hForm.checked_path (List.mem_append_right front (List.mem_singleton.2 rfl))
        exact ⟨front, "", rfl, .inl ⟨rfl, there, by rw [hPath]⟩⟩
      · obtain ⟨rfl, before, asked, prompt, rfl⟩ := hForm.answeredBefore _ _ _ _ _ rfl
        exact ⟨before, secret, rfl, .inr ⟨asked, there, prompt, by simp⟩⟩

/-! ### Runs of a service -/

/-- What a service is asked to do once. -/
structure ServiceRun (σ : Type) where
  request : AuthRequest
  operation : Operation
  hooks : Hooks σ

/-- What one run of a service was seen to do, from the state before it on. -/
structure Account (σ : Type) where
  before : σ
  log : List Happening
  result : Except VaultError SyncOutcome

variable (services : AuthServices σ) (backend : Backend σ)

/-- What a service does when it is asked once. -/
def ServiceRun.perform (run : ServiceRun σ) (s : σ) : Except VaultError SyncOutcome × σ :=
  executeAfterAuthentication services backend run.hooks run.request run.operation s

/-- The same, written down from the start. -/
def ServiceRun.account (run : ServiceRun σ) (s : σ) : Account σ :=
  let (result, t) := executeAfterAuthentication (services.logged run.request.keyPath .exchanged)
    (backend.logged .entered) (run.hooks.logged .entered) run.request run.operation ⟨[], s⟩
  ⟨s, t.log, result⟩

/-- Runs of one service one after the other. All work on one state, so that whatever a run leaves behind
is there for the next one. -/
def serve : List (ServiceRun σ) → σ → List (Account σ)
  | [], _ => []
  | run :: runs, s => run.account services backend s :: serve runs (run.perform services backend s).2

/-- An operation was executed once: each of its steps was called in its turn or left out, with the
credential if it takes one, and the outcome was told behind all calls. -/
def Executed (run : ServiceRun σ) (credential : Credential) (s : σ) (entries : List Entry)
    (result : Except VaultError SyncOutcome) : Prop :=
  let outcome := (backend.execute run.hooks run.operation credential s).1
  result = .ok outcome ∧
    ∃ slots, Plan credential [] run.operation.steps slots ∧
      entries = slots.reduceOption.map .called ++ outcome.tellings ∧
      outcome.IsDecidedBy run.operation.kind (slots.reduceOption.flatMap Call.failures)

/-- A run that was gated by authentication: first the exchanges, then the entries of an execution, which
are there only if the exchanges ended with a credential. -/
structure Gated (run : ServiceRun σ) (account : Account σ) (exchanges : List Exchange)
    (entries : List Entry) : Prop where
  result_eq : account.result = (run.perform services backend account.before).1
  log_eq : account.log = exchanges.map .exchanged ++ entries.map .entered
  form : Dialogue run.request exchanges
  settled : Settled run.request exchanges (services.resolve run.request account.before).1
  of_error : ∀ e, (services.resolve run.request account.before).1 = .error e →
    account.result = .error e ∧ entries = []
  of_cancelled : (services.resolve run.request account.before).1 = .ok .cancelled →
    account.result = .ok .cancelled ∧ entries = []
  of_authenticated : ∀ credential,
    (services.resolve run.request account.before).1 = .ok (.authenticated credential) →
      Supplied run.request exchanges credential ∧
        Executed backend run credential (services.resolve run.request account.before).2 entries
          account.result

/-- Without a credential nothing follows the exchanges, and they say how the run ends. -/
theorem Gated.of_unauthenticated {run : ServiceRun σ} {s : σ} {exchanges : List Exchange}
    (hForm : Dialogue run.request exchanges)
    (hSettled : Settled run.request exchanges (services.resolve run.request s).1)
    (hNone : ∀ credential, (services.resolve run.request s).1 ≠ .ok (.authenticated credential))
    (hPerform : (run.perform services backend s).1 =
      (services.resolve run.request s).1.map fun _ => .cancelled) :
    Gated services backend run ⟨s, exchanges.map .exchanged, (run.perform services backend s).1⟩
      exchanges [] where
  result_eq := rfl
  log_eq := by simp
  form := hForm
  settled := hSettled
  of_error e hError := by
    refine ⟨?_, rfl⟩
    rw [hPerform, hError]
    rfl
  of_cancelled hCancelled := by
    refine ⟨?_, rfl⟩
    rw [hPerform, hCancelled]
    rfl
  of_authenticated credential hCredential := absurd hCredential (hNone credential)

/-- Without a credential nothing is written down behind the exchanges. -/
theorem ServiceRun.account_of_unauthenticated {run : ServiceRun σ} {s s₁ : σ} {exchanges : List Exchange}
    {resolved : Except VaultError Resolution} (hResolved : services.resolve run.request s = (resolved, s₁))
    (hRun : (services.logged run.request.keyPath Happening.exchanged).resolve run.request ⟨[], s⟩ =
      (resolved, ⟨exchanges.map .exchanged, s₁⟩))
    (hNone : ∀ credential, resolved ≠ .ok (.authenticated credential)) :
    (run.perform services backend s).1 = resolved.map (fun _ => .cancelled) ∧
      run.account services backend s =
        ⟨s, exchanges.map .exchanged, (run.perform services backend s).1⟩ := by
  rcases resolved with e | credential | _
  · simp [ServiceRun.account, ServiceRun.perform, executeAfterAuthentication, AuthServices.resolveThen,
      hResolved, hRun, Except.map]
  · exact absurd rfl (hNone credential)
  · simp [ServiceRun.account, ServiceRun.perform, executeAfterAuthentication, AuthServices.resolveThen,
      hResolved, hRun, Except.map]

/-- With a credential the execution is written down behind the exchanges. -/
theorem ServiceRun.account_of_authenticated {run : ServiceRun σ} {s s₁ : σ} {exchanges : List Exchange}
    {credential : Credential}
    (hRun : (services.logged run.request.keyPath Happening.exchanged).resolve run.request ⟨[], s⟩ =
      (.ok (.authenticated credential), ⟨exchanges.map .exchanged, s₁⟩)) :
    ∃ entries, Executed backend run credential s₁ entries
        (.ok (backend.execute run.hooks run.operation credential s₁).1) ∧
      run.account services backend s = ⟨s, exchanges.map .exchanged ++ entries.map .entered,
        .ok (backend.execute run.hooks run.operation credential s₁).1⟩ := by
  obtain ⟨slots, hPlan, hEntries, -, hDecided⟩ :=
    backend.execute_told credential run.hooks run.operation s₁
  refine ⟨_, ⟨rfl, slots, hPlan, rfl, hDecided⟩, ?_⟩
  rw [← hEntries]
  simp [ServiceRun.account, executeAfterAuthentication, AuthServices.resolveThen, hRun,
    Backend.execute_logged, ← backend.outcome_recorded]

/-- Each run of a service is gated by its own authentication. -/
theorem ServiceRun.gated (run : ServiceRun σ) (s : σ) :
    ∃ exchanges entries,
      Gated services backend run (run.account services backend s) exchanges entries := by
  obtain ⟨exchanges, hRun, hForm, hSettled, -⟩ :=
    services.resolve_dialogue run.request Happening.exchanged ⟨[], s⟩
  have hUnauthenticated := Gated.of_unauthenticated services backend hForm hSettled
  rcases hResolved : services.resolve run.request s with ⟨resolved, s₁⟩
  rw [hResolved] at hRun hSettled hUnauthenticated
  simp only [Logged.extend, List.nil_append] at hRun
  -- How the run goes on is decided by how authentication ended, in the run and in its account alike.
  by_cases hNone : ∀ credential, resolved ≠ .ok (.authenticated credential)
  · obtain ⟨hPerform, hAccount⟩ :=
      ServiceRun.account_of_unauthenticated services backend hResolved hRun hNone
    refine ⟨exchanges, [], ?_⟩
    rw [hAccount]
    exact hUnauthenticated hNone hPerform
  · obtain ⟨credential, rfl⟩ : ∃ credential, resolved = .ok (.authenticated credential) := by
      simpa using hNone
    obtain ⟨entries, hExecuted, hAccount⟩ :=
      ServiceRun.account_of_authenticated services backend hRun
    refine ⟨exchanges, entries, ?_⟩
    rw [hAccount]
    exact
      { result_eq := by
          simp [ServiceRun.perform, executeAfterAuthentication, AuthServices.resolveThen, hResolved]
        log_eq := rfl
        form := hForm
        settled := by simpa only [hResolved] using hSettled
        of_error := by simp [hResolved]
        of_cancelled := by simp [hResolved]
        of_authenticated := by
          intro other hOther
          obtain rfl : credential = other := by simpa [hResolved] using hOther
          refine ⟨hSettled.supplied hForm, ?_⟩
          rw [hResolved]
          exact hExecuted }

/-- Every run of a service is gated by its own authentication, whatever the runs before it were asked and
answered. -/
theorem serve_gated (runs : List (ServiceRun σ)) (s : σ) :
    List.Forall₂
      (fun run account => ∃ exchanges entries, Gated services backend run account exchanges entries)
      runs (serve services backend runs s) := by
  induction runs generalizing s with
  | nil => exact .nil
  | cons run runs ih => exact .cons (run.gated services backend s) (ih _)

end VaultSync
