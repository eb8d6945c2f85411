import VaultSync.Files
import VaultSync.Proofs.Auth.Dialogue

/-! How a request for a key file is resolved. The user and the key tools follow a scenario that ends, and so
does authentication: what its exchanges show is the result, and nothing is asked behind it. -/
namespace VaultSync

namespace Interaction

/-- The user left at a question. -/
def Leaves : Interaction → Prop
  | chose answer => answer = .ok .cancel
  | asked _ answer => answer = .ok none
  | provisioned .. | checkedProtection .. | verified .. => False

/-- The error that an interaction answered with. -/
def error? : Interaction → Option VaultError
  | chose (.error e) | provisioned _ _ (.error e) | asked _ (.error e) => some e
  | chose (.ok _) | provisioned _ _ (.ok _) | asked _ (.ok _) => none
  | checkedProtection _ answer | verified _ _ answer =>
    match answer.awaited with
    | .error e => some e
    | .ok _ => none

variable {request : AuthRequest}

/-- An interaction ends the resolution with an error exactly when it fails with it. -/
theorem ending_eq_error_iff {interaction : Interaction} {e : VaultError} :
    interaction.ending request = some (.error e) ↔ interaction.error? = some e := by
  cases interaction with
  | chose answer =>
      cases answer with
      | error _ => simp [ending, error?]
      | ok choice => cases choice <;> simp [ending, error?]
  | provisioned choice path answer => cases answer <;> simp [ending, error?]
  | checkedProtection path answer =>
      simp only [ending, error?]
      cases answer.awaited with
      | error _ => simp
      | ok encrypted => cases encrypted <;> simp
  | asked prompt answer =>
      cases answer with
      | error _ => simp [ending, error?]
      | ok entered => cases entered <;> cases hMode : request.mode <;> simp [ending, error?, hMode]
  | verified path secret answer =>
      simp only [ending, error?]
      cases answer.awaited with
      | error _ => simp
      | ok opened => cases opened <;> simp

/-- An interaction ends the resolution as cancelled exactly when the user leaves there. -/
theorem ending_eq_cancelled_iff {interaction : Interaction} :
    interaction.ending request = some (.ok .cancelled) ↔ interaction.Leaves := by
  cases interaction with
  | chose answer =>
      cases answer with
      | error _ => simp [ending, Leaves]
      | ok choice => cases choice <;> simp [ending, Leaves]
  | provisioned choice path answer => cases answer <;> simp [ending, Leaves]
  | checkedProtection path answer =>
      simp only [ending, Leaves]
      cases answer.awaited with
      | error _ => simp
      | ok encrypted => cases encrypted <;> simp
  | asked prompt answer =>
      cases answer with
      | error _ => simp [ending, Leaves]
      | ok entered => cases entered <;> cases hMode : request.mode <;> simp [ending, Leaves, hMode]
  | verified path secret answer =>
      simp only [ending, Leaves]
      cases answer.awaited with
      | error _ => simp
      | ok opened => cases opened <;> simp

theorem awaited_eq_ok_iff {α : Type} {reply : Reply VaultError α} {a : α} :
    reply.awaited = .ok a ↔ reply = .ok a := by
  cases reply <;> simp [Reply.awaited]

/-- A key opens in two ways: it has no protection, or a passphrase was accepted. -/
theorem ending_eq_authenticated_iff {interaction : Interaction} {credential : Credential}
    (hMode : request.mode = .sshKey) :
    interaction.ending request = some (.ok (.authenticated credential)) ↔
      ∃ secret, credential = .sshKey request.keyPath request.username secret ∧
        ((secret = "" ∧ ∃ path, interaction = .checkedProtection path (.ok false)) ∨
          ∃ path, interaction = .verified path secret (.ok true)) := by
  cases interaction with
  | chose answer =>
      cases answer with
      | error _ => simp [ending]
      | ok choice => cases choice <;> simp [ending]
  | provisioned choice path answer => cases answer <;> simp [ending]
  | checkedProtection path answer =>
      simp only [ending]
      cases hAnswer : answer.awaited with
      | error _ =>
          have : answer ≠ .ok false := fun h => by simp [h, Reply.awaited] at hAnswer
          simp [this]
      | ok encrypted =>
          obtain rfl := awaited_eq_ok_iff.1 hAnswer
          cases encrypted <;> simp [eq_comm]
  | asked prompt answer =>
      cases answer with
      | error _ => simp [ending]
      | ok entered => cases entered <;> simp [ending, hMode]
  | verified path secret answer =>
      simp only [ending]
      cases hAnswer : answer.awaited with
      | error _ =>
          have : answer ≠ .ok true := fun h => by simp [h, Reply.awaited] at hAnswer
          simp [this]
      | ok opened =>
          obtain rfl := awaited_eq_ok_iff.1 hAnswer
          cases opened <;> simp [eq_comm]

end Interaction

namespace Exchange

/-- What a question for a secret says about the answer before. -/
def showError? : Exchange → Option Bool
  | ⟨_, .asked prompt _⟩ => some prompt.showError
  | _ => none

/-- A passphrase that was checked, and the verdict. -/
def verdict? : Exchange → Option (String × Reply VaultError Bool)
  | ⟨_, .verified _ secret answer⟩ => some (secret, answer)
  | _ => none

end Exchange

/-- After the first question for a passphrase each further one says that the last was wrong. -/
theorem Unlocking.shown {path : String} {again : Bool} {exchanges : List Exchange}
    (h : Unlocking path again exchanges) :
    exchanges.filterMap Exchange.showError? = [] ∨
      ∃ retries, exchanges.filterMap Exchange.showError? = again :: List.replicate retries true := by
  induction h with
  | stop again => exact .inl rfl
  | ask again there answer => exact .inr ⟨0, rfl⟩
  | @verify again there there' secret answer rest hRest ih =>
      have hRound : (⟨there, .asked (AuthServices.passphrasePrompt path again) (.ok (some secret))⟩ ::
          ⟨there', .verified path secret answer⟩ :: rest).filterMap Exchange.showError? =
            again :: rest.filterMap Exchange.showError? := rfl
      rw [hRound]
      rcases ih with hNone | ⟨retries, hShown⟩
      · exact .inr ⟨0, by rw [hNone, List.replicate_zero]⟩
      · exact .inr ⟨retries + 1, by rw [hShown, List.replicate_succ]⟩

/-- Only a question that follows a wrong answer says so. -/
theorem KeyDialogue.shown {path : String} {exchanges : List Exchange}
    (h : KeyDialogue path exchanges) :
    exchanges.filterMap Exchange.showError? = [] ∨
      ∃ retries, exchanges.filterMap Exchange.showError? = false :: List.replicate retries true := by
  induction h with
  | stop => exact .inl rfl
  | choose answer => exact .inl rfl
  | provision choice there answer hRest ih => exact ih
  | check answer => exact .inl rfl
  | unlock hRest => exact hRest.shown

/-- A resolved request for a key file, read off its exchanges. -/
structure KeyResolution (request : AuthRequest) (exchanges : List Exchange)
    (result : Except VaultError Resolution) : Prop where
  /-- Choices, each made while there is no key file and carried out; a look at the protection of the key
  file, which is there by then; and if it is protected questions, each answer checked. -/
  form : KeyDialogue request.keyPath exchanges
  /-- Nothing follows an exchange that settles the result. -/
  nothing_after : Unsettled request exchanges.dropLast
  shown : exchanges.filterMap Exchange.showError? = [] ∨
    ∃ retries, exchanges.filterMap Exchange.showError? = false :: List.replicate retries true
  authenticated_iff : ∀ credential, result = .ok (.authenticated credential) ↔
    ∃ secret, credential = .sshKey request.keyPath request.username secret ∧
      ((secret = "" ∧ ∃ there path, ⟨there, .checkedProtection path (.ok false)⟩ ∈ exchanges) ∨
        ∃ earlier, exchanges.filterMap Exchange.verdict? = earlier ++ [(secret, .ok true)] ∧
          ∀ verdict ∈ earlier, verdict.2 = .ok false)
  cancelled_iff : result = .ok .cancelled ↔
    ∃ last, exchanges.getLast? = some last ∧ last.interaction.Leaves
  error_iff : ∀ e, result = .error e ↔
    ∃ last, exchanges.getLast? = some last ∧ last.interaction.error? = some e

/-- A passphrase that was checked without settling the result was rejected. -/
theorem Unsettled.rejected {request : AuthRequest} {exchanges : List Exchange}
    (h : Unsettled request exchanges) :
    ∀ verdict ∈ exchanges.filterMap Exchange.verdict?, verdict.2 = .ok false := by
  intro verdict hVerdict
  obtain ⟨⟨there, interaction⟩, hMem, hSome⟩ := List.mem_filterMap.1 hVerdict
  have hNone := h _ hMem
  cases interaction with
  | chose answer => cases hSome
  | provisioned choice path answer => cases hSome
  | checkedProtection path answer => cases hSome
  | asked prompt answer => cases hSome
  | verified path secret answer =>
      cases hSome
      simp only [Interaction.ending] at hNone
      cases hAnswer : answer.awaited with
      | error e => simp [hAnswer] at hNone
      | ok opened =>
          cases opened with
          | true => simp [hAnswer] at hNone
          | false => exact Interaction.awaited_eq_ok_iff.1 hAnswer

/-- The last exchange is the only one that settles a result. -/
theorem Settled.eq_last {request : AuthRequest} {front : List Exchange} {last exchange : Exchange}
    (hFront : Unsettled request front) (hMem : exchange ∈ front ++ [last])
    (hEnding : exchange.interaction.ending request ≠ none) : exchange = last := by
  rcases List.mem_append.1 hMem with hMem | hMem
  · exact absurd (hFront exchange hMem) hEnding
  · exact List.mem_singleton.1 hMem

/-- A dialogue of the right form that settles a request is a resolution by key. -/
theorem Settled.keyResolution {request : AuthRequest} {exchanges : List Exchange}
    {result : Except VaultError Resolution} (h : Settled request exchanges result)
    (hMode : request.mode = .sshKey) (hForm : KeyDialogue request.keyPath exchanges) :
    KeyResolution request exchanges result := by
  have hShown := hForm.shown
  obtain ⟨front, last, rfl, hFront, hLast⟩ := h
  -- the last interaction ended the dialogue, so each way to end is read off it
  have hIff (other : Except VaultError Resolution) :
      result = other ↔ last.interaction.ending request = some other := by
    rw [hLast, Option.some.injEq]
  refine ⟨hForm, by simpa using hFront, hShown, fun credential => ?_, ?_, fun e => ?_⟩
  · rw [hIff, Interaction.ending_eq_authenticated_iff hMode]
    refine exists_congr fun secret => and_congr_right fun _ => or_congr ?_ ?_
    · refine and_congr_right fun _ => ⟨?_, ?_⟩
      · rintro ⟨path, hPath⟩
        exact ⟨last.keyThere, path, by simp [← hPath]⟩
      · rintro ⟨there, path, hMem⟩
        have hEq := Settled.eq_last hFront hMem (by simp [Interaction.ending, Reply.awaited])
        exact ⟨path, by rw [← hEq]⟩
    · constructor
      · rintro ⟨path, hPath⟩
        refine ⟨front.filterMap Exchange.verdict?, ?_, hFront.rejected⟩
        obtain ⟨there, interaction⟩ := last
        obtain rfl : interaction = .verified path secret (.ok true) := hPath
        simp [Exchange.verdict?]
      -- a passphrase that opens the key ends the dialogue, so it is the last exchange that has it
      · rintro ⟨earlier, hVerdicts, -⟩
        have hSome : (secret, .ok true) ∈ (front ++ [last]).filterMap Exchange.verdict? := by
          simp [hVerdicts]
        obtain ⟨⟨there, interaction⟩, hMem, hVerdict⟩ := List.mem_filterMap.1 hSome
        cases interaction with
        | chose answer => cases hVerdict
        | provisioned choice path answer => cases hVerdict
        | checkedProtection path answer => cases hVerdict
        | asked prompt answer => cases hVerdict
        | verified path other answer =>
            cases hVerdict
            have hEq := Settled.eq_last hFront hMem (by simp [Interaction.ending, Reply.awaited])
            exact ⟨path, by rw [← hEq]⟩
  · rw [hIff, Interaction.ending_eq_cancelled_iff]
    simp
  · rw [hIff, Interaction.ending_eq_error_iff]
    simp

/-! ### Scenarios -/

/-- Tools that look at key files, with a state of their own. They may answer, fail and crash as they
like. -/
structure KeyTools (ν : Type) where
  isEncrypted : String → Files → ν → Reply VaultError Bool × ν
  verify : String → String → Files → ν → Reply VaultError Bool × ν

/-- What is still to come: the choices and secrets of the user, and what each provisioning answers and
does to the files. -/
structure Scenario (ν : Type) where
  files : Files
  choices : List (Except VaultError KeyChoice)
  provisionings : List (KeyChoice → String → Files → Except VaultError Unit × Files)
  secrets : List (Except VaultError (Option String))
  tools : ν

namespace Scenario

variable {α ν : Type}

/-- What is said when nothing is left to come. -/
def exhausted : VaultError := .prompt "script exhausted"

def next : List (Except VaultError α) → Except VaultError α × List (Except VaultError α)
  | [] => (.error exhausted, [])
  | answer :: rest => (answer, rest)

/-- An answer that was given is used up. -/
theorem length_next_lt {answers : List (Except VaultError α)} {a : α} (h : (next answers).1 = .ok a) :
    (next answers).2.length < answers.length := by
  cases answers with
  | nil => cases h
  | cons answer rest => exact Nat.lt_succ_self _

def services (tools : KeyTools ν) : AuthServices (Scenario ν) where
  supply s := s.secrets.length + s.choices.length
  keyPresent path s := s.files.isFile path
  ask _ s := ((next s.secrets).1, { s with secrets := (next s.secrets).2 })
  choose s := ((next s.choices).1, { s with choices := (next s.choices).2 })
  provision choice path s :=
    match s.provisionings with
    | [] => (.error exhausted, s)
    | provisioning :: provisionings =>
      let (answer, files) := provisioning choice path s.files
      (answer, { s with files, provisionings })
  isEncrypted path s :=
    let (answer, tools) := tools.isEncrypted path s.files s.tools
    (answer, { s with tools })
  verify path secret s :=
    let (answer, tools) := tools.verify path secret s.files s.tools
    (answer, { s with tools })
  ask_lt _ s _ _ h := by
    obtain ⟨hAnswer, rfl⟩ := Prod.mk.inj h
    exact Nat.add_lt_add_right (length_next_lt hAnswer) _
  choose_lt s _ _ h _ := by
    obtain ⟨hAnswer, rfl⟩ := Prod.mk.inj h
    exact Nat.add_lt_add_left (length_next_lt hAnswer) _
  provision_le _ _ s s' h := by
    dsimp only at h
    split at h
    · cases h
    · obtain ⟨-, rfl⟩ := Prod.mk.inj h
      exact Nat.le_refl _
  verify_le _ _ _ _ _ h := by
    obtain ⟨-, rfl⟩ := Prod.mk.inj h
    exact Nat.le_refl _

end Scenario

/-- A request for a key file is resolved whatever the scenario and the key tools: after at most two
exchanges for each choice and secret of the scenario, and two more. The exchanges have the form of the
dialogue about a key, and they show the result: the key was not protected, or the last passphrase that
was checked was accepted and all before it rejected; or the user left at the last question; or else the
last one who was asked answered with the error. -/
theorem resolve_key_settled {ν : Type} (tools : KeyTools ν) (scenario : Scenario ν)
    (username keyPath : String) :
    let request : AuthRequest := ⟨.sshKey, username, keyPath⟩
    let services := Scenario.services tools
    let run := (services.logged keyPath id).resolve request ⟨[], scenario⟩
    let result := (services.resolve request scenario).1
    run.1 = result ∧ KeyResolution request run.2.log result ∧
      run.2.log.length ≤ 2 * (scenario.secrets.length + scenario.choices.length) + 2 := by
  dsimp only
  obtain ⟨exchanges, hRun, hConversed⟩ :=
    (Scenario.services tools).resolve_dialogue ⟨.sshKey, username, keyPath⟩ id ⟨[], scenario⟩
  have hLog : ([] : List Exchange) ++ exchanges.map id = exchanges := by simp
  rw [hRun, Logged.extend, hLog]
  refine ⟨rfl, hConversed.settled.keyResolution rfl hConversed.form, hConversed.length_le ?_⟩
  intro path s
  exact Nat.le_refl _

end VaultSync
