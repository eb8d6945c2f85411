import VaultSync.Sync.Trace

/-! What authentication asks of the user and of the key tools, written down with the answers. The exchanges
of a run follow a fixed form, and they go on exactly until one of them settles how the run ends
(`AuthServices.resolve_dialogue`). Writing them down changes neither the end nor the state. -/
namespace VaultSync

/-- The answer of a task as the one who waits for it sees it: a crash is an error, too. -/
def Reply.awaited {α : Type} : Reply VaultError α → Except VaultError α
  | ok a => .ok a
  | error e => .error e
  | crashed message => .error (.taskFailed (Reply.crashDetail message))

namespace Interaction

/-- How authentication ends with an interaction, if it settles the matter. -/
def ending (request : AuthRequest) : Interaction → Option (Except VaultError Resolution)
  | chose answer =>
    match answer with
    | .error e => some (.error e)
    | .ok .cancel => some (.ok .cancelled)
    | .ok .importFile | .ok .generate => none
  | provisioned _ _ answer =>
    match answer with
    | .error e => some (.error e)
    | .ok () => none
  | checkedProtection _ answer =>
    match answer.awaited with
    | .error e => some (.error e)
    | .ok false => some (.ok (.authenticated (.sshKey request.keyPath request.username "")))
    | .ok true => none
  | asked _ answer =>
    match answer, request.mode with
    | .error e, _ => some (.error e)
    | .ok none, _ => some (.ok .cancelled)
    | .ok (some secret), .password => some (.ok (.authenticated (.password request.username secret)))
    | .ok (some _), .sshKey => none
  | verified _ secret answer =>
    match answer.awaited with
    | .error e => some (.error e)
    | .ok true => some (.ok (.authenticated (.sshKey request.keyPath request.username secret)))
    | .ok false => none

end Interaction

/-! ### The form of a run -/

open AuthServices (passphrasePrompt passwordPrompt)

/-- Questions for the passphrase of a key, each answer checked. The flag says whether the first of them
tells the user that the answer before was wrong. -/
inductive Unlocking (path : String) : Bool → List Exchange → Prop where
  | stop (again : Bool) : Unlocking path again []
  | ask (again there : Bool) (answer : Except VaultError (Option String)) :
      Unlocking path again [⟨there, .asked (passphrasePrompt path again) answer⟩]
  | verify (again there there' : Bool) (secret : String) (answer : Reply VaultError Bool)
      {rest : List Exchange} (hRest : Unlocking path true rest) :
      Unlocking path again
        (⟨there, .asked (passphrasePrompt path again) (.ok (some secret))⟩ ::
          ⟨there', .verified path secret answer⟩ :: rest)

/-- A beginning of the dialogue about a key: choices that are carried out, one as long as there is no key
file, then a look at the protection of the key file, then questions for its passphrase. -/
inductive KeyDialogue (path : String) : List Exchange → Prop where
  | stop : KeyDialogue path []
  | choose (answer : Except VaultError KeyChoice) : KeyDialogue path [⟨false, .chose answer⟩]
  | provision (choice : KeyChoice) (there : Bool) (answer : Except VaultError Unit)
      {rest : List Exchange} (hRest : KeyDialogue path rest) :
      KeyDialogue path
        (⟨false, .chose (.ok choice)⟩ :: ⟨there, .provisioned choice path answer⟩ :: rest)
  | check (answer : Reply VaultError Bool) : KeyDialogue path [⟨true, .checkedProtection path answer⟩]
  | unlock {rest : List Exchange} (hRest : Unlocking path false rest) :
      KeyDialogue path (⟨true, .checkedProtection path (.ok true)⟩ :: rest)

/-- The dialogue that a request leads to. For a password there is one question. -/
def Dialogue (request : AuthRequest) (exchanges : List Exchange) : Prop :=
  match request.mode with
  | .sshKey => KeyDialogue request.keyPath exchanges
  | .password => ∃ there answer, exchanges = [⟨there, .asked (passwordPrompt request.username) answer⟩]

/-- No exchange settles how authentication ends. -/
def Unsettled (request : AuthRequest) (exchanges : List Exchange) : Prop :=
  ∀ exchange ∈ exchanges, exchange.interaction.ending request = none

/-- The last exchange settles how authentication ends, and none before it does. -/
def Settled (request : AuthRequest) (exchanges : List Exchange)
    (result : Except VaultError Resolution) : Prop :=
  ∃ front last, exchanges = front ++ [last] ∧ Unsettled request front ∧
    last.interaction.ending request = some result

theorem Settled.single {request : AuthRequest} {last : Exchange} {result : Except VaultError Resolution}
    (h : last.interaction.ending request = some result) : Settled request [last] result :=
  ⟨[], last, rfl, by simp [Unsettled], h⟩

/-- What settles a request behind questions that left it open settles it with them. -/
theorem Settled.append {request : AuthRequest} {front exchanges : List Exchange}
    {result : Except VaultError Resolution} (hFront : Unsettled request front)
    (h : Settled request exchanges result) : Settled request (front ++ exchanges) result := by
  obtain ⟨middle, last, rfl, hMiddle, hLast⟩ := h
  refine ⟨front ++ middle, last, by simp, ?_, hLast⟩
  intro exchange hMem
  rcases List.mem_append.1 hMem with hMem | hMem
  · exact hFront exchange hMem
  · exact hMiddle exchange hMem

/-- One question that leaves the request open may stand first. -/
theorem Settled.cons {request : AuthRequest} {first : Exchange} {exchanges : List Exchange}
    {result : Except VaultError Resolution} (hFirst : Unsettled request [first])
    (h : Settled request exchanges result) : Settled request (first :: exchanges) result :=
  .append hFirst h

/-! ### Writing exchanges down -/

variable {α β σ : Type}

/-- A result and the state it leaves, with more exchanges written down. -/
def Logged.extend (t : Logged α σ) (write : Exchange → α) (exchanges : List Exchange) (run : β × σ) :
    β × Logged α σ :=
  (run.1, ⟨t.log ++ exchanges.map write, run.2⟩)

namespace AuthServices

variable (services : AuthServices σ)

/-! ### One round of each loop -/

/-- Looking for a key is one round of questions, then the same search again. -/
theorem ensureKey_eq (path : String) (s : σ) :
    services.ensureKey path s =
      if services.keyPresent path s then (.ok true, s)
      else
        match services.choose s with
        | (.error e, s) => (.error e, s)
        | (.ok choice, s₁) =>
          if choice = .cancel then (.ok false, s₁)
          else
            match services.provision choice path s₁ with
            | (.error e, s) => (.error e, s)
            | (.ok (), s₂) => services.ensureKey path s₂ := by
  rw [ensureKey]
  split
  · rfl
  · split <;> rename_i hChoose <;> simp only [hChoose]
    split
    · rfl
    · split <;> rename_i hProvision <;> simp only [hProvision]

/-- Unlocking is one round of questions, then the same with a note that the passphrase was wrong. -/
theorem unlock_eq (path : String) (again : Bool) (s : σ) :
    services.unlock path again s =
      match services.ask (passphrasePrompt path again) s with
      | (.error e, s) => (.error e, s)
      | (.ok none, s) => (.ok none, s)
      | (.ok (some secret), s₁) =>
        match services.verify path secret s₁ with
        | (.error e, s) => (.error e, s)
        | (.crashed message, s) => (.error (.taskFailed (Reply.crashDetail message)), s)
        | (.ok true, s) => (.ok (some secret), s)
        | (.ok false, s₂) => services.unlock path true s₂ := by
  rw [unlock]
  split <;> rename_i hAsk <;> simp only [hAsk]
  split <;> rename_i hVerify <;> simp only [hVerify]

/-! ### The search for a key file -/

variable (request : AuthRequest) (write : Exchange → α)

/-- What the exchanges about a missing key file lead to. Either there is a key file in the end, and the
dialogue goes on, or they settle how authentication ends. Every round uses up a choice. -/
def KeySought (start : σ) (exchanges : List Exchange) : Except VaultError Bool × σ → Prop
  | (.ok true, s) =>
    services.keyPresent request.keyPath s = true ∧ Unsettled request exchanges ∧
      (∀ rest, KeyDialogue request.keyPath rest → KeyDialogue request.keyPath (exchanges ++ rest)) ∧
      exchanges.length + 2 * services.supply s ≤ 2 * services.supply start
  | (.ok false, _) =>
    Settled request exchanges (.ok .cancelled) ∧ KeyDialogue request.keyPath exchanges ∧
      exchanges.length ≤ 2 * services.supply start + 1
  | (.error e, _) =>
    Settled request exchanges (.error e) ∧ KeyDialogue request.keyPath exchanges ∧
      exchanges.length ≤ 2 * services.supply start + 1

/-- A round that provides no key file yet comes before what the next rounds lead to. -/
theorem KeySought.round {services : AuthServices σ} {request : AuthRequest} {start next : σ}
    {exchanges : List Exchange} {run : Except VaultError Bool × σ} (choice : KeyChoice) (there : Bool)
    (hChoice : choice ≠ .cancel) (hSupply : services.supply next < services.supply start)
    (h : services.KeySought request next exchanges run) :
    services.KeySought request start
      (⟨false, .chose (.ok choice)⟩ :: ⟨there, .provisioned choice request.keyPath (.ok ())⟩ :: exchanges)
      run := by
  have hRound : Unsettled request
      [⟨false, .chose (.ok choice)⟩, ⟨there, .provisioned choice request.keyPath (.ok ())⟩] := by
    cases choice <;> simp_all [Unsettled, Interaction.ending]
  obtain ⟨result, s⟩ := run
  -- the round stands in front of whatever the search comes to, and its two exchanges cost one of the supply
  cases result with
  | error e =>
      obtain ⟨hSettled, hForm, hLength⟩ := h
      refine ⟨hSettled.append hRound, .provision choice there _ hForm, ?_⟩
      simp only [List.length_cons]
      omega
  | ok found =>
      cases found with
      | false =>
          obtain ⟨hSettled, hForm, hLength⟩ := h
          refine ⟨hSettled.append hRound, .provision choice there _ hForm, ?_⟩
          simp only [List.length_cons]
          omega
      | true =>
          obtain ⟨hPresent, hUnsettled, hForm, hLength⟩ := h
          refine ⟨hPresent, ?_, fun rest hRest => .provision choice there _ (hForm rest hRest), ?_⟩
          · exact List.forall_mem_append.2 ⟨hRound, hUnsettled⟩
          · simp only [List.length_cons]
            omega

/-- The logged search for a key does what the search does, and its log is a search that ended so. -/
theorem ensureKey_logged (t : Logged α σ) :
    ∃ exchanges,
      (services.logged request.keyPath write).ensureKey request.keyPath t =
        t.extend write exchanges (services.ensureKey request.keyPath t.state) ∧
      services.KeySought request t.state exchanges (services.ensureKey request.keyPath t.state) := by
  -- each round of questions takes from what the user still has to say, so the rounds come to an end
  induction hSupply : services.supply t.state using Nat.strongRecOn generalizing t with
  | ind supply ih =>
      subst hSupply
      rw [ensureKey_eq services, ensureKey_eq (services.logged request.keyPath write)]
      have hPresent : (services.logged request.keyPath write).keyPresent request.keyPath t =
          services.keyPresent request.keyPath t.state := rfl
      rw [hPresent]
      cases hThere : services.keyPresent request.keyPath t.state with
      | true => exact ⟨[], by simp [Logged.extend], by simp [KeySought, hThere, Unsettled]⟩
      | false =>
          rw [if_neg Bool.false_ne_true, if_neg Bool.false_ne_true]
          rcases hChoose : services.choose t.state with ⟨answer, s₁⟩
          have hAsked : (services.logged request.keyPath write).choose t =
              (answer, ⟨t.log ++ [write ⟨false, .chose answer⟩], s₁⟩) := by
            simp [logged, Logged.note, hChoose, hThere]
          rw [hAsked]
          cases answer with
          | error e =>
              exact ⟨[⟨false, .chose (.error e)⟩], rfl, .single rfl, .choose _, by simp⟩
          | ok choice =>
              by_cases hChoice : choice = .cancel
              · subst hChoice
                exact ⟨[⟨false, .chose (.ok .cancel)⟩], rfl, .single rfl, .choose _, by simp⟩
              · have hLess := services.choose_lt _ _ _ hChoose hChoice
                simp only [if_neg hChoice]
                rcases hProvision : services.provision choice request.keyPath s₁ with ⟨done, s₂⟩
                let there := services.keyPresent request.keyPath s₁
                have hProvided : (services.logged request.keyPath write).provision choice request.keyPath
                    ⟨t.log ++ [write ⟨false, .chose (.ok choice)⟩], s₁⟩ =
                      (done, ⟨t.log ++ [write ⟨false, .chose (.ok choice)⟩] ++
                        [write ⟨there, .provisioned choice request.keyPath done⟩], s₂⟩) := by
                  simp [logged, Logged.note, hProvision, there]
                rw [hProvided]
                cases done with
                | error e =>
                    refine ⟨[⟨false, .chose (.ok choice)⟩,
                      ⟨there, .provisioned choice request.keyPath (.error e)⟩], ?_, ?_, ?_, ?_⟩
                    · simp [Logged.extend]
                    · refine .cons ?_ (.single rfl)
                      cases choice <;> simp_all [Unsettled, Interaction.ending]
                    · exact .provision choice there _ .stop
                    · simp only [List.length_cons, List.length_nil]
                      omega
                | ok =>
                    have hNext : services.supply s₂ < services.supply t.state :=
                      Nat.lt_of_le_of_lt (services.provision_le _ _ _ _ hProvision) hLess
                    obtain ⟨exchanges, hRun, hSought⟩ := ih _ hNext
                      ⟨t.log ++ [write ⟨false, .chose (.ok choice)⟩] ++
                        [write ⟨there, .provisioned choice request.keyPath (.ok ())⟩], s₂⟩ rfl
                    refine ⟨_, ?_, hSought.round choice there hChoice hNext⟩
                    simp only [hRun, Logged.extend]
                    simp

/-! ### The questions for a passphrase -/

/-- What the questions for a passphrase lead to. Every round uses up an answer. -/
def KeyUnlocked (again : Bool) (start : σ) (exchanges : List Exchange) :
    Except VaultError (Option String) × σ → Prop
  | (result, _) =>
    Unlocking request.keyPath again exchanges ∧
      Settled request exchanges (result.map fun
        | some secret => .authenticated (.sshKey request.keyPath request.username secret)
        | none => .cancelled) ∧
      exchanges.length ≤ 2 * services.supply start + 1

/-- A round with a wrong answer comes before what the next rounds lead to. -/
theorem KeyUnlocked.round {services : AuthServices σ} {request : AuthRequest} {start next : σ}
    {exchanges : List Exchange} {run : Except VaultError (Option String) × σ}
    (hMode : request.mode = .sshKey) (again there there' : Bool) (secret : String)
    (hSupply : services.supply next < services.supply start)
    (h : services.KeyUnlocked request true next exchanges run) :
    services.KeyUnlocked request again start
      (⟨there, .asked (passphrasePrompt request.keyPath again) (.ok (some secret))⟩ ::
        ⟨there', .verified request.keyPath secret (.ok false)⟩ :: exchanges) run := by
  obtain ⟨hUnlocking, hSettled, hLength⟩ := h
  refine ⟨.verify again there there' secret (.ok false) hUnlocking, .cons ?_ (.cons ?_ hSettled), ?_⟩
  · simp [Unsettled, Interaction.ending, hMode]
  · simp [Unsettled, Interaction.ending, Reply.awaited]
  · simp only [List.length_cons]
    omega

/-- Logged unlocking does what unlocking does, and its log is an unlocking that ended so. -/
theorem unlock_logged (hMode : request.mode = .sshKey) (again : Bool) (t : Logged α σ) :
    ∃ exchanges,
      (services.logged request.keyPath write).unlock request.keyPath again t =
        t.extend write exchanges (services.unlock request.keyPath again t.state) ∧
      services.KeyUnlocked request again t.state exchanges
        (services.unlock request.keyPath again t.state) := by
  -- as in the search for a key: each passphrase that is tried was taken from the supply
  induction hSupply : services.supply t.state using Nat.strongRecOn generalizing t again with
  | ind supply ih =>
      subst hSupply
      rw [unlock_eq services, unlock_eq (services.logged request.keyPath write)]
      let prompt := passphrasePrompt request.keyPath again
      let there := services.keyPresent request.keyPath t.state
      rcases hAsk : services.ask prompt t.state with ⟨answer, s₁⟩
      have hAsked : (services.logged request.keyPath write).ask prompt t =
          (answer, ⟨t.log ++ [write ⟨there, .asked prompt answer⟩], s₁⟩) := by
        simp [logged, Logged.note, hAsk, there]
      rw [hAsked]
      cases answer with
      | error e =>
          exact ⟨[⟨there, .asked prompt (.error e)⟩], rfl, .ask again there _, .single rfl, by simp⟩
      | ok entered =>
          cases entered with
          | none =>
              exact ⟨[⟨there, .asked prompt (.ok none)⟩], rfl, .ask again there _, .single rfl, by simp⟩
          | some secret =>
              have hLess := services.ask_lt _ _ _ _ hAsk
              dsimp only
              rcases hVerify : services.verify request.keyPath secret s₁ with ⟨verdict, s₂⟩
              let there' := services.keyPresent request.keyPath s₁
              have hVerified : (services.logged request.keyPath write).verify request.keyPath secret
                  ⟨t.log ++ [write ⟨there, .asked prompt (.ok (some secret))⟩], s₁⟩ =
                    (verdict, ⟨t.log ++ [write ⟨there, .asked prompt (.ok (some secret))⟩] ++
                      [write ⟨there', .verified request.keyPath secret verdict⟩], s₂⟩) := by
                simp [logged, Logged.note, hVerify, there']
              rw [hVerified]
              have hAnswered : Unsettled request [⟨there, .asked prompt (.ok (some secret))⟩] := by
                simp [Unsettled, Interaction.ending, hMode]
              have hEnd {result : Except VaultError Resolution}
                  (hResult : (Interaction.verified request.keyPath secret verdict).ending request =
                    some result) :
                  Settled request [⟨there, .asked prompt (.ok (some secret))⟩,
                    ⟨there', .verified request.keyPath secret verdict⟩] result :=
                .cons hAnswered (.single hResult)
              have hForm : Unlocking request.keyPath again
                  [⟨there, .asked prompt (.ok (some secret))⟩,
                    ⟨there', .verified request.keyPath secret verdict⟩] :=
                .verify again there there' secret verdict (.stop true)
              have hLength : 2 ≤ 2 * services.supply t.state + 1 := by omega
              cases verdict with
              | error e => exact ⟨_, by simp [Logged.extend], hForm, hEnd rfl, hLength⟩
              | crashed message => exact ⟨_, by simp [Logged.extend], hForm, hEnd rfl, hLength⟩
              | ok opened =>
                  cases opened with
                  | true => exact ⟨_, by simp [Logged.extend], hForm, hEnd rfl, hLength⟩
                  | false =>
                      have hNext : services.supply s₂ < services.supply t.state :=
                        Nat.lt_of_le_of_lt (services.verify_le _ _ _ _ _ hVerify) hLess
                      obtain ⟨exchanges, hRun, hUnlocked⟩ := ih _ hNext true
                        ⟨t.log ++ [write ⟨there, .asked prompt (.ok (some secret))⟩] ++
                          [write ⟨there', .verified request.keyPath secret (.ok false)⟩], s₂⟩ rfl
                      refine ⟨_, ?_, hUnlocked.round hMode again there there' secret hNext⟩
                      simp only [hRun, Logged.extend]
                      simp [prompt]

/-! ### Whole runs -/

/-- Looking at the protection of a key file brings no new answers. -/
def ChecksFreely : Prop :=
  ∀ path s, services.supply (services.isEncrypted path s).2 ≤ services.supply s

/-- What the exchanges of a whole run amount to: they have the form of the request's dialogue, and they go
on exactly until one of them settles the result. There are at most two for every answer that was to be
had, and two more. -/
structure Conversed (start : σ) (exchanges : List Exchange) (result : Except VaultError Resolution) :
    Prop where
  form : Dialogue request exchanges
  settled : Settled request exchanges result
  length_le : services.ChecksFreely → exchanges.length ≤ 2 * services.supply start + 2

/-- Behind the search for a key file its protection is looked at, which may settle the result. -/
theorem KeySought.checked {services : AuthServices σ} {request : AuthRequest} {start s : σ}
    {sought : List Exchange} (hMode : request.mode = .sshKey)
    (h : services.KeySought request start sought (.ok true, s)) (protection : Reply VaultError Bool)
    {result : Except VaultError Resolution}
    (hResult : (Interaction.checkedProtection request.keyPath protection).ending request = some result) :
    services.Conversed request start
      (sought ++ [⟨true, .checkedProtection request.keyPath protection⟩]) result := by
  obtain ⟨-, hUnsettled, hForm, hLength⟩ := h
  refine ⟨?_, .append hUnsettled (.single hResult), fun _ => ?_⟩
  · simpa only [Dialogue, hMode] using hForm _ (.check protection)
  · simp only [List.length_append, List.length_cons, List.length_nil]
    omega

/-- Behind a look that finds the key file protected come the questions for its passphrase. -/
theorem KeySought.unlocked {services : AuthServices σ} {request : AuthRequest} {start s next : σ}
    {sought asked : List Exchange} {run : Except VaultError (Option String) × σ}
    (hMode : request.mode = .sshKey) (h : services.KeySought request start sought (.ok true, s))
    (hSupply : services.ChecksFreely → services.supply next ≤ services.supply s)
    (hUnlocked : services.KeyUnlocked request false next asked run)
    {result : Except VaultError Resolution} (hResult : result = run.1.map fun
      | some secret => .authenticated (.sshKey request.keyPath request.username secret)
      | none => .cancelled) :
    services.Conversed request start
      (sought ++ ⟨true, .checkedProtection request.keyPath (.ok true)⟩ :: asked) result := by
  obtain ⟨-, hUnsettled, hForm, hLength⟩ := h
  obtain ⟨hUnlocking, hSettled, hAsked⟩ := hUnlocked
  refine ⟨?_, .append hUnsettled (.cons ?_ (hResult ▸ hSettled)), fun hFree => ?_⟩
  · simpa only [Dialogue, hMode] using hForm _ (.unlock hUnlocking)
  · simp [Unsettled, Interaction.ending, Reply.awaited]
  · have := hSupply hFree
    simp only [List.length_append, List.length_cons]
    omega

/-- A logged resolution does what the resolution does, and its log is a conversation that ended so. -/
theorem resolveKey_logged (hMode : request.mode = .sshKey) (t : Logged α σ) :
    ∃ exchanges,
      (services.logged request.keyPath write).resolveKey request t =
        t.extend write exchanges (services.resolveKey request t.state) ∧
      services.Conversed request t.state exchanges (services.resolveKey request t.state).1 := by
  obtain ⟨sought, hRun, hSought⟩ := services.ensureKey_logged request write t
  rw [resolveKey, resolveKey, hRun]
  rcases hEnsure : services.ensureKey request.keyPath t.state with ⟨answer, s⟩
  rw [hEnsure] at hSought
  have hEnd {result : Except VaultError Resolution} (hSettled : Settled request sought result)
      (hForm : KeyDialogue request.keyPath sought)
      (hLength : sought.length ≤ 2 * services.supply t.state + 1) :
      services.Conversed request t.state sought result :=
    ⟨by simpa only [Dialogue, hMode] using hForm, hSettled, fun _ => Nat.le_succ_of_le hLength⟩
  cases answer with
  | error e =>
      obtain ⟨hSettled, hForm, hLength⟩ := hSought
      exact ⟨sought, rfl, hEnd hSettled hForm hLength⟩
  | ok found =>
      cases found with
      | false =>
          obtain ⟨hSettled, hForm, hLength⟩ := hSought
          exact ⟨sought, rfl, hEnd hSettled hForm hLength⟩
      | true =>
          simp only [Logged.extend]
          rcases hCheck : services.isEncrypted request.keyPath s with ⟨protection, s₁⟩
          have hChecked : (services.logged request.keyPath write).isEncrypted request.keyPath
              ⟨t.log ++ sought.map write, s⟩ =
                (protection, ⟨t.log ++ sought.map write ++
                  [write ⟨true, .checkedProtection request.keyPath protection⟩], s₁⟩) := by
            simp [logged, Logged.note, hCheck, hSought.1]
          rw [hChecked]
          cases protection with
          | error e => exact ⟨_, by simp, hSought.checked hMode (.error e) rfl⟩
          | crashed message => exact ⟨_, by simp, hSought.checked hMode (.crashed message) rfl⟩
          | ok encrypted =>
              cases encrypted with
              | false => exact ⟨_, by simp, hSought.checked hMode (.ok false) rfl⟩
              | true =>
                  obtain ⟨asked, hUnlock, hUnlocked⟩ := services.unlock_logged request write hMode false
                    ⟨t.log ++ sought.map write ++
                      [write ⟨true, .checkedProtection request.keyPath (.ok true)⟩], s₁⟩
                  have hSupply : services.ChecksFreely → services.supply s₁ ≤ services.supply s := by
                    intro hFree
                    have := hFree request.keyPath s
                    rwa [hCheck] at this
                  dsimp only at hUnlock hUnlocked ⊢
                  rw [hUnlock]
                  refine ⟨sought ++ ⟨true, .checkedProtection request.keyPath (.ok true)⟩ :: asked, ?_,
                    hSought.unlocked hMode hSupply hUnlocked ?_⟩
                  · rcases services.unlock request.keyPath false s₁ with ⟨answer, s₂⟩
                    cases answer with
                    | error e => simp [Logged.extend]
                    | ok entered => cases entered <;> simp [Logged.extend]
                  · rcases services.unlock request.keyPath false s₁ with ⟨answer, s₂⟩
                    cases answer with
                    | error e => rfl
                    | ok entered => cases entered <;> rfl

/-- Authentication and the exchanges it consists of. -/
theorem resolve_dialogue (t : Logged α σ) :
    ∃ exchanges,
      (services.logged request.keyPath write).resolve request t =
        t.extend write exchanges (services.resolve request t.state) ∧
      services.Conversed request t.state exchanges (services.resolve request t.state).1 := by
  rw [resolve, resolve]
  cases hMode : request.mode with
  | sshKey => exact services.resolveKey_logged request write hMode t
  | password =>
      let prompt := passwordPrompt request.username
      let there := services.keyPresent request.keyPath t.state
      rcases hAsk : services.ask prompt t.state with ⟨answer, s₁⟩
      have hAsked : (services.logged request.keyPath write).ask prompt t =
          (answer, ⟨t.log ++ [write ⟨there, .asked prompt answer⟩], s₁⟩) := by
        simp [logged, Logged.note, hAsk, there]
      have hEnd {result : Except VaultError Resolution}
          (hResult : (Interaction.asked prompt answer).ending request = some result) :
          services.Conversed request t.state [⟨there, .asked prompt answer⟩] result := by
        refine ⟨?_, .single hResult, fun _ => by simp⟩
        rw [Dialogue, hMode]
        exact ⟨there, answer, rfl⟩
      dsimp only
      rw [resolvePassword, resolvePassword, hAsk, hAsked]
      cases answer with
      | error e => exact ⟨_, rfl, hEnd rfl⟩
      | ok entered =>
          cases entered with
          | none => exact ⟨_, rfl, hEnd rfl⟩
          | some secret => exact ⟨_, rfl, hEnd (by simp [Interaction.ending, hMode])⟩

end AuthServices

end VaultSync
