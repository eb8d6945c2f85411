import VaultSync.Cli.Run
import VaultSync.Proofs.Auth.Replay
import VaultSync.Proofs.Cli.Lines
import VaultSync.Proofs.Sync.Gate

/-! Questions at the terminal. Each one takes the next line of what is typed. At the end of input there is no
line: the menu and the questions for a secret then count as dismissed, but the question for the path of a key
to import fails. -/
namespace VaultSync

/-! ### Single questions -/

/-- What a line of input is read for. -/
inductive Question
  | menu
  /-- The path of a key to import. -/
  | keyPath
  /-- A passphrase or a password. -/
  | secret
deriving DecidableEq, Repr

/-- The question that an interaction puts to the user. -/
def Interaction.question? : Interaction → Option Question
  | chose _ => some .menu
  | provisioned .importFile _ _ => some .keyPath
  | provisioned .generate _ _ | provisioned .cancel _ _ => none
  | asked _ _ => some .secret
  | checkedProtection _ _ | verified _ _ _ => none

/-- How many lines exchanges have read. -/
def questionsIn (exchanges : List Exchange) : Nat :=
  exchanges.countP fun exchange => exchange.interaction.question?.isSome

namespace Cli.Machine

open Bytes (utf8)
open Text (typedLines)

variable {keygen : Ssh.Keygen} {start s next : Machine} {interaction : Interaction} {question : Question}
  {cs : List Char} {exchanges : List Exchange}

/-- The failure of an import without a path. -/
def noPath : VaultError :=
  .keyProvisioning "no key path entered"

/-- The answer to a question is what is made of a line, or of the end of input. -/
def Hears (line : Option String) (files : Files) : Interaction → Prop
  | .chose answer => answer = .ok (selection line)
  | .provisioned _ path answer =>
    answer = match line with
      | none => .error noPath
      | some line => (importKey (Text.trim line) path files).1
  | .asked _ answer => answer = .ok line
  | .checkedProtection _ _ | .verified _ _ _ => False

/-- A question takes the next line, and is answered by it. At the end of input nothing is made. -/
theorem hears_of_uses (hInput : s.input = utf8 cs) (hQuestion : interaction.question? = some question)
    (hUse : (services keygen).Uses s interaction next) :
    Hears (typedLines cs).head? s.files interaction ∧
      (∃ rest, typedLines rest = (typedLines cs).tail ∧ next.input = utf8 rest) ∧
      ((typedLines cs).head? = none → next.host = s.host) := by
  -- the menu, a secret and the path of a key to import are each one line; nothing else is a question
  cases interaction with
  | chose answer =>
      obtain ⟨rest, hRest, hRead⟩ := readLine_utf8 (m := s.complain menu) hInput
      have hChosen : s.choose = (answer, next) := hUse
      rw [choose, hRead] at hChosen
      obtain ⟨rfl, rfl⟩ := Prod.mk.inj hChosen
      exact ⟨rfl, ⟨rest, hRest, rfl⟩, fun _ => rfl⟩
  | asked prompt answer =>
      have hAsked : s.ask prompt = (answer, next) := hUse
      obtain ⟨rest, hRest, hRead⟩ := readLine_utf8 (m := s.complain _) hInput
      rw [ask, hRead] at hAsked
      obtain ⟨rfl, rfl⟩ := Prod.mk.inj hAsked
      exact ⟨rfl, ⟨rest, hRest, rfl⟩, fun _ => rfl⟩
  | provisioned choice path answer =>
      cases choice with
      | generate => cases hQuestion
      | cancel => cases hQuestion
      | importFile =>
          obtain ⟨rest, hRest, hRead⟩ := readLine_utf8 (m := s.complain keyPathQuestion) hInput
          have hProvided : s.provision keygen .importFile path = (answer, next) := hUse
          rw [provision, hRead] at hProvided
          cases hLine : (typedLines cs).head? with
          | none =>
              rw [hLine] at hProvided
              obtain ⟨rfl, rfl⟩ := Prod.mk.inj hProvided
              exact ⟨rfl, ⟨rest, hRest, rfl⟩, fun _ => rfl⟩
          | some line =>
              rw [hLine] at hProvided
              obtain ⟨rfl, rfl⟩ := Prod.mk.inj hProvided
              exact ⟨rfl, ⟨rest, hRest, rfl⟩, fun hNone => absurd hNone (Option.some_ne_none line)⟩
  | checkedProtection path answer => cases hQuestion
  | verified path secret answer => cases hQuestion

/-- Without a question no input is read. -/
theorem input_of_uses (hQuestion : interaction.question? = none)
    (hUse : (services keygen).Uses s interaction next) : next.input = s.input := by
  cases interaction with
  | chose answer => cases hQuestion
  | asked prompt answer => cases hQuestion
  | checkedProtection path answer => exact (congrArg (·.2.input) hUse).symm
  | verified path secret answer => exact (congrArg (·.2.input) hUse).symm
  | provisioned choice path answer =>
      cases choice with
      | importFile => cases hQuestion
      | generate => exact (congrArg (·.2.input) hUse).symm
      | cancel => exact (congrArg (·.2.input) hUse).symm

/-- Exchanges take a line each, but for those that put no question. -/
theorem input_of_leads (hInput : start.input = utf8 cs) (h : (services keygen).Leads start exchanges s) :
    ∃ rest, typedLines rest = (typedLines cs).drop (questionsIn exchanges) ∧ s.input = utf8 rest := by
  induction h with
  | none => exact ⟨cs, rfl, hInput⟩
  | @use exchanges exchange s next hBefore hUse ih =>
      obtain ⟨rest, hLines, hRest⟩ := ih
      rw [questionsIn, List.countP_append, List.countP_singleton, ← questionsIn]
      cases hQuestion : exchange.interaction.question? with
      | none => exact ⟨rest, hLines, (input_of_uses hQuestion hUse).trans hRest⟩
      | some question =>
          obtain ⟨-, ⟨behind, hBehind, hNext⟩, -⟩ := hears_of_uses hRest hQuestion hUse
          refine ⟨behind, ?_, hNext⟩
          rw [hBehind, hLines, List.tail_drop]
          rfl

/-- How authentication ends when input ends at a question. -/
def dismissed : Question → Except VaultError Resolution
  | .menu | .secret => .ok .cancelled
  | .keyPath => .error noPath

/-- The end of input settles how authentication ends. -/
theorem ending_of_hears {request : AuthRequest} {files : Files}
    (hQuestion : interaction.question? = some question) (h : Hears none files interaction) :
    interaction.ending request = some (dismissed question) := by
  cases interaction with
  | chose answer =>
      obtain rfl : answer = .ok .cancel := h
      obtain rfl := Option.some.inj hQuestion
      rfl
  | asked prompt answer =>
      obtain rfl : answer = .ok none := h
      obtain rfl := Option.some.inj hQuestion
      rfl
  | provisioned choice path answer =>
      obtain rfl : answer = .error noPath := h
      cases choice with
      | importFile =>
          obtain rfl := Option.some.inj hQuestion
          rfl
      | generate => cases hQuestion
      | cancel => cases hQuestion
  | checkedProtection path answer => cases hQuestion
  | verified path secret answer => cases hQuestion

theorem dismissed_ne_authenticated (question : Question) (credential : Credential) :
    dismissed question ≠ .ok (.authenticated credential) := by
  cases question <;> nofun

end Cli.Machine

/-- Only the last of some exchanges settles how authentication ends. -/
theorem Settled.behind {request : AuthRequest} {before behind : List Exchange} {exchange : Exchange}
    {result ending : Except VaultError Resolution}
    (h : Settled request (before ++ exchange :: behind) result)
    (hEnding : exchange.interaction.ending request = some ending) : behind = [] ∧ ending = result := by
  obtain ⟨front, last, hAll, hFront, hLast⟩ := h
  cases behind using List.reverseRecOn with
  | nil =>
      obtain ⟨rfl, hSame⟩ := List.append_inj' hAll rfl
      obtain rfl := List.singleton_inj.1 hSame
      exact ⟨rfl, Option.some.inj (hEnding.symm.trans hLast)⟩
  | append_singleton behind other =>
      rw [← List.cons_append, ← List.append_assoc] at hAll
      obtain ⟨rfl, -⟩ := List.append_inj' hAll rfl
      have hNone := hFront exchange (by simp)
      cases hNone.symm.trans hEnding

/-- For a password there is one question. -/
theorem Dialogue.of_password {request : AuthRequest} {exchanges : List Exchange}
    (h : Dialogue request exchanges) (hMode : request.mode = .password) :
    ∃ there answer, exchanges = [⟨there, .asked (AuthServices.passwordPrompt request.username) answer⟩] := by
  simpa only [Dialogue, hMode] using h

/-! ### Runs of a service -/

namespace ServiceRun

variable {σ : Type} (services : AuthServices σ) (backend : Backend σ) (run : ServiceRun σ) (s : σ)

/-- What is written down of a run are exchanges that lead to where authentication ends, and behind them what
follows a credential. -/
theorem account_leads :
    ∃ exchanges entries,
      (run.account services backend s).log = exchanges.map .exchanged ++ entries.map .entered ∧
      services.Leads s exchanges (services.resolve run.request s).2 ∧
      Dialogue run.request exchanges ∧ Settled run.request exchanges (services.resolve run.request s).1 ∧
      ((∀ credential, (services.resolve run.request s).1 ≠ .ok (.authenticated credential)) →
        entries = []) := by
  have hInjective : Function.Injective Happening.exchanged := fun _ _ => Happening.exchanged.inj
  obtain ⟨exchanges, hLogged, hLeads, hForm, hSettled⟩ := services.resolve_leads run.request hInjective s
  by_cases hNone : ∀ credential, (services.resolve run.request s).1 ≠ .ok (.authenticated credential)
  · obtain ⟨-, hAccount⟩ := account_of_unauthenticated services backend rfl hLogged hNone
    exact ⟨exchanges, [], by simp [hAccount], hLeads, hForm, hSettled, fun _ => rfl⟩
  · obtain ⟨credential, hCredential⟩ := not_forall_not.1 hNone
    rw [hCredential] at hLogged
    obtain ⟨entries, -, hAccount⟩ := account_of_authenticated services backend hLogged
    exact ⟨exchanges, entries, by rw [hAccount], hLeads, hForm, hSettled, fun h => absurd h hNone⟩

/-- Without a credential a run ends where authentication does. -/
theorem perform_of_unauthenticated {resolved : Except VaultError Resolution}
    (h : (services.resolve run.request s).1 = resolved)
    (hNone : ∀ credential, resolved ≠ .ok (.authenticated credential)) :
    run.perform services backend s =
      (resolved.map fun _ => .cancelled, (services.resolve run.request s).2) := by
  subst h
  rw [perform, executeAfterAuthentication, AuthServices.resolveThen]
  generalize services.resolve run.request s = ended at hNone ⊢
  rcases ended with ⟨e | credential | _, s'⟩
  · rfl
  · exact absurd rfl (hNone credential)
  · rfl

end ServiceRun

/-! ### Whole runs -/

namespace Cli

variable {around : Surroundings} {dataDir : String} {config : Config} {files : Files} {task : Task}
  {serviceRun : ServiceRun Machine} {json : Bool} {m : Machine}

/-- What a task with the remote asks the service for, where the store is as the task needs it: vacant for a
clone, and there for all else. -/
inductive Serves (around : Surroundings) (dataDir : String) (config : Config) (files : Files) :
    Task → ServiceRun Machine → Prop
  | clone (url : String) (hVacant : checkVacant (config.storeDir dataDir) files = .ok ()) :
      Serves around dataDir config files (.clone url)
        ⟨config.authRequest dataDir, .clone url (config.storeDir dataDir),
          Machine.filesPart.hooks (cloneCleanup (config.storeDir dataDir))⟩
  | store (task : StoreTask) (hStore : checkStore (config.storeDir dataDir) files = .ok ()) :
      Serves around dataDir config files (.store task)
        ⟨config.authRequest dataDir, task.operation around.now config, .silent⟩

/-- The end of a run whose outcome is reported. -/
def finish (json : Bool) : Except VaultError SyncOutcome × Machine → Finish
  | (.error e, m) => (.error e, m)
  | (.ok outcome, m) => (.ok outcome.exitCode, m.report json outcome)

/-- An operation on the command line is one run of the service, with its end reported. -/
theorem runOperation_eq (keygen : Ssh.Keygen) (hooks : Hooks Machine) (operation : Operation) (m : Machine) :
    runOperation keygen dataDir config json hooks operation m =
      finish json ((⟨config.authRequest dataDir, operation, hooks⟩ : ServiceRun Machine).perform
        (Machine.services keygen) (storeBackend config dataDir) m) := by
  rw [runOperation, ServiceRun.perform]
  rcases executeAfterAuthentication _ _ hooks _ operation m with ⟨e | outcome, m'⟩ <;> rfl

/-- What a task with the remote writes before it begins. -/
def announced (around : Surroundings) (config : Config) (json : Bool) : Task → Machine → Machine
  | .clone url, m => m.headline json ("Cloning " ++ url)
  | .store task, m =>
    (if json then m else m.print (task.notice around.now config)).headline json
      ("passync " ++ (task.operation around.now config).kind.display)
  | .setUp .., m | .keys _, m | .insert _, m | .reveal _, m => m

theorem host_announced (task : Task) (m : Machine) : (announced around config json task m).host = m.host := by
  cases task <;> cases json <;> rfl

theorem input_announced (task : Task) (m : Machine) :
    (announced around config json task m).input = m.input := by
  cases task <;> cases json <;> rfl

/-- A task with the remote writes headlines and then does what it asks the service for. -/
theorem Serves.perform (h : Serves around dataDir config m.files task serviceRun)
    (hConfig : Config.load m.files dataDir = .ok config) (json : Bool) :
    Cli.perform around dataDir json task m =
      finish json (serviceRun.perform (Machine.services around.keygen) (storeBackend config dataDir)
        (announced around config json task m)) := by
  cases h with
  | clone url hVacant =>
      rw [Cli.perform, cloneStore, hConfig]
      dsimp only
      rw [hVacant]
      exact runOperation_eq ..
  | store task hStore =>
      rw [Cli.perform, onStore, hConfig]
      dsimp only
      rw [hStore]
      exact runOperation_eq ..

/-- What input that ends at a question makes of a run. -/
def leave (json : Bool) (next : Machine) : Question → Nat × Machine
  | .menu | .secret => (130, next.report json .cancelled)
  | .keyPath => (failureCode, next.complain (Printed.error ("Error: " ++ Machine.noPath.message)))

/-- Each question of a run with the remote takes the next line of what was typed, the line breaks at its end
aside, and is answered by it. If there is no line left nothing follows: no command and no hook is run, and
the files and repositories are those at the question. The run then ends as cancelled at the menu and at a
question for a secret, but fails at the question for the path of a key to import. -/
theorem run_questions (around : Surroundings) (args : List String) (m : Machine) (text : String)
    {invocation : Invocation} (hArgs : readArguments around.dataDir args = .ok invocation)
    (hDir : invocation.dataDir.getD around.defaultDataDir = dataDir)
    (hConfig : Config.load m.files dataDir = .ok config)
    (hServes : Serves around dataDir config m.files invocation.task serviceRun)
    (hInput : m.input = text.toUTF8.toList) :
    let services := Machine.services around.keygen
    let backend := storeBackend config dataDir
    let begun := announced around config invocation.json invocation.task m
    run around args m = conclude (finish invocation.json (serviceRun.perform services backend begun)) ∧
    ∃ exchanges entries,
      (serviceRun.account services backend begun).log = exchanges.map .exchanged ++ entries.map .entered ∧
      Dialogue serviceRun.request exchanges ∧
      ∀ before exchange behind question, exchanges = before ++ exchange :: behind →
        exchange.interaction.question? = some question →
        let line := (Text.typedLines text.toList)[questionsIn before]?
        ∃ s next, services.Leads begun before s ∧ services.Uses s exchange.interaction next ∧
          Machine.Hears line s.files exchange.interaction ∧
          (line = none → behind = [] ∧ entries = [] ∧ next.host = s.host ∧
            run around args m = leave invocation.json next question) := by
  intro services backend begun
  have hRun : run around args m =
      conclude (finish invocation.json (serviceRun.perform services backend begun)) := by
    subst hDir
    rw [run, hArgs]
    exact congrArg conclude (hServes.perform hConfig invocation.json)
  obtain ⟨exchanges, entries, hLog, hLeads, hForm, hSettled, hEntries⟩ :=
    serviceRun.account_leads services backend begun
  refine ⟨hRun, exchanges, entries, hLog, hForm, ?_⟩
  rintro before exchange behind question rfl hQuestion line
  obtain ⟨s, next, hBefore, hUse, hLast⟩ := hLeads.split
  have hBegun : begun.input = Bytes.utf8 text.toList := by
    rw [input_announced, hInput, Bytes.toList_toUTF8]
  obtain ⟨rest, hLines, hRest⟩ := Machine.input_of_leads hBegun hBefore
  obtain ⟨hHears, -, hHost⟩ := Machine.hears_of_uses hRest hQuestion hUse
  have hLine : (Text.typedLines rest).head? = line := by rw [hLines, List.head?_drop]
  rw [hLine] at hHears hHost
  refine ⟨s, next, hBefore, hUse, hHears, fun hNone => ?_⟩
  rw [hNone] at hHears
  -- a dismissed question settles the request, so it is the last one and the run never begins
  obtain ⟨hBehind, hEnd⟩ := hSettled.behind (Machine.ending_of_hears hQuestion hHears)
  have hUnauthenticated := Machine.dismissed_ne_authenticated question
  refine ⟨hBehind, hEntries (hEnd ▸ hUnauthenticated), hHost hNone, ?_⟩
  rw [hRun, serviceRun.perform_of_unauthenticated services backend begun hEnd.symm hUnauthenticated,
    ← hLast hBehind]
  cases question <;> rfl

/-- A data directory with a configuration that says how to connect, and what is typed. -/
def vaultTyping (mode typed : String) : Machine where
  host :=
    { files :=
        { workDir := []
          entries := [(["data"], .directory), (["data", "config.toml"],
            .file ("[connection]\nmode = \"" ++ mode ++ "\"\n").toUTF8 Files.defaultMode)] }
      repositories := [] }
  entropy := ⟨.empty, 0⟩
  input := typed.toUTF8.toList
  out := .empty
  err := .empty

/-- Where the example is run. -/
def atHome : Surroundings :=
  ⟨⟨true⟩, Moment.ofSeconds 0, some "/data", none⟩

/-- Without input the question for a password cancels a clone. -/
theorem run_questions_password :
    let m := vaultTyping "password" ""
    ∃ next : Machine, next.host = m.host ∧
      run atHome ["clone", "/nowhere"] m = (130, next.report false .cancelled) := by
  intro m
  obtain ⟨config, hConfig, hMode, hVacant⟩ : ∃ config, Config.load m.files "/data" = .ok config ∧
      (config.authRequest "/data").mode = .password ∧ checkVacant (config.storeDir "/data") m.files = .ok () :=
    ⟨{ Config.default with connection := ⟨"password", "git", ".ssh_key"⟩ }, by decide +kernel⟩
  have hArgs : readArguments atHome.dataDir ["clone", "/nowhere"] =
      .ok ⟨some "/data", false, .clone "/nowhere"⟩ := rfl
  obtain ⟨-, exchanges, entries, -, hForm, hQuestions⟩ :=
    run_questions atHome ["clone", "/nowhere"] m "" hArgs rfl hConfig (.clone "/nowhere" hVacant) rfl
  obtain ⟨there, answer, rfl⟩ := hForm.of_password hMode
  obtain ⟨s, next, hBefore, -, -, hEnd⟩ := hQuestions [] _ [] .secret rfl rfl
  obtain ⟨-, -, hHost, hRun⟩ := hEnd rfl
  refine ⟨next, hHost.trans ?_, hRun⟩
  rw [hBefore.eq_of_nil, host_announced]

/-- At the menu the end of input cancels a clone. Behind the menu, at the question for the path of a key to
import, it is a failure. -/
theorem run_fails_without_path :
    let m := vaultTyping "ssh-key" "1\n"
    (run atHome ["clone", "/nowhere"] (vaultTyping "ssh-key" "")).1 = 130 ∧
      m.choose.1 = .ok .importFile ∧ m.choose.2.input = [] ∧ (run atHome ["clone", "/nowhere"] m).1 = 1 := by
  decide +kernel

end Cli

end VaultSync
