import VaultSync.Cli.Run
import VaultSync.Proofs.Age.File
import VaultSync.Proofs.Cli.Lines
import VaultSync.Proofs.Entries.Insertion

/-! Secrets that are typed and shown. What is typed loses the line breaks at its end and nothing else, and what
is shown gets one line break back, so that it can be typed again. -/
namespace VaultSync.Cli

open Files

variable {around : Surroundings} {args : List String} {dataDir name path : String} {files : Files} {m : Machine}
  {config : Config} {stored : List KeyPair} {secret : ByteArray}

/-! ### Typed secrets -/

/-- Input is a secret that ends in no line break, with line breaks behind it. -/
def Types (input : List UInt8) (secret : ByteArray) : Prop :=
  ∃ breaks, input = secret.toList ++ breaks ∧ (∀ b ∈ breaks, b = 10 ∨ b = 13) ∧
    ∀ b ∈ secret.toList.getLast?, b ≠ 10 ∧ b ≠ 13

theorem isLineBreak_iff {b : UInt8} : Machine.isLineBreak b = true ↔ b = 10 ∨ b = 13 := by
  simp [Machine.isLineBreak]

/-- What is read from the input is what was typed. -/
theorem types_typedSecret (input : List UInt8) : Types input (typedSecret input) := by
  rw [Types, typedSecret, Bytes.toList_toByteArray]
  induction input using List.reverseRecOn with
  | nil => exact ⟨[], rfl, by simp, by simp [Text.dropEndWhile]⟩
  | append_singleton input b ih =>
      rw [Text.dropEndWhile_concat]
      split
      · rename_i hBreak
        obtain ⟨breaks, hInput, hBreaks, hEnd⟩ := ih
        refine ⟨breaks ++ [b], by rw [← List.append_assoc, ← hInput], fun c hc => ?_, hEnd⟩
        rcases List.mem_append.1 hc with hc | hc
        · exact hBreaks c hc
        · exact List.mem_singleton.1 hc ▸ isLineBreak_iff.1 hBreak
      · rename_i hOther
        refine ⟨[], (List.append_nil _).symm, by simp, fun c hc => ?_⟩
        rw [List.getLast?_concat, Option.mem_some_iff] at hc
        rw [← hc]
        exact not_or.1 fun hBreak => hOther (isLineBreak_iff.2 hBreak)

/-- Only one secret can be meant. -/
theorem typedSecret_of_types {input : List UInt8} (h : Types input secret) : typedSecret input = secret := by
  obtain ⟨breaks, rfl, hBreaks, hEnd⟩ := h
  rw [typedSecret, Text.dropEndWhile_append fun b hb => isLineBreak_iff.2 (hBreaks b hb)]
  have hKept : Text.dropEndWhile Machine.isLineBreak secret.toList = secret.toList := by
    obtain hNil | ⟨front, last, hLast⟩ := List.eq_nil_or_concat' secret.toList
    · rw [hNil]
      rfl
    · rw [hLast, List.getLast?_concat] at hEnd
      rw [hLast, Text.dropEndWhile_concat, if_neg]
      exact fun hBreak => not_or.2 (hEnd last rfl) (isLineBreak_iff.1 hBreak)
  rw [hKept, Bytes.toByteArray_toList]

/-- What is shown of a typed secret is that secret again when it is typed. -/
theorem Types.again {input : List UInt8} (h : Types input secret) :
    Types (secret ++ "\n".toUTF8).toList secret := by
  obtain ⟨-, -, -, hEnd⟩ := h
  have hFeed : "\n".toUTF8.toList = [10] := Bytes.toList_toUTF8 "\n"
  exact ⟨[10], by rw [Bytes.toList_append, hFeed], by simp, hEnd⟩

/-! ### Commands -/

/-- A command line asks for a task in a data directory. -/
def Asks (around : Surroundings) (args : List String) (dataDir : String) (task : Task) : Prop :=
  ∃ invocation, readArguments around.dataDir args = .ok invocation ∧
    invocation.dataDir.getD around.defaultDataDir = dataDir ∧ invocation.task = task

/-- A command line that asks for a task performs it. -/
theorem Asks.run_eq {task : Task} (h : Asks around args dataDir task) (m : Machine) :
    ∃ json, run around args m = conclude (perform around dataDir json task m) := by
  obtain ⟨invocation, hArgs, hDir, hTask⟩ := h
  refine ⟨invocation.json, ?_⟩
  rw [run, hArgs]
  simp only [hDir, hTask]

theorem Asks.run_insert (h : Asks around args dataDir (.insert name)) (m : Machine) :
    run around args m = conclude (insertEntry dataDir name m) := by
  obtain ⟨json, hRun⟩ := h.run_eq m
  exact hRun

theorem Asks.run_reveal (h : Asks around args dataDir (.reveal name)) (m : Machine) :
    run around args m = conclude (revealEntry dataDir name m) := by
  obtain ⟨json, hRun⟩ := h.run_eq m
  exact hRun

/-- Whoever asks for an entry is shown just a secret and a line break. -/
def Shows (files : Files) (dataDir name : String) (secret : ByteArray) : Prop :=
  ∀ around args m, m.files = files → Asks around args dataDir (.reveal name) →
    run around args m = (0, m.write (secret ++ "\n".toUTF8))

/-- A data directory with a configuration and at least one key, in which every key file holds a key. -/
structure Ready (files : Files) (dataDir : String) (config : Config) (stored : List KeyPair) : Prop where
  tree : files.WellFormed
  loads : Config.load files dataDir = .ok config
  reads : (KeyStore.inData dataDir).all files = .ok stored
  nonempty : stored ≠ []

/-- A vault that is ready stays so while its files are kept. -/
theorem Ready.keeps {files' : Files} (h : Ready files dataDir config stored) (hTree : files'.WellFormed)
    (hKeeps : Entries.Keeps files files') : Ready files' dataDir config stored :=
  ⟨hTree, hKeeps.load_eq h.loads, hKeeps.all_eq h.reads, h.nonempty⟩

/-- The cipher opens with each of the stored keys what it encrypts to them. -/
def Opens (stored : List KeyPair) (secret : ByteArray) (entropy : Entropy) : Prop :=
  ∀ keys : List ParsedKey, keys.map (·.1) = stored → Entries.Opens secret (keys.map (·.identity)) entropy

/-- The path of an entry. -/
def entryPath (config : Config) (dataDir name : String) : String :=
  Path.join (config.storeDir dataDir) (name ++ "." ++ Entries.fileExtension)

/-- Inserting nothing fails and writes nothing. -/
theorem run_insert_nothing (hAsks : Asks around args dataDir (.insert name))
    (hConfig : Config.load m.files dataDir = .ok config) (hTyped : Types m.input .empty) :
    (run around args m).1 = 1 ∧ (run around args m).2.files = m.files := by
  rw [hAsks.run_insert, insertEntry, hConfig]
  simp only [typedSecret_of_types hTyped]
  exact ⟨rfl, rfl⟩

/-- An entry that decrypts is shown. -/
theorem shows_of_decrypt (hConfig : Config.load files dataDir = .ok config)
    (hDecrypt : Entries.decrypt (.inData dataDir) (config.storeDir dataDir) name files = .ok secret) :
    Shows files dataDir name secret := by
  rintro around args m rfl hAsks
  rw [hAsks.run_reveal, revealEntry, hConfig]
  simp only [hDecrypt, conclude, Machine.print, Machine.write, ByteArray.append_assoc]

/-- What was typed is stored, and shown from then on. -/
theorem run_insert_something (hAsks : Asks around args dataDir (.insert name))
    (hReady : Ready m.files dataDir config stored) (hName : Entries.isName name = true)
    (hTyped : Types m.input secret) (hSome : secret ≠ .empty)
    (hWrite : m.files.Accepts (entryPath config dataDir name)) (hOpens : Opens stored secret m.entropy) :
    (run around args m).1 = 0 ∧ Ready (run around args m).2.files dataDir config stored ∧
      (run around args m).2.files.Accepts (entryPath config dataDir name) ∧
      Shows (run around args m).2.files dataDir name secret := by
  obtain ⟨keys, rfl⟩ := KeyStore.exists_parsed hReady.reads
  have hKeys : keys ≠ [] := by
    rintro rfl
    exact hReady.nonempty rfl
  have hLocation : Entries.location (config.storeDir dataDir) name = .ok (entryPath config dataDir name) := by
    rw [Entries.location, if_pos hName, entryPath]
  obtain ⟨files', entropy', hEncrypt, hTree, hAgain, hKeeps, hDecrypt⟩ :=
    Entries.decrypt_encrypt hReady.tree hLocation hReady.reads hKeys hWrite (hOpens keys rfl)
  have hNonempty : secret.isEmpty ≠ true := fun hEmpty =>
    hSome (ByteArray.size_eq_zero_iff.1 (by simpa [ByteArray.isEmpty] using hEmpty))
  have hRun : (run around args m).1 = 0 ∧ (run around args m).2.files = files' := by
    rw [hAsks.run_insert, insertEntry, hReady.loads]
    simp only [typedSecret_of_types hTyped, if_neg hNonempty]
    rw [show Machine.files { m with input := [] } = m.files from rfl, hEncrypt]
    exact ⟨rfl, rfl⟩
  rw [hRun.2]
  have hReady' := hReady.keeps hTree hKeeps
  exact ⟨hRun.1, hReady', hAgain, shows_of_decrypt hReady'.loads hDecrypt⟩

/-- What is typed for an entry is what is shown of it, whatever bytes it has, but for the line breaks at its
end. Nothing but line breaks is refused. What is shown can be typed for any entry, which then shows the same. -/
theorem run_shows_typed (hAsks : Asks around args dataDir (.insert name))
    (hReady : Ready m.files dataDir config stored) (hName : Entries.isName name = true) :
    let secret := typedSecret m.input
    let after := (run around args m).2
    Types m.input secret ∧
    (secret = .empty → (run around args m).1 = 1 ∧ after.files = m.files) ∧
    (secret ≠ .empty → m.files.Accepts (entryPath config dataDir name) → Opens stored secret m.entropy →
      (run around args m).1 = 0 ∧ Shows after.files dataDir name secret ∧
      after.files.Accepts (entryPath config dataDir name) ∧
      ∀ around' args' other (m' : Machine), m'.files = after.files →
        m'.input = (secret ++ "\n".toUTF8).toList → Asks around' args' dataDir (.insert other) →
        Entries.isName other = true → m'.files.Accepts (entryPath config dataDir other) →
        Opens stored secret m'.entropy →
        (run around' args' m').1 = 0 ∧ Shows (run around' args' m').2.files dataDir other secret) := by
  have hTyped := types_typedSecret m.input
  refine ⟨hTyped, fun hEmpty => ?_, fun hSome hWrite hOpens => ?_⟩
  · exact run_insert_nothing hAsks hReady.loads (hEmpty ▸ hTyped)
  · obtain ⟨hCode, hReady', hAgain, hShows⟩ :=
      run_insert_something hAsks hReady hName hTyped hSome hWrite hOpens
    refine ⟨hCode, hShows, hAgain,
      fun around' args' other m' hFiles hInput hAsks' hName' hWrite' hOpens' => ?_⟩
    obtain ⟨hCode', -, -, hShows'⟩ := run_insert_something hAsks' (hFiles ▸ hReady') hName'
      (hInput ▸ hTyped.again) hSome hWrite' hOpens'
    exact ⟨hCode', hShows'⟩

/-- A data directory with a default configuration and a key, and what is typed. -/
def keyTyping (key : ParsedKey) (typed : String) : Machine where
  host :=
    { files :=
        { workDir := []
          entries := [(["data"], .directory), (["data", "config.toml"], .file .empty Files.defaultMode),
            (["data", "keys"], .directory),
            (["data", "keys", "one.key"], .file key.1.secret KeyStore.fileMode)] }
      repositories := [] }
  entropy := ⟨.empty, 0⟩
  input := typed.toUTF8.toList
  out := .empty
  err := .empty

/-- The example is ready with its one key. -/
theorem ready_keyTyping (key : ParsedKey) (typed : String) :
    Ready (keyTyping key typed).files "/data" Config.default [key.1] where
  tree :=
    { distinct := by
        show List.Nodup [["data"], ["data", "config.toml"], ["data", "keys"], ["data", "keys", "one.key"]]
        decide
      rooted := by simp [keyTyping, Machine.files]
      parents := fun e hMem => by
        simp only [keyTyping, Machine.files, List.mem_cons, List.not_mem_nil, or_false] at hMem
        rcases hMem with rfl | rfl | rfl | rfl <;> rfl
      workDir := rfl }
  loads := by
    have hText : Config.ofText "" = .ok Config.default := by decide +kernel
    have hPath : (keyTyping key typed).files.resolve (Config.pathIn "/data") =
        .ok ["data", "config.toml"] := rfl
    rw [← hText]
    exact Config.load_of_file hPath rfl rfl
  reads := by
    have hFound : (KeyStore.inData "/data").keyFiles (keyTyping key typed).files =
        .ok [("one.key", key.1.secret)] := rfl
    have hDir : (KeyStore.inData "/data").requireDir (keyTyping key typed).files = .ok () := rfl
    rw [KeyStore.all, hDir, hFound]
    exact KeyStore.mapM_readKey_eq_ok.2 (by simp [key.ofFile_secret])
  nonempty := List.cons_ne_nil _ _

/-- The cipher opens what it encrypts to one key, if the curve gives both sides one secret. -/
theorem opens_sole (key : ParsedKey) {entropy : Entropy} (hPlain : Age.Payload.EndsShort secret)
    (hAgrees : key.identity.Agrees (entropy.secretAfter 2)) : Opens [key.1] secret entropy := by
  intro keys hKeys identity hMem
  obtain ⟨other, rfl, hSame⟩ := List.map_eq_singleton_iff.1 hKeys
  obtain rfl : other = key := Subtype.ext hSame
  obtain rfl := List.mem_singleton.1 hMem
  refine Age.decrypt_encrypt hPlain (List.mem_singleton.2 rfl) (fun i hi => ?_)
    fun i hi recipient hMember hNe => absurd (List.mem_singleton.1 hMember) hNe
  obtain rfl : i = 0 := Nat.lt_one_iff.1 hi
  exact hAgrees

/-- A key that shares a secret with the first sender of a run. -/
theorem exists_agrees : ∃ key : ParsedKey, key.identity.Agrees (Entropy.secretAfter ⟨.empty, 0⟩ 2) := by
  have hSize : (⟨Bytes.replicate 32 7⟩ : Age.Identity).secret.size = Age.keyLength := rfl
  refine ⟨.ofIdentity _ hSize, ?_⟩
  rw [ParsedKey.identity_ofIdentity]
  exact ⟨by decide +kernel, by decide +kernel⟩

/-- Two lines are inserted and shown, and what is shown is inserted and shown again. -/
theorem run_shows_typed_mail : ∃ (around : Surroundings) (m m' : Machine),
    m.input = "two\nlines\r\n".toUTF8.toList ∧ (run around ["insert", "mail"] m).1 = 0 ∧
      Shows (run around ["insert", "mail"] m).2.files "/data" "mail" "two\nlines".toUTF8 ∧
    m'.input = "two\nlines\n".toUTF8.toList ∧ m'.files = (run around ["insert", "mail"] m).2.files ∧
      (run around ["insert", "mail"] m').1 = 0 ∧
      Shows (run around ["insert", "mail"] m').2.files "/data" "mail" "two\nlines".toUTF8 := by
  obtain ⟨key, hAgrees⟩ := exists_agrees
  obtain ⟨around, hAsks⟩ : ∃ around, Asks around ["insert", "mail"] "/data" (.insert "mail") :=
    ⟨⟨⟨true⟩, Moment.ofSeconds 0, some "/data", none⟩, _, rfl, rfl, rfl⟩
  obtain ⟨m, hInput, hReady, hEntropy, hAccepts⟩ : ∃ m : Machine,
      m.input = "two\nlines\r\n".toUTF8.toList ∧ Ready m.files "/data" Config.default [key.1] ∧
      m.entropy = ⟨.empty, 0⟩ ∧ m.files.Accepts (entryPath Config.default "/data" "mail") :=
    ⟨keyTyping key _, rfl, ready_keyTyping key _, rfl, _, .empty, _, rfl, rfl⟩
  have hTyped : typedSecret "two\nlines\r\n".toUTF8.toList = "two\nlines".toUTF8 := by decide +kernel
  have hOpens : Opens [key.1] "two\nlines".toUTF8 m.entropy :=
    hEntropy ▸ opens_sole key (by unfold Age.Payload.EndsShort; decide) hAgrees
  obtain ⟨-, -, hShown⟩ := run_shows_typed hAsks hReady (by decide)
  rw [hInput, hTyped] at hShown
  obtain ⟨hCode, hShows, hAgain, hPiped⟩ := hShown (by decide) hAccepts hOpens
  obtain ⟨m', hFiles, hInput', hEntropy'⟩ : ∃ m' : Machine,
      m'.files = (run around ["insert", "mail"] m).2.files ∧ m'.input = "two\nlines\n".toUTF8.toList ∧
      m'.entropy = m.entropy :=
    ⟨{ m with host := (run around ["insert", "mail"] m).2.host, input := _ }, rfl, rfl, rfl⟩
  have hPipe : "two\nlines\n".toUTF8.toList = ("two\nlines".toUTF8 ++ "\n".toUTF8).toList := by decide +kernel
  obtain ⟨hCode', hShows'⟩ := hPiped around ["insert", "mail"] "mail" m' hFiles (hInput'.trans hPipe) hAsks
    (by decide) (hFiles ▸ hAgain) (hEntropy' ▸ hOpens)
  exact ⟨around, m, m', hInput, hCode, hShows, hInput', hFiles, hCode', hShows'⟩

end VaultSync.Cli
