import VaultSync.Cli.Terminal
import VaultSync.Config
import VaultSync.Entries.Store
import VaultSync.Moment
/-!
Setting a vault up, and the commands on its keys and entries. A command ends with an exit code, or with
an error that its caller reports.
-/

namespace VaultSync.Cli

/-- What a command makes of a machine: an exit code, or an error. -/
abbrev Finish := Except VaultError Nat × Machine

def Machine.announce (key : KeyPair) (place : String) (m : Machine) : Machine :=
  let m := m.print (Printed.success ("Generated key " ++ key.id ++ place))
  match key.recipientText? with
  | some recipient => m.print (Printed.success ("Public key: " ++ recipient))
  | none => m

/-! ### Setting up -/

def withoutKey : String :=
  Printed.warning "Skipped key generation" ++
    "  Run 'passync keys generate' or 'passync keys import <file>' later.\n\n"

def nextStep : String :=
  "\n  Next: passync clone <url>\n\n"

def makeFirstKey (now : Moment) (dataDir : String) (m : Machine) : Finish :=
  let store := KeyStore.inData dataDir
  match store.generate now.stamp m.files m.entropy with
  | (.error e, files, entropy) => (.error e, { m.withFiles files with entropy })
  | (.ok key, files, entropy) =>
    let m := { m.withFiles files with entropy }
    (.ok 0, (m.announce key (" in " ++ store.dir ++ "/")).print nextStep)

/-- Makes a data directory with a configuration and, unless it is not wanted, a first key. A vault that
has a configuration is left alone. -/
def setUp (now : Moment) (dataDir mode username : String) (noKey : Bool) (m : Machine) : Finish :=
  if m.files.has (Config.pathIn dataDir) then
    (.error (.invalidConfig ("passync is already initialized in " ++ dataDir)), m)
  else
    let m := m.print (Printed.header "passync: initializing")
    let default := Config.default
    let config := { default with
      connection := { default.connection with mode := (ConnectionMode.ofTag mode).tag, username } }
    match config.save m.files dataDir with
    | (.error e, files) => (.error e, m.withFiles files)
    | (.ok (), files) =>
      let m := (m.withFiles files).print (Printed.success ("Wrote " ++ Config.pathIn dataDir))
      if noKey then (.ok 0, m.print withoutKey) else makeFirstKey now dataDir m

/-! ### Keys -/

def keyList (keys : List KeyPair) : String :=
  if keys.isEmpty then Printed.warning "No keys stored. Run 'passync keys generate'."
  else
    Printed.header s!"Keys ({keys.length})" ++
      String.join (keys.map fun key => Printed.keyLine key.id key.recipientText?)

def importKeyFile (store : KeyStore) (file : String) (m : Machine) : Finish :=
  match store.importFile file m.files with
  | (.error e, files) => (.error e, m.withFiles files)
  | (.ok key, files) =>
    (.ok 0, (m.withFiles files).print (Printed.success ("Imported key " ++ key.id)))

def generateKey (now : Moment) (store : KeyStore) (m : Machine) : Finish :=
  match store.generate now.stamp m.files m.entropy with
  | (.error e, files, entropy) => (.error e, { m.withFiles files with entropy })
  | (.ok key, files, entropy) => (.ok 0, { m.withFiles files with entropy }.announce key "")

def listKeys (store : KeyStore) (m : Machine) : Finish :=
  match store.all m.files with
  | .error e => (.error e, m)
  | .ok keys => (.ok 0, m.print (keyList keys))

def revealKey (store : KeyStore) (id : String) (m : Machine) : Finish :=
  match store.get id m.files with
  | .error e => (.error e, m)
  | .ok key => (.ok 0, m.print (Printed.keyLine key.id key.recipientText?))

def removeKey (store : KeyStore) (id : String) (m : Machine) : Finish :=
  match store.get id m.files with
  | .error e => (.error e, m)
  | .ok key =>
    match store.remove key m.files with
    | (.error e, files) => (.error e, m.withFiles files)
    | (.ok id, files) => (.ok 0, (m.withFiles files).print (Printed.success ("Removed key " ++ id)))

/-! ### Entries -/

/-- A secret as it was typed, without the line breaks at its end. -/
def typedSecret (input : List UInt8) : ByteArray :=
  (Text.dropEndWhile Machine.isLineBreak input).toByteArray

/-- Encrypts all input as an entry. An empty secret is refused. -/
def insertEntry (dataDir name : String) (m : Machine) : Finish :=
  match Config.load m.files dataDir with
  | .error e => (.error e, m)
  | .ok config =>
    let secret := typedSecret m.input
    let m := { m with input := [] }
    if secret.isEmpty then (.error (.encryptionFailed "nothing to encrypt: stdin was empty"), m)
    else
      let store := KeyStore.inData dataDir
      match Entries.encrypt store (config.storeDir dataDir) name secret m.files m.entropy with
      | (.error e, files, entropy) => (.error e, { m.withFiles files with entropy })
      | (.ok path, files, entropy) =>
        (.ok 0, { m.withFiles files with entropy }.print
          (Printed.success ("Encrypted " ++ name ++ " to " ++ path) ++
            "  Run 'passync sync' to share it.\n"))

/-- Writes the secret of an entry and a line break. -/
def revealEntry (dataDir name : String) (m : Machine) : Finish :=
  match Config.load m.files dataDir with
  | .error e => (.error e, m)
  | .ok config =>
    match Entries.decrypt (KeyStore.inData dataDir) (config.storeDir dataDir) name m.files with
    | .error e => (.error e, m)
    | .ok secret => (.ok 0, (m.write secret).print "\n")

end VaultSync.Cli
