import VaultSync.Age.Armor
import VaultSync.Age.File
import VaultSync.Age.Header
import VaultSync.Age.Key
import VaultSync.Age.Payload
import VaultSync.Auth.Resolver
import VaultSync.Bytes
import VaultSync.Cli.Arguments
import VaultSync.Cli.Disk
import VaultSync.Cli.Run
import VaultSync.Cli.Setup
import VaultSync.Cli.Syncing
import VaultSync.Cli.Terminal
import VaultSync.Config
import VaultSync.Credential
import VaultSync.Crypto.Aes
import VaultSync.Crypto.Bcrypt
import VaultSync.Crypto.Blowfish
import VaultSync.Crypto.ChaCha20
import VaultSync.Crypto.Curve25519
import VaultSync.Crypto.Md5
import VaultSync.Crypto.Sealed
import VaultSync.Crypto.Sha256
import VaultSync.Crypto.Sha512
import VaultSync.Encoding.Base64
import VaultSync.Encoding.Bech32
import VaultSync.Encoding.Der
import VaultSync.Entries.Location
import VaultSync.Entries.Store
import VaultSync.Entropy
import VaultSync.Error
import VaultSync.Files
import VaultSync.Git.Directory
import VaultSync.Git.History
import VaultSync.Git.Host
import VaultSync.Git.Ignore
import VaultSync.Git.LineMerge
import VaultSync.Git.Merge
import VaultSync.Git.Pull
import VaultSync.Git.Rebase
import VaultSync.Git.Record
import VaultSync.Git.Reference
import VaultSync.Git.Remote
import VaultSync.Git.Repository
import VaultSync.Git.Status
import VaultSync.Git.Switch
import VaultSync.Git.Tree
import VaultSync.Git.Workspace
import VaultSync.Json
import VaultSync.Keys.KeyFile
import VaultSync.Keys.KeyId
import VaultSync.Keys.KeyPair
import VaultSync.Keys.Store
import VaultSync.Main
import VaultSync.Moment
import VaultSync.Path
import VaultSync.Proofs.Age.Armor
import VaultSync.Proofs.Age.File
import VaultSync.Proofs.Age.Header
import VaultSync.Proofs.Age.Payload
import VaultSync.Proofs.Auth.Dialogue
import VaultSync.Proofs.Auth.Replay
import VaultSync.Proofs.Auth.Resolution
import VaultSync.Proofs.Bytes
import VaultSync.Proofs.Cli.Clone
import VaultSync.Proofs.Cli.Entries
import VaultSync.Proofs.Cli.Lines
import VaultSync.Proofs.Cli.Prompts
import VaultSync.Proofs.Cli.Retry
import VaultSync.Proofs.Cli.Setup
import VaultSync.Proofs.Config.Loading
import VaultSync.Proofs.Config.Overlay
import VaultSync.Proofs.Config.Rules
import VaultSync.Proofs.Config.Saving
import VaultSync.Proofs.Config.Versions
import VaultSync.Proofs.Crypto.Sealed
import VaultSync.Proofs.Encoding.Base64
import VaultSync.Proofs.Encoding.Bech32
import VaultSync.Proofs.Entries.Frame
import VaultSync.Proofs.Entries.Insertion
import VaultSync.Proofs.Entries.Location
import VaultSync.Proofs.Entries.Store
import VaultSync.Proofs.Entries.Vault
import VaultSync.Proofs.Entries.WorkTree
import VaultSync.Proofs.Files.Entries
import VaultSync.Proofs.Files.Joined
import VaultSync.Proofs.Files.Made
import VaultSync.Proofs.Files.Spares
import VaultSync.Proofs.Files.Temporary
import VaultSync.Proofs.Files.Tree
import VaultSync.Proofs.Files.Walk
import VaultSync.Proofs.Git.Clean
import VaultSync.Proofs.Git.Clone
import VaultSync.Proofs.Git.Detached
import VaultSync.Proofs.Git.EmptyCommit
import VaultSync.Proofs.Git.FailedPull
import VaultSync.Proofs.Git.FailedReset
import VaultSync.Proofs.Git.Fetch
import VaultSync.Proofs.Git.Fleet
import VaultSync.Proofs.Git.History
import VaultSync.Proofs.Git.Merge
import VaultSync.Proofs.Git.Outcome
import VaultSync.Proofs.Git.Publication
import VaultSync.Proofs.Git.Pull
import VaultSync.Proofs.Git.Reading
import VaultSync.Proofs.Git.Rebase
import VaultSync.Proofs.Git.Record
import VaultSync.Proofs.Git.Recovery
import VaultSync.Proofs.Git.Refs
import VaultSync.Proofs.Git.Reset
import VaultSync.Proofs.Git.Stands
import VaultSync.Proofs.Git.Status
import VaultSync.Proofs.Git.Steps
import VaultSync.Proofs.Git.Switch
import VaultSync.Proofs.Git.Sync
import VaultSync.Proofs.Git.Tree
import VaultSync.Proofs.Git.Unborn
import VaultSync.Proofs.Git.Uncommitted
import VaultSync.Proofs.Git.Unresolved
import VaultSync.Proofs.Keys.Directory
import VaultSync.Proofs.Keys.Fingerprint
import VaultSync.Proofs.Keys.Identity
import VaultSync.Proofs.Keys.Listing
import VaultSync.Proofs.Keys.Lookup
import VaultSync.Proofs.Keys.Naming
import VaultSync.Proofs.Keys.Order
import VaultSync.Proofs.Keys.Recipient
import VaultSync.Proofs.Keys.Refinement
import VaultSync.Proofs.Keys.Removal
import VaultSync.Proofs.Keys.SecretLine
import VaultSync.Proofs.Keys.Store
import VaultSync.Proofs.Keys.Writing
import VaultSync.Proofs.Sync.Calls
import VaultSync.Proofs.Sync.Cancellation
import VaultSync.Proofs.Sync.Causes
import VaultSync.Proofs.Sync.Cleanup
import VaultSync.Proofs.Sync.Completed
import VaultSync.Proofs.Sync.Gate
import VaultSync.Proofs.Sync.Invariant
import VaultSync.Proofs.Sync.Outcome
import VaultSync.Proofs.Sync.Recording
import VaultSync.Proofs.Sync.Rollback
import VaultSync.Proofs.Sync.Transcript
import VaultSync.Proofs.Text.Ascii
import VaultSync.Proofs.Text.Lines
import VaultSync.Proofs.Text.Split
import VaultSync.Proofs.Toml.Documents
import VaultSync.Proofs.Toml.Strings
import VaultSync.Proofs.Toml.Values
import VaultSync.Reply
import VaultSync.Ssh.Envelope
import VaultSync.Ssh.Keygen
import VaultSync.Ssh.Pem
import VaultSync.Ssh.PublicKey
import VaultSync.Ssh.Wire
import VaultSync.Sync.Cleanup
import VaultSync.Sync.Executor
import VaultSync.Sync.Failure
import VaultSync.Sync.Operation
import VaultSync.Sync.Part
import VaultSync.Sync.Render
import VaultSync.Sync.Report
import VaultSync.Sync.Script
import VaultSync.Sync.Service
import VaultSync.Sync.Trace
import VaultSync.Text.Blank
import VaultSync.Text.Hex
import VaultSync.Text.Printable
import VaultSync.Text.Quoted
import VaultSync.Toml.Parser
import VaultSync.Toml.Printer
import VaultSync.Toml.Scalar
import VaultSync.Toml.Value
