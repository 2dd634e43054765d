import AccessControl.Audit
import AccessControl.AuthError
import AccessControl.Calendar.Date
import AccessControl.Calendar.Instant
import AccessControl.Calendar.Text
import AccessControl.CommandLine
import AccessControl.CommandLine.Commands
import AccessControl.CommandLine.Grammar
import AccessControl.CommandLine.Help
import AccessControl.Context
import AccessControl.Decimal.Binary64
import AccessControl.Decimal.Shortest
import AccessControl.Decision
import AccessControl.Dict
import AccessControl.Digest.Hmac
import AccessControl.Digest.Sha256
import AccessControl.Encoding.Base64Url
import AccessControl.Environment
import AccessControl.Fresh
import AccessControl.Group
import AccessControl.GroupStore
import AccessControl.Identity
import AccessControl.InPlace
import AccessControl.Json.Reader
import AccessControl.Json.Record
import AccessControl.Json.Writer
import AccessControl.Key
import AccessControl.KeyStore
import AccessControl.Main
import AccessControl.Policy
import AccessControl.PolicySet
import AccessControl.PolicyStore
import AccessControl.Polling
import AccessControl.Program
import AccessControl.Scenario
import AccessControl.Scenario.Script
import AccessControl.Scenario.State
import AccessControl.Secret
import AccessControl.Seed
import AccessControl.Settings
import AccessControl.Settings.Error
import AccessControl.Settings.Layer
import AccessControl.Stores
import AccessControl.Subject
import AccessControl.Text.Blank
import AccessControl.Text.Digits
import AccessControl.Text.Octets
import AccessControl.Text.Terminal
import AccessControl.Timed
import AccessControl.Token.Claims
import AccessControl.Token.Header
import AccessControl.Tokenizer
import AccessControl.Toml.Document
import AccessControl.Toml.Quoted
import AccessControl.Toml.Scalar
import AccessControl.Toml.Table
import AccessControl.Value
import AccessControl.Proofs.Text.Octets
import AccessControl.Proofs.Encoding.Base64Url
import AccessControl.Proofs.Json.Strings
import AccessControl.Proofs.Json.Numbers
import AccessControl.Proofs.Json.Documents
import AccessControl.Proofs.Json.Records
import AccessControl.Proofs.Token.Claims
import AccessControl.Proofs.Tokenizer.Parts
import AccessControl.Proofs.GroupStore.Changes
import AccessControl.Proofs.Stores.Runs
import AccessControl.Proofs.Stores.Refusals
import AccessControl.Proofs.GroupStore.Indices
import AccessControl.Proofs.GroupStore.Ancestry
import AccessControl.Proofs.GroupStore.Descent
import AccessControl.Proofs.Stores.Coherence
import AccessControl.Proofs.PolicyStore.Indices
import AccessControl.Proofs.PolicyStore.Retrieval
import AccessControl.Proofs.Program.Runs
import AccessControl.Proofs.Program.Faults
import AccessControl.Proofs.Decision.Inheritance
import AccessControl.Proofs.Decision.FirstMatch
import AccessControl.Proofs.Decision.Authorize
import AccessControl.Proofs.Decision.Deletion
import AccessControl.Proofs.Token.Bearing
import AccessControl.Proofs.Tokenizer.Reading
import AccessControl.Proofs.Tokenizer.RoundTrip
import AccessControl.Proofs.Tokenizer.Acceptance
import AccessControl.Proofs.Identity.Verification
import AccessControl.Proofs.Tokenizer.Aging
import AccessControl.Proofs.Calendar.Moments
import AccessControl.Proofs.Identity.Runs
import AccessControl.Proofs.PolicyStore.Changes
import AccessControl.Proofs.Tokenizer.Expiry
import AccessControl.Proofs.Identity.KeyManagement
import AccessControl.Proofs.Identity.Lifecycle
import AccessControl.Proofs.Decision.Locality
import AccessControl.Proofs.Decision.Regrouping
import AccessControl.Proofs.Decision.Revival
import AccessControl.Proofs.Stores.InPlace
import AccessControl.Proofs.Decision.Deadline
import AccessControl.Proofs.Program.Polling
import AccessControl.Proofs.Identity.AllOrNothing
import AccessControl.Proofs.Identity.AuditTrail
import AccessControl.Proofs.Settings.Sources
import AccessControl.Proofs.CommandLine.Issuing
import AccessControl.Proofs.Seed.InTurn
import AccessControl.Proofs.Seed.Records
import AccessControl.Proofs.Seed.Applying
import AccessControl.Proofs.Seed.Meaning
import AccessControl.Proofs.Tokenizer.Secrets
import AccessControl.Proofs.Identity.Replacement
import AccessControl.Proofs.GroupStore.Levels
import AccessControl.Proofs.GroupStore.Moves
import AccessControl.Proofs.GroupStore.Rolls
import AccessControl.Proofs.GroupStore.Removal
import AccessControl.Proofs.PolicySet.Elements
import AccessControl.Proofs.PolicyStore.Contents
import AccessControl.Proofs.Decision.Expansion
import AccessControl.Proofs.PolicySet.Scan
import AccessControl.Proofs.Seed.Objects
import AccessControl.Proofs.Calendar.Dates
import AccessControl.Proofs.Calendar.Texts
import AccessControl.Proofs.Json.Trees
import AccessControl.Proofs.Stores.Records
