import MiniVault.Foundations.Programs
import MiniVault.Foundations.Text
import MiniVault.Foundations.Base64
import MiniVault.Runtime.Values
import MiniVault.Runtime.Platform
import MiniVault.Storage.Database
import MiniVault.Runtime.World
import MiniVault.Core.Crypto
import MiniVault.Core.Vault
import MiniVault.Core.Passphrase
import MiniVault.Core.Runs
import MiniVault.Audit.Log
import MiniVault.Kv.Service
import MiniVault.Foundations.Versions
import MiniVault.Kv.Tables
import MiniVault.Kv.Operations
import MiniVault.Kv.AssociatedData
import MiniVault.Kv.History
import MiniVault.Kv.Slots
import MiniVault.Kv.Rollback
import MiniVault.Foundations.HashChain
import MiniVault.Audit.Canonical
import MiniVault.Audit.Chain
import MiniVault.Audit.Tamper
import MiniVault.Audit.Errors
import MiniVault.Audit.Localization
import MiniVault.Audit.Cells
import MiniVault.Core.Sample
import MiniVault.Transit.Ciphertext
import MiniVault.Transit.Service
import MiniVault.Transit.Tables
import MiniVault.Transit.Keyring
import MiniVault.Transit.Operations
import MiniVault.Transit.AssociatedData
import MiniVault.Transit.Runs
import MiniVault.Transit.Tokens
import MiniVault.Transit.Signatures
import MiniVault.Transit.Tampering
import MiniVault.Transit.Interleavings
import MiniVault.Kv.Initialization
import MiniVault.Runtime.Timestamps
import MiniVault.Transit.Grammar
import MiniVault.Services.AssociatedData
import MiniVault.Auth.Service
import MiniVault.Auth.Accounts
import MiniVault.Auth.Lockout
import MiniVault.Auth.Disclosure
import MiniVault.Foundations.Rows
import MiniVault.Auth.Sessions
import MiniVault.Services.Runs
import MiniVault.Services.Namespaces
import MiniVault.Services.Denials
import MiniVault.Foundations.Crashes
import MiniVault.Foundations.Schemas
import MiniVault.Storage.Schema
import MiniVault.Storage.Startup
import MiniVault.Core.Unlocking
import MiniVault.Services.Settings
import MiniVault.Kv.Errors
import MiniVault.Services.Handlers
import MiniVault.Services.KeyHandlers
import MiniVault.Services.Exceptions
import MiniVault.Foundations.Linearization
import MiniVault.Services.Linearization
import MiniVault.Foundations.Interference
import MiniVault.Services.Interleavings
import MiniVault.Foundations.Withdrawal
import MiniVault.Services.Failures
import MiniVault.Foundations.Noninterference
import MiniVault.Foundations.Twins
import MiniVault.Services.Changes
import MiniVault.Services.Separation
import MiniVault.Services.Noninterference
import MiniVault.Services.Isolation
import MiniVault.Services.Ownership
import MiniVault.Api.Routes
