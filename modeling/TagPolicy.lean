import TagPolicy.Authority.Basic
import TagPolicy.Authority.Metrics
import TagPolicy.Authority.Pool
import TagPolicy.Cache.Base64
import TagPolicy.Cache.Digest
import TagPolicy.Cache.Envelope
import TagPolicy.Cache.Layout
import TagPolicy.Cache.Slot
import TagPolicy.CommandLine.Arguments
import TagPolicy.CommandLine.Commands
import TagPolicy.CommandLine.Disk
import TagPolicy.CommandLine.Errand
import TagPolicy.CommandLine.Help
import TagPolicy.CommandLine.Invocation
import TagPolicy.CommandLine.Json
import TagPolicy.CommandLine.Outcome
import TagPolicy.CommandLine.Path
import TagPolicy.CommandLine.StoreFolder
import TagPolicy.Context.Automatic
import TagPolicy.Context.Basic
import TagPolicy.Context.Request
import TagPolicy.Context.Sides
import TagPolicy.Failure
import TagPolicy.Language.Document
import TagPolicy.Language.Expr
import TagPolicy.Language.Lexer
import TagPolicy.Language.Parser
import TagPolicy.Language.SourceError
import TagPolicy.Language.Token
import TagPolicy.Main
import TagPolicy.Ordered.Map
import TagPolicy.Ordered.Set
import TagPolicy.Policy.Active
import TagPolicy.Policy.Compilation
import TagPolicy.Policy.Condition
import TagPolicy.Policy.Decision
import TagPolicy.Policy.Evaluation
import TagPolicy.Policy.Operations
import TagPolicy.Policy.Table
import TagPolicy.Proofs.Authority.Coherence
import TagPolicy.Proofs.Authority.Race
import TagPolicy.Proofs.Authority.Stages
import TagPolicy.Proofs.Authority.Transparency
import TagPolicy.Proofs.Cache.Base64
import TagPolicy.Proofs.Cache.Layout
import TagPolicy.Proofs.Cache.Operations
import TagPolicy.Proofs.Cache.Roundtrip
import TagPolicy.Proofs.Context.Provenance
import TagPolicy.Proofs.Context.TagNames
import TagPolicy.Proofs.Language.Chains
import TagPolicy.Proofs.Language.Balance
import TagPolicy.Proofs.Language.Grammar
import TagPolicy.Proofs.Language.Leaves
import TagPolicy.Proofs.Outcome
import TagPolicy.Proofs.Policy.Compilation
import TagPolicy.Proofs.Policy.Folding
import TagPolicy.Proofs.Policy.Pass
import TagPolicy.Proofs.Policy.Reading
import TagPolicy.Proofs.Policy.Soundness
import TagPolicy.Proofs.Store.Contents
import TagPolicy.Proofs.Store.Interleaving
import TagPolicy.Proofs.Store.Keeping
import TagPolicy.Proofs.Text.Numeral
import TagPolicy.Proofs.Text.Places
import TagPolicy.Settings.Basic
import TagPolicy.Settings.File
import TagPolicy.Store.Access
import TagPolicy.Store.DataFile
import TagPolicy.Store.Directory
import TagPolicy.Store.Fault
import TagPolicy.Store.Registry
import TagPolicy.Store.Slots
import TagPolicy.Tag.Basic
import TagPolicy.Tag.Cycle
import TagPolicy.Tag.Sweep
import TagPolicy.Tag.Tree
import TagPolicy.Text.Blank
import TagPolicy.Text.Letter
import TagPolicy.Text.Numeral
import TagPolicy.Text.Octets
import TagPolicy.Text.Position
import TagPolicy.Text.Printable
import TagPolicy.Text.Quoted
import TagPolicy.Text.Terminal
import TagPolicy.Toml.Basic
import TagPolicy.Toml.Draft
import TagPolicy.Toml.Fields
import TagPolicy.Toml.Layout
import TagPolicy.Toml.Moment
import TagPolicy.Toml.Number
import TagPolicy.Toml.Quoted
import TagPolicy.Toml.Reader
import TagPolicy.Value
import TagPolicy.Proofs.Language.Expressions
import TagPolicy.Proofs.Language.Acceptance
import TagPolicy.Proofs.Cache.Exactness
import TagPolicy.Proofs.Cache.Rereading
import TagPolicy.Proofs.Policy.Strict
import TagPolicy.Proofs.Cache.Hostile
import TagPolicy.Proofs.Authority.Installation
import TagPolicy.Proofs.Authority.Gate
import TagPolicy.Proofs.Tag.Ancestry
import TagPolicy.Proofs.Tag.Building
import TagPolicy.Proofs.Policy.NormalForm
import TagPolicy.Proofs.Language.Extent
import TagPolicy.Proofs.Policy.Reduction
import TagPolicy.Proofs.Language.Printing
import TagPolicy.Proofs.Language.Reprinting
import TagPolicy.Proofs.Tag.Closure
import TagPolicy.Proofs.Context.History
import TagPolicy.Proofs.Store.Accounts
import TagPolicy.Proofs.Context.Assignment
import TagPolicy.Proofs.Language.Joining
import TagPolicy.Proofs.Policy.Relocation
import TagPolicy.Proofs.Policy.Composition
import TagPolicy.Proofs.Cache.Postfix
import TagPolicy.Proofs.Cache.Damage
import TagPolicy.Proofs.Cache.Healing
import TagPolicy.Proofs.Policy.Remembering
import TagPolicy.Proofs.Policy.Unfolding
import TagPolicy.Proofs.Tag.Sweep
import TagPolicy.Proofs.Tag.Level
import TagPolicy.Proofs.Tag.Listing
import TagPolicy.Proofs.Tag.ClosureLaws
import TagPolicy.Proofs.Tag.CycleReport
import TagPolicy.Proofs.Policy.Regrouping
import TagPolicy.Proofs.Language.Scanning
import TagPolicy.Proofs.Language.Reports
import TagPolicy.Proofs.Policy.Relevance
import TagPolicy.Proofs.Text.Trimming
import TagPolicy.Proofs.Language.Passages
import TagPolicy.Proofs.Policy.Showing
import TagPolicy.Proofs.Policy.Recompiling
import TagPolicy.Proofs.Language.Wording
import TagPolicy.Proofs.Language.Casing
import TagPolicy.Proofs.Authority.Accounting
import TagPolicy.Proofs.Tag.Reordering
