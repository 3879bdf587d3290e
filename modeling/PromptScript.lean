import PromptScript.Text.Blank
import PromptScript.Text.Case
import PromptScript.Number.Layout
import PromptScript.Number.Reading
import PromptScript.Json.Reader
import PromptScript.Json.Writer
import PromptScript.Value.Operator
import PromptScript.Text.Indent
import PromptScript.Defect
import PromptScript.Expr.Analysis
import PromptScript.Grammar.Template
import PromptScript.Document.Decoding
import PromptScript.Expr.Evaluation
import PromptScript.Value.Persisted
import PromptScript.Yaml.Node
import PromptScript.Yaml.Writer
import PromptScript.Message.Basic
import PromptScript.Message.Encoding
import PromptScript.Message.Decoding
import PromptScript.Attachment
import PromptScript.Config
import PromptScript.Passage
import PromptScript.Document.Closure
import PromptScript.Pass.Basic
import PromptScript.Pass.Tags
import PromptScript.Pass.Walk
import PromptScript.Pass.Settings
import PromptScript.Provider.Basic
import PromptScript.Provider.Chat
import PromptScript.Provider.Conversion
import PromptScript.Chain.Basic
import PromptScript.Chain.Storage
import PromptScript.Digest.Blake3
import PromptScript.Survey.Splicing
import PromptScript.Survey.Basic
import PromptScript.Survey.Walk
import PromptScript.Survey.References
import PromptScript.Survey.Report
import PromptScript.Files.Path
import PromptScript.Files.Tree
import PromptScript.Files.Loading
import PromptScript.Document.Mentions
import PromptScript.Chain.Playing
import PromptScript.CommandLine.Arguments
import PromptScript.CommandLine.Command
import PromptScript.CommandLine.Transcript
import PromptScript.CommandLine.Running
import PromptScript.Main
import PromptScript.Proofs.Turns
import PromptScript.Proofs.Readings
import PromptScript.Proofs.Derivations
import PromptScript.Proofs.Layout
import PromptScript.Proofs.Splices
import PromptScript.Proofs.Cuts
import PromptScript.Proofs.Passes
import PromptScript.Proofs.Asides
import PromptScript.Proofs.Straight
import PromptScript.Proofs.Resuming
import PromptScript.Proofs.Continuing
import PromptScript.Proofs.Trails
import PromptScript.Proofs.Uninterrupted
import PromptScript.Proofs.Doubles
import PromptScript.Proofs.Exchanged
import PromptScript.Proofs.Persistence
import PromptScript.Proofs.Endings
import PromptScript.Proofs.Uses
import PromptScript.Proofs.Beside
import PromptScript.Proofs.Frames
import PromptScript.Proofs.Framed
import PromptScript.Proofs.Twins
import PromptScript.Proofs.Needs
import PromptScript.Proofs.Visits
import PromptScript.Proofs.Unseen
import PromptScript.Proofs.Parameters
import PromptScript.Proofs.Listing
import PromptScript.Proofs.Unlisted
import PromptScript.Proofs.Raised
import PromptScript.Proofs.Placed
import PromptScript.Proofs.Identities
import PromptScript.Proofs.Renamed
import PromptScript.Proofs.RenamedPasses
import PromptScript.Proofs.RenamedWalks
import PromptScript.Proofs.RenamedSteps
import PromptScript.Proofs.Nested
import PromptScript.Proofs.Lossless
import PromptScript.Proofs.Failing
import PromptScript.Proofs.Accepted
import PromptScript.Proofs.Settled
import PromptScript.Proofs.Acting
import PromptScript.Proofs.Letters
import PromptScript.Proofs.Accounts
import PromptScript.Proofs.Conserving
import PromptScript.Proofs.Tables
import PromptScript.Proofs.StopPaths
import PromptScript.Proofs.Guarded
import PromptScript.Proofs.Tabled
import PromptScript.Proofs.Analyses
import PromptScript.Proofs.Findings
import PromptScript.Proofs.Entered
import PromptScript.Proofs.Tandem
import PromptScript.Proofs.Circles
import PromptScript.Proofs.Changes
import PromptScript.Proofs.Inlined
import PromptScript.Proofs.Elsewhere
import PromptScript.Proofs.Rejoined
import PromptScript.Proofs.Headers
import PromptScript.Proofs.Resolved
import PromptScript.Proofs.Fixpoint
import PromptScript.Proofs.Emitted
import PromptScript.Proofs.Requests
import PromptScript.Proofs.Permitted
import PromptScript.Proofs.Legible
import PromptScript.Proofs.Readback
import PromptScript.Proofs.Merged
import PromptScript.Proofs.StateFiles
import PromptScript.Proofs.Equality
import PromptScript.Proofs.Responses
import PromptScript.Proofs.WellFormed
import PromptScript.Proofs.ChatEntries
import PromptScript.Proofs.ChatForms
import PromptScript.Proofs.Paragraphs
import PromptScript.Proofs.Places
import PromptScript.Proofs.Assigned
import PromptScript.Proofs.Compound
import PromptScript.Proofs.Surroundings
import PromptScript.Proofs.Embedded
import PromptScript.Proofs.Climbing
import PromptScript.Proofs.Groupings
import PromptScript.Proofs.Shapes
import PromptScript.Proofs.Printing
import PromptScript.Proofs.Standing
import PromptScript.Proofs.Reprinted
import PromptScript.Proofs.Faithful
import PromptScript.Proofs.OptionalLinks
import PromptScript.Proofs.Onward
import PromptScript.Proofs.Headings
import PromptScript.Proofs.Positions
import PromptScript.Proofs.Excerpts
import PromptScript.Proofs.Derived
import PromptScript.Proofs.Escapes
import PromptScript.Proofs.Normalised
import PromptScript.Proofs.Forks
import PromptScript.Proofs.ForkedReadings
import PromptScript.Proofs.ForkedNodes
import PromptScript.Proofs.ForkedDocuments
import PromptScript.Proofs.Reheaded
import PromptScript.Proofs.Unplaced
import PromptScript.Proofs.HeaderEdits
import PromptScript.Proofs.Dedented
import PromptScript.Proofs.Coherence
import PromptScript.Proofs.Variables
import PromptScript.Proofs.Branches
import PromptScript.Proofs.Pointed
import PromptScript.Proofs.PointedReadings
import PromptScript.Proofs.Spines
import PromptScript.Proofs.Families
import PromptScript.Proofs.Substituted
import PromptScript.Proofs.Decimals
import PromptScript.Proofs.IndexTexts
import PromptScript.Proofs.OwnMembers
