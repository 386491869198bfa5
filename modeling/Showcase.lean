import Showcase.Files.Listing
import Showcase.Main
import Showcase.Proofs.Outcome
import Showcase.Proofs.Registry.Lexeme
import Showcase.Proofs.Registry.Chain
import Showcase.Proofs.Registry.Balance
import Showcase.Proofs.Registry.Walk
import Showcase.Proofs.Registry.Nesting
import Showcase.Proofs.Registry.Chunks
import Showcase.Proofs.Registry.Search
import Showcase.Proofs.Registry.Statements
import Showcase.Proofs.Registry.Bare
import Showcase.Proofs.Registry.Content
import Showcase.Proofs.Registry.Reading
import Showcase.Proofs.Registry.Quoting
import Showcase.Proofs.Registry.Records
import Showcase.Proofs.Registry.Imports
import Showcase.Proofs.Registry.Readable
import Showcase.Proofs.Registry.LiteralToken
import Showcase.Proofs.Registry.Rewrite
import Showcase.Proofs.Registry.SetField
import Showcase.Proofs.Registry.FieldOutcome
import Showcase.Proofs.Files.Walk
import Showcase.Proofs.Files.Storage
import Showcase.Proofs.Files.Ends
import Showcase.Proofs.Files.Writing
import Showcase.Proofs.Files.Stored
import Showcase.Proofs.Changes
import Showcase.Proofs.Registry.Cutting
import Showcase.Proofs.Registry.Declaration
import Showcase.Proofs.Registry.Removal
import Showcase.Proofs.Registry.Arrangement
import Showcase.Proofs.Deletions
import Showcase.Proofs.Remaining
import Showcase.Proofs.Rows
import Showcase.Proofs.Register
import Showcase.Proofs.Refinement
import Showcase.Proofs.Registry.RegistryForm
import Showcase.Proofs.Files.Directories
import Showcase.Proofs.Files.Resolution
import Showcase.Proofs.Files.Links
import Showcase.Proofs.Companions
import Showcase.Proofs.Http.Confinement
import Showcase.Proofs.Answers
import Showcase.Proofs.Notes.Failing
import Showcase.Proofs.Json.RoundTrip
import Showcase.Proofs.Files.Missing
import Showcase.Proofs.Files.Placed
import Showcase.Proofs.Notes.LastWrite
import Showcase.Proofs.Registry.Moving
import Showcase.Proofs.Registry.Placement
import Showcase.Proofs.Registry.LineEnds
import Showcase.Proofs.Registry.Checked.Characters
import Showcase.Proofs.Registry.Checked.Escapes
import Showcase.Proofs.Registry.Checked.Brackets
import Showcase.Proofs.Registry.Checked.Imports
import Showcase.Proofs.Registry.Checked.Reader
import Showcase.Proofs.Registry.WholeLines
import Showcase.Proofs.Registry.Reach
import Showcase.Proofs.Cuts
import Showcase.Proofs.Files.Contents
import Showcase.Proofs.Reports
import Showcase.Proofs.Registry.LineEndScan
import Showcase.Proofs.Registry.LineEndRegions
import Showcase.Proofs.Registry.LineEndEdits
import Showcase.Proofs.LineEnds
import Showcase.Proofs.Registry.Partition
import Showcase.Proofs.Registry.LiteralGrammar
import Showcase.Proofs.Json.Faults
import Showcase.Proofs.Notes.Reading
import Showcase.Proofs.Registry.FieldPlace
import Showcase.Proofs.Registry.Resizing
import Showcase.Proofs.Registry.Commuting
import Showcase.Proofs.FieldEdits
import Showcase.Proofs.Files.ReadBack
import Showcase.Proofs.Aliases
import Showcase.Proofs.Bindings
import Showcase.Proofs.Files.Renewal
import Showcase.Proofs.Lifetime
