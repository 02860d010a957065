import BlockGraph.Archive.Bytes
import BlockGraph.Archive.Checksum
import BlockGraph.Archive.Inflate
import BlockGraph.Archive.Reader
import BlockGraph.Archive.Writer
import BlockGraph.Arena
import BlockGraph.Arena.Traversal
import BlockGraph.Binary64
import BlockGraph.Block
import BlockGraph.Branch
import BlockGraph.Catalog.Literal
import BlockGraph.Catalog.Menu
import BlockGraph.Catalog.Spec
import BlockGraph.Choice
import BlockGraph.CommandLine.Arguments
import BlockGraph.CommandLine.Run
import BlockGraph.Decimal.Layout
import BlockGraph.Decimal.Reading
import BlockGraph.Decimal.Shortest
import BlockGraph.Dict
import BlockGraph.Document.Reader
import BlockGraph.Document.Writer
import BlockGraph.Edit.Declaration
import BlockGraph.Edit.FieldWrite
import BlockGraph.Edit.NewBlock
import BlockGraph.Edit.Placement
import BlockGraph.Edit.Splice
import BlockGraph.Edit.Workspace
import BlockGraph.Editor
import BlockGraph.Failure
import BlockGraph.Fault
import BlockGraph.Identifier
import BlockGraph.Json.Printer
import BlockGraph.Json.Reader
import BlockGraph.Json.Token
import BlockGraph.Json.Value
import BlockGraph.Main
import BlockGraph.Outline
import BlockGraph.Outline.Listing
import BlockGraph.Project
import BlockGraph.Session
import BlockGraph.Session.Answer
import BlockGraph.Session.Batch
import BlockGraph.Session.Envelope
import BlockGraph.Session.Request
import BlockGraph.Storage
import BlockGraph.Storage.Path
import BlockGraph.Storage.ProjectFile
import BlockGraph.Text.Blank
import BlockGraph.Text.Quoted
import BlockGraph.Proofs.Arena
import BlockGraph.Proofs.Forest
import BlockGraph.Proofs.Search
import BlockGraph.Proofs.Slots
import BlockGraph.Proofs.Tidy
import BlockGraph.Proofs.Catalog
import BlockGraph.Proofs.Tidy.Edits
import BlockGraph.Proofs.Project
import BlockGraph.Proofs.Storable
import BlockGraph.Proofs.Traversal
import BlockGraph.Proofs.Refusals
import BlockGraph.Proofs.WellLinked
import BlockGraph.Proofs.WellLinked.Moves
import BlockGraph.Proofs.WellLinked.Removal
import BlockGraph.Proofs.WellLinked.Growth
import BlockGraph.Proofs.WellLinked.NewBlocks
import BlockGraph.Proofs.WellLinked.Projects
import BlockGraph.Proofs.WellLinked.Listings
import BlockGraph.Proofs.Outcomes
import BlockGraph.Proofs.Dict
import BlockGraph.Proofs.WellLinked.Sessions
import BlockGraph.Proofs.Outline
import BlockGraph.Proofs.Reading
import BlockGraph.Proofs.Listing
import BlockGraph.Proofs.Reloading
import BlockGraph.Proofs.Reloading.Projects
import BlockGraph.Proofs.Outline.Sketch
import BlockGraph.Proofs.Outline.Drawing
import BlockGraph.Proofs.Outline.Headings
import BlockGraph.Proofs.Text
import BlockGraph.Proofs.Listing.OneRow
import BlockGraph.Proofs.Listing.Rows
import BlockGraph.Proofs.Dangling
import BlockGraph.Proofs.Resaving
import BlockGraph.Proofs.Reloading.Listings
import BlockGraph.Proofs.Numbering
import BlockGraph.Proofs.Places
import BlockGraph.Proofs.Hats
import BlockGraph.Proofs.Values
import BlockGraph.Proofs.Requests
import BlockGraph.Proofs.Entities
import BlockGraph.Proofs.Splicing
import BlockGraph.Proofs.Booleans
import BlockGraph.Proofs.Contents
import BlockGraph.Proofs.Changes
import BlockGraph.Proofs.References
import BlockGraph.Proofs.Names
import BlockGraph.Proofs.Listing.Decoration
import BlockGraph.Proofs.Operations
import BlockGraph.Proofs.Confinement
import BlockGraph.Proofs.Rollback
import BlockGraph.Proofs.Interruption
import BlockGraph.Proofs.Mentions
import BlockGraph.Proofs.Exchange
import BlockGraph.Proofs.Grafting
import BlockGraph.Proofs.Reattachment
import BlockGraph.Proofs.Deletion
import BlockGraph.Proofs.Expansion
import BlockGraph.Proofs.Additions
import BlockGraph.Proofs.Writes
import BlockGraph.Proofs.Repetition
import BlockGraph.Proofs.Outline.Redrawing
import BlockGraph.Proofs.Visibility
import BlockGraph.Proofs.Subtrees
import BlockGraph.Proofs.Choices
import BlockGraph.Proofs.Mappings
import BlockGraph.Proofs.Appending
import BlockGraph.Proofs.Listing.Literals
import BlockGraph.Proofs.Choices.Groups
import BlockGraph.Proofs.Histories
