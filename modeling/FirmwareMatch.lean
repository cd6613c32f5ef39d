import FirmwareMatch.Disk.Volume
import FirmwareMatch.Main
import FirmwareMatch.Proofs.Corpus.Uniqueness
import FirmwareMatch.Proofs.Listing.Statement
import FirmwareMatch.Proofs.Listing.Reading
import FirmwareMatch.Proofs.Feature.Placement
import FirmwareMatch.Proofs.Feature.Targets
import FirmwareMatch.Proofs.Feature.Displacement
import FirmwareMatch.Proofs.Classification.Ranking
import FirmwareMatch.Proofs.Corpus.Sources
import FirmwareMatch.Proofs.Classification.OwnSource
import FirmwareMatch.Proofs.Corpus.Reordering
import FirmwareMatch.Proofs.Decimal.Quotient
import FirmwareMatch.Proofs.Classification.Ranked
import FirmwareMatch.Proofs.Listing.Comment
import FirmwareMatch.Proofs.Listing.Operands
import FirmwareMatch.Proofs.Listing.Layout
import FirmwareMatch.Proofs.Listing.Source
import FirmwareMatch.Proofs.Listing.Disassembly
import FirmwareMatch.Proofs.Feature.Relocation
import FirmwareMatch.Proofs.Listing.Progress
import FirmwareMatch.Proofs.Listing.Labels
import FirmwareMatch.Proofs.Listing.Selection
import FirmwareMatch.Proofs.Listing.Edits
import FirmwareMatch.Proofs.Listing.Appended
import FirmwareMatch.Proofs.Feature.Labelled
import FirmwareMatch.Proofs.Csv.RoundTrip
import FirmwareMatch.Proofs.Disk.Volume
import FirmwareMatch.Proofs.Table.Rows
import FirmwareMatch.Proofs.Table.Files
import FirmwareMatch.Proofs.Table.Document
import FirmwareMatch.Proofs.Corpus.Summary
import FirmwareMatch.Proofs.Classification.Persisted
import FirmwareMatch.Proofs.Corpus.Discovery
import FirmwareMatch.Proofs.Disk.Programs
import FirmwareMatch.Proofs.Store.RoundTrip
import FirmwareMatch.Proofs.Disk.Paths
import FirmwareMatch.Proofs.Feature.Addressed
import FirmwareMatch.Proofs.Corpus.Archive
import FirmwareMatch.Proofs.Disk.Files
import FirmwareMatch.Proofs.Disk.Fallible
import FirmwareMatch.Proofs.Corpus.Output
import FirmwareMatch.Proofs.Feature.Renaming
import FirmwareMatch.Proofs.Feature.Numbering
import FirmwareMatch.Proofs.Listing.Accounting
import FirmwareMatch.Proofs.Store.Requests
import FirmwareMatch.Proofs.Store.Reordering
import FirmwareMatch.Proofs.Listing.SharedLine
import FirmwareMatch.Proofs.Listing.Columns
import FirmwareMatch.Proofs.Store.Contents
import FirmwareMatch.Proofs.Config.Extensions
import FirmwareMatch.Proofs.Table.Regrouping
import FirmwareMatch.Proofs.Classification.Loading
import FirmwareMatch.Proofs.Feature.Annotated
import FirmwareMatch.Proofs.Feature.LabelOffset
import FirmwareMatch.Proofs.Listing.Segments
import FirmwareMatch.Proofs.Listing.AddressColumn
