import StringAssembler.Listing.Sink
import StringAssembler.Main
import StringAssembler.Proofs.Segmentation.Greedy
import StringAssembler.Proofs.Conversion.Effects
import StringAssembler.Proofs.HexByte.Literals
import StringAssembler.Proofs.Listing.Data
import StringAssembler.Proofs.Conversion.Accumulation
import StringAssembler.Proofs.Table.Compilation
import StringAssembler.Proofs.Table.Feeding
import StringAssembler.Proofs.Table.Escapes
import StringAssembler.Proofs.Conversion.FirstFailure
import StringAssembler.Proofs.Listing.ReadBack
import StringAssembler.Proofs.Segmentation.RawBytes
import StringAssembler.Proofs.Segmentation.Decoding
import StringAssembler.Proofs.Conversion.SourceForms
import StringAssembler.Proofs.Table.Reordering
import StringAssembler.Proofs.Listing.LimitedRoom
import StringAssembler.Proofs.Conversion.RunLog
import StringAssembler.Proofs.Segmentation.Composition
import StringAssembler.Proofs.Conversion.RunOrder
import StringAssembler.Proofs.Listing.Comments
import StringAssembler.Proofs.CommandLine.LogFilter
import StringAssembler.Proofs.Segmentation.Shadowing
import StringAssembler.Proofs.Segmentation.Substrings
import StringAssembler.Proofs.Segmentation.Lookahead
import StringAssembler.Proofs.Segmentation.Coverage
import StringAssembler.Proofs.HexByte.Grammar
import StringAssembler.Proofs.Table.LineGrammar
import StringAssembler.Proofs.Listing.Box
import StringAssembler.Proofs.Table.Longest
