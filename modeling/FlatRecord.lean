import FlatRecord.Builder.Operation
import FlatRecord.Main
import FlatRecord.Proofs.Builder.Agreement
import FlatRecord.Proofs.Builder.Marks
import FlatRecord.Proofs.Builder.OpenRecord
import FlatRecord.Proofs.Builder.Permanence
import FlatRecord.Proofs.Builder.RecordEnd
import FlatRecord.Proofs.Builder.Reuse
import FlatRecord.Proofs.Builder.SharedTables
import FlatRecord.Proofs.Builder.Sharing
import FlatRecord.Proofs.Codec.Grown
import FlatRecord.Proofs.Codec.Lengths
import FlatRecord.Proofs.Codec.Refusals
import FlatRecord.Proofs.Codec.Remainder
import FlatRecord.Proofs.Codec.StructLayout
import FlatRecord.Proofs.Codec.Variants
import FlatRecord.Proofs.Reading.Accessors
import FlatRecord.Proofs.Reading.Decoded
import FlatRecord.Proofs.Reading.Extended
import FlatRecord.Proofs.Reading.Filtered
import FlatRecord.Proofs.Reading.Kept
import FlatRecord.Proofs.Reading.Opening
import FlatRecord.Proofs.Reading.StructAccess
import FlatRecord.Proofs.Reading.Positions
import FlatRecord.Proofs.RegionRuns
