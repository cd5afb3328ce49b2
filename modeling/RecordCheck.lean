import RecordCheck.Main
import RecordCheck.Proofs.Binary64.Product
import RecordCheck.Proofs.Check.Appended
import RecordCheck.Proofs.Check.Independent
import RecordCheck.Proofs.Check.Items
import RecordCheck.Proofs.Check.Linewise
import RecordCheck.Proofs.Check.Normalize
import RecordCheck.Proofs.Check.Records
import RecordCheck.Proofs.Check.Selection
import RecordCheck.Proofs.Check.Uncompiled
import RecordCheck.Proofs.Command.Report
import RecordCheck.Proofs.Command.Shapes
import RecordCheck.Proofs.Complex.Parts
import RecordCheck.Proofs.Complex.RoundTrip
import RecordCheck.Proofs.Decimal.Size
import RecordCheck.Proofs.Decode.Blame
import RecordCheck.Proofs.Decode.FrontEnds
import RecordCheck.Proofs.Decode.MovedTag
import RecordCheck.Proofs.Decode.ReadBack
import RecordCheck.Proofs.Decode.Serialized
import RecordCheck.Proofs.Decode.Streams
import RecordCheck.Proofs.Decode.Tagged
import RecordCheck.Proofs.Filter.Items
import RecordCheck.Proofs.Json.Doubles
import RecordCheck.Proofs.Json.Numbers
import RecordCheck.Proofs.Json.Numeral
import RecordCheck.Proofs.Json.Quoted
import RecordCheck.Proofs.Json.Reading
import RecordCheck.Proofs.Json.Whole
import RecordCheck.Proofs.Json.Written
