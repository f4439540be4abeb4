import Tribyte.Main
import Tribyte.Proofs.Assembly.Case
import Tribyte.Proofs.Assembly.Concatenation
import Tribyte.Proofs.Assembly.Lookup
import Tribyte.Proofs.Assembly.Malformed
import Tribyte.Proofs.Assembly.Operand
import Tribyte.Proofs.Assembly.Overflow
import Tribyte.Proofs.Assembly.RoundTrip
import Tribyte.Proofs.Assembly.Spacing
import Tribyte.Proofs.Cli.Assembling
import Tribyte.Proofs.Cli.Failure
import Tribyte.Proofs.Cli.Listing
import Tribyte.Proofs.Cli.Offsets
import Tribyte.Proofs.Cli.Redirection
import Tribyte.Proofs.Constants.Flags
import Tribyte.Proofs.Image.Diagnosis
import Tribyte.Proofs.Layout.Packing
import Tribyte.Proofs.Session.Run
import Tribyte.Proofs.Session.SavedImage
import Tribyte.Proofs.Session.WholeStream
import Tribyte.Proofs.Stream.Bytes
import Tribyte.Proofs.Stream.Calls
import Tribyte.Proofs.Stream.Concatenation
import Tribyte.Proofs.Stream.Misreading
import Tribyte.Proofs.Stream.Readout
import Tribyte.Proofs.Stream.RoundTrip
import Tribyte.Proofs.Stream.Transcoding
import Tribyte.Session
