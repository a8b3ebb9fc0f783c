import EasyDds.Cdr.RoundTrip.Xcdr1
import EasyDds.Cdr.RoundTrip.Xcdr2
import EasyDds.Rtps.Fragment.Misfit
import EasyDds.Rtps.Message.Bounds
import EasyDds.Dds.Subscriber.Ownership
import EasyDds.Dds.Publisher.Retention
import EasyDds.Cdr.Decode.Delimited
import EasyDds.Rtps.Message.GenericMessage
import EasyDds.Dds.Filter.Like
import EasyDds.Dds.Filter.Order
import EasyDds.Rtps.SharedMem.Interleaving
import EasyDds.Rtps.DataSharing.Progress
import EasyDds.Rtps.Group.Sendable
import EasyDds.Rtps.Reader.Missing
import EasyDds.Rtps.Time
import EasyDds.Rtps.Transport.Framing
import EasyDds.Rtps.Transport.Control
import EasyDds.Rtps.Writer.PendingGaps
import EasyDds.Rtps.Writer.Stability
import EasyDds.Rtps.DataSharing.Torn
import EasyDds.Rtps.SharedMem.Recovery
import EasyDds.Rtps.History.ChangePool
import EasyDds.Rtps.Transport.PortSearch
