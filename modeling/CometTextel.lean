import CometTextel.Library.Octet
import CometTextel.Library.Radix
import CometTextel.Library.Utf8
import CometTextel.Library.Utf16
import CometTextel.Library.Cutting
import CometTextel.Library.FirstSight
import CometTextel.Library.ListParser
import CometTextel.Library.SelfDelimiting
import CometTextel.Library.Search
import CometTextel.Library.Extractor
import CometTextel.Library.Deadline
import CometTextel.Library.Scripted
import CometTextel.Library.ShortWrite
import CometTextel.Library.Handles
import CometTextel.Library.Lockstep
import CometTextel.Types
import CometTextel.Checked
import CometTextel.Hex
import CometTextel.Septets
import CometTextel.Text
import CometTextel.Submit
import CometTextel.Decode
import CometTextel.Grammar
import CometTextel.Layout
import CometTextel.Reassemble
import CometTextel.ModemText
import CometTextel.ModemStream
import CometTextel.Modem
import CometTextel.Channel
import CometTextel.MessageList
import CometTextel.CApi
import CometTextel.CMessage
import CometTextel.Open
import CometTextel.SerialPort
import CometTextel.CSubmit
import CometTextel.Proof.Hex
import CometTextel.Proof.Septets
import CometTextel.Proof.Text
import CometTextel.Proof.Ucs2
import CometTextel.Proof.Gsm7
import CometTextel.Proof.Segments
import CometTextel.Proof.Decode
import CometTextel.Proof.Submit
import CometTextel.Proof.SelfDelimiting
import CometTextel.Proof.Layout
import CometTextel.Proof.UserDataHeader
import CometTextel.Proof.MessageClass
import CometTextel.Proof.CMessage
import CometTextel.Proof.Packing
import CometTextel.Proof.ReportData
import CometTextel.Proof.RoundTrip
import CometTextel.Proof.LengthOctets
import CometTextel.Proof.OneOrMany
import CometTextel.Proof.Malformed
import CometTextel.Proof.Reassemble
import CometTextel.Proof.Reassembled
import CometTextel.Proof.ListedText
import CometTextel.Proof.Marks
import CometTextel.Proof.ArrivalOrder
import CometTextel.Proof.Repeats
import CometTextel.Proof.SendReceive
import CometTextel.Proof.Decimal
import CometTextel.Proof.MessageList
import CometTextel.Proof.Demux
import CometTextel.Proof.Verdict
import CometTextel.Proof.UrcSeparation
import CometTextel.Proof.MessageBlocks
import CometTextel.Proof.Moves
import CometTextel.Proof.Answered
import CometTextel.Proof.Open
import CometTextel.Proof.Dialogue
import CometTextel.Proof.Obliging
import CometTextel.Proof.ShortWrites
import CometTextel.Proof.CmgsLength
import CometTextel.Proof.StatusReports
import CometTextel.Proof.Channel
import CometTextel.Proof.Credit
import CometTextel.Proof.Clients
import CometTextel.Proof.Spoken
import CometTextel.Proof.SerialPort
import CometTextel.Proof.Alike
import CometTextel.Proof.SerialModem
import CometTextel.Proof.Timing
import CometTextel.Proof.Timeouts
import CometTextel.Proof.Handed
import CometTextel.Proof.Authentic
import CometTextel.Proof.CSubmit
import CometTextel.Proof.Forward
import CometTextel.Proof.WholeAnswers
import CometTextel.Proof.Inbox
import CometTextel.Proof.Delivery
import CometTextel.Proof.Served
import CometTextel.Proof.Prompted
