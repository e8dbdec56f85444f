import OpenAisg.Api.App
import OpenAisg.Api.Events
import OpenAisg.Api.Jobs
import OpenAisg.Api.Requests
import OpenAisg.Api.Stream
import OpenAisg.Basic
import OpenAisg.Exceptions
import OpenAisg.Hdlc
import OpenAisg.Hdlc.Checksum
import OpenAisg.Hdlc.Deframer
import OpenAisg.Hdlc.Overrun
import OpenAisg.Hdlc.Stream
import OpenAisg.Lib.Bisect
import OpenAisg.Lib.Crc
import OpenAisg.Lib.Fifo
import OpenAisg.Lib.Pieces
import OpenAisg.Lib.Prog
import OpenAisg.Lib.Trace
import OpenAisg.Link.Acceptance
import OpenAisg.Link.Bench
import OpenAisg.Link.Channel
import OpenAisg.Link.Commands
import OpenAisg.Link.Connect
import OpenAisg.Link.Deadline
import OpenAisg.Link.Demux
import OpenAisg.Link.Exchange
import OpenAisg.Link.FakeSecondary
import OpenAisg.Link.FakeSerial
import OpenAisg.Link.Faults
import OpenAisg.Link.Grouping
import OpenAisg.Link.Inbound
import OpenAisg.Link.Ledger
import OpenAisg.Link.Line
import OpenAisg.Link.OneShot
import OpenAisg.Link.Pump
import OpenAisg.Link.Replies
import OpenAisg.Link.Retransmission
import OpenAisg.Link.Scan
import OpenAisg.Link.Sequence
import OpenAisg.Link.Stations
import OpenAisg.Retap.Codes
import OpenAisg.Retap.Procedures
import OpenAisg.Retap.Ret
import OpenAisg.Session.Alarms
import OpenAisg.Session.ArrivalOrder
import OpenAisg.Session.Backoff
import OpenAisg.Session.Baselines
import OpenAisg.Session.Bench
import OpenAisg.Session.Delivery
import OpenAisg.Session.Discovery
import OpenAisg.Session.ExactlyOnce
import OpenAisg.Session.Futures
import OpenAisg.Session.Lease
import OpenAisg.Session.LinkEvents
import OpenAisg.Session.Machine
import OpenAisg.Session.Methods
import OpenAisg.Session.Octets
import OpenAisg.Session.Quarantine
import OpenAisg.Session.Release
import OpenAisg.Session.Reports
import OpenAisg.Session.Requests
import OpenAisg.Session.Resolution
import OpenAisg.Session.Run
import OpenAisg.Session.Shutdown
import OpenAisg.Session.State
import OpenAisg.Session.Sweep
import OpenAisg.Session.Tilt
import OpenAisg.Session.Transitions
import OpenAisg.Session.Turns
import OpenAisg.Session.Walk
