import Sodchan.Model.Primitives
import Sodchan.Model.Indices
import Sodchan.Model.Queues
import Sodchan.Model.FrameStreams
import Sodchan.Model.Transcripts
import Sodchan.Session.Auth
import Sodchan.Session.Clearance
import Sodchan.Session.Pinning
import Sodchan.Session.Progress
import Sodchan.Session.Fresh
import Sodchan.Stream.Chunking
import Sodchan.Channel.Protocol
import Sodchan.Channel.Bounds
import Sodchan.Link.Linked
import Sodchan.Channel.Atomic
import Sodchan.Channel.Packets
import Sodchan.Channel.Lifetimes
import Sodchan.Channel.Allowlist
import Sodchan.Session.Device
import Sodchan.Session.Identity
import Sodchan.Channel.Concord
import Sodchan.Channel.Minutes
import Sodchan.Channel.Reports
import Sodchan.Link.Noted
import Sodchan.Link.Matching
import Sodchan.Link.Balance
import Sodchan.Link.Authenticated
import Sodchan.Link.Arrival
