import NandroidFS.Streams.Prog
import NandroidFS.Streams.Lines
import NandroidFS.Streams.ByteStream
import NandroidFS.Streams.Socket
import NandroidFS.Streams.Duplex
import NandroidFS.Streams.Bytes
import NandroidFS.Streams.Conduct
import NandroidFS.Streams.Runs
import NandroidFS.Streams.EndOfStream
import NandroidFS.Streams.Interruption
import NandroidFS.Streams.Parsing
import NandroidFS.Shared.ByteOrder
import NandroidFS.Shared.Serialization
import NandroidFS.Shared.Sequences
import NandroidFS.Shared.Endpoint
import NandroidFS.Shared.Primitives
import NandroidFS.Shared.Messages
import NandroidFS.Shared.Grammar
import NandroidFS.Shared.PathUtils
import NandroidFS.Shared.Text
import NandroidFS.Daemon.Syscall
import NandroidFS.Protocol.Requests
import NandroidFS.Protocol.Spelling
import NandroidFS.Daemon.ClientHandler
import NandroidFS.Daemon.Serve
import NandroidFS.Daemon.MessageLoop
import NandroidFS.Daemon.AnyInput
import NandroidFS.Client.Conversion
import NandroidFS.Client.Names
import NandroidFS.Client.Connection
import NandroidFS.Protocol.Exchange
import NandroidFS.Protocol.Session
import NandroidFS.Protocol.Failures
import NandroidFS.Protocol.Lengths
import NandroidFS.Protocol.Handshake
import NandroidFS.Protocol.HangUp
import NandroidFS.Protocol.Breakage
import NandroidFS.Protocol.CutOff
import NandroidFS.Files.ByteFile
import NandroidFS.Files.Posix
import NandroidFS.Files.Refinement
import NandroidFS.Files.Copying
import NandroidFS.Files.Tree
import NandroidFS.Files.TreeCalls
import NandroidFS.Files.TreeDevice
import NandroidFS.Daemon.Removal
import NandroidFS.Daemon.Moves
import NandroidFS.Client.TimedCache
import NandroidFS.Client.TimedMap
import NandroidFS.Client.Retention
import NandroidFS.Client.System
import NandroidFS.Client.DesktopIni
import NandroidFS.Client.Discipline
import NandroidFS.Client.Mutex
import NandroidFS.Client.Coherence
import NandroidFS.Client.Freshness
import NandroidFS.Client.Staleness
import NandroidFS.Client.Timeline
import NandroidFS.Client.CachedListings
import NandroidFS.Dokan.Operations
import NandroidFS.Dokan.OnDevice
import NandroidFS.Dokan.Mounted
import NandroidFS.Dokan.AllocationSize
import NandroidFS.Dokan.FileTimes
import NandroidFS.Dokan.Descriptors
import NandroidFS.Dokan.Creation
import NandroidFS.Mount.Nandroid
import NandroidFS.Mount.AgentThread
import NandroidFS.Mount.DeviceTracker
import NandroidFS.Mount.AgentOutput
import NandroidFS.Mount.Lifetimes
import NandroidFS.Mount.AuthorizedDevices
import NandroidFS.Mount.Scans
import NandroidFS.Mount.Callbacks
import NandroidFS.Mount.Ports
import NandroidFS.Mount.Application
import NandroidFS.Mount.Connecting
