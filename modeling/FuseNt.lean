import FuseNt.Lib.Bytes
import FuseNt.Lib.Chain
import FuseNt.Lib.Span
import FuseNt.Lib.Utf
import FuseNt.Lib.CString
import FuseNt.Lib.Run
import FuseNt.Lib.Replay
import FuseNt.Lib.Simulation
import FuseNt.Lib.Ranges
import FuseNt.Lib.Forest
import FuseNt.Lib.SharedLocks
import FuseNt.Lib.OpenAddressing
import FuseNt.Nt
import FuseNt.Proto
import FuseNt.Driver.StrHash
import FuseNt.Driver.Query
import FuseNt.Driver.QueryResult
import FuseNt.Driver.Io
import FuseNt.Driver.ModuleMap
import FuseNt.Driver.Hashmap
import FuseNt.Driver.Identity
import FuseNt.Driver.QueueRep
import FuseNt.Driver.ReplyRep
import FuseNt.Driver.Machine
import FuseNt.Driver.Conservation
import FuseNt.Driver.QueueInvariant
import FuseNt.Driver.Replies
import FuseNt.Driver.Fifo
import FuseNt.Driver.Dispatch
import FuseNt.Driver.Threads
import FuseNt.Module.DirControl
import FuseNt.Module.Paging
import FuseNt.Module.Lowlevel
import FuseNt.Module.Handlers
import FuseNt.Module.DirStream
import FuseNt.Module.DirSafety
import FuseNt.Module.Answers
import FuseNt.Module.Reopen
import FuseNt.Module.Positions
import FuseNt.Module.Locks
import FuseNt.Module.DirHandle
import FuseNt.Module.DirReading
import FuseNt.Module.DirListing
import FuseNt.Module.PathBuffer
import FuseNt.Module.NodeTable
import FuseNt.Module.NodeShape
import FuseNt.Module.NodeSpecs
import FuseNt.Module.PathLocks
import FuseNt.Module.NodeSections
import FuseNt.Module.Namespace
import FuseNt.Module.NodeInvariant
import FuseNt.Module.NodeService
import FuseNt.Module.NodeSafety
import FuseNt.Module.NodeIds
import FuseNt.Module.Tickets
import FuseNt.Module.Arguments
import FuseNt.Module.Nodes
import FuseNt.Module.PathWalk
import FuseNt.Module.ParentInode
import FuseNt.Module.CreateBuffer
import FuseNt.Module.Basename
import FuseNt.RoundTrip.Read
import FuseNt.RoundTrip.Error
import FuseNt.RoundTrip.Request
import FuseNt.RoundTrip.DirControl
import FuseNt.RoundTrip.Session
import FuseNt.Driver.Fleet
import FuseNt.Driver.Registry
import FuseNt.Driver.System
import FuseNt.Driver.Impersonation
import FuseNt.Driver.Interleaving
import FuseNt.Driver.Mounts
import FuseNt.Driver.Names
import FuseNt.Driver.VolumeQuery
import FuseNt.Driver.NameBounds
import FuseNt.Driver.Dismount
import FuseNt.Driver.Unload
import FuseNt.Driver.RequestBounds
import FuseNt.Driver.DirBounds
import FuseNt.Driver.ResponseBounds
import FuseNt.Driver.ResponseFrame
import FuseNt.Driver.FoundWork
import FuseNt.Driver.ControlStatus
import FuseNt.Driver.Reencode
