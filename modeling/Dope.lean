import Dope.Base.Avl
import Dope.Base.Run
import Dope.Egress.Wait.Select
import Dope.Egress.Credit.Runs
import Dope.Dns.Host
import Dope.Dns.Wire.Packet
import Dope.Dns.Wire.Cookies
import Dope.Dns.Wire.Replay
import Dope.Base.Planes
import Dope.Dns.Tx.Table
import Dope.Dns.Tx.Runs
import Dope.Dns.Wire.Response
import Dope.Core.Clock
import Dope.Dns.Error
import Dope.Dns.Storage.State
import Dope.Dns.Storage.Queries
import Dope.Dns.Storage.Settle
import Dope.Dns.Storage.Steps
import Dope.Dns.Storage.Runs
import Dope.Dns.Storage.Integrity
import Dope.Dns.Lookup.Discovery
import Dope.Dns.Lookup.Turns
import Dope.Dns.Storage.Tracks
import Dope.Dns.Storage.Retire
import Dope.Dns.Storage.Sweeps
import Dope.Dns.Lookup.Runs
import Dope.Base.Feistel
import Dope.Runtime.Random
import Dope.Dns.Tx.Fresh
import Dope.Dns.Wire.Frames
import Dope.Dns.Wire.RoundTrip
import Dope.Dns.Wire.Order
import Dope.Base.Hole
import Dope.Core.Timer.Heap
import Dope.Core.Timer.Rep
import Dope.Core.Timer.Ops
import Dope.Core.Timer.Runs
import Dope.Base.Resident
import Dope.Manifold.Deadline
import Dope.Manifold.Lanes
import Dope.Manifold.Runs
import Dope.Base.Summary
import Dope.Core.Ready.Set
import Dope.Core.Ready.Packed
import Dope.Core.Ready.Log
import Dope.Core.Ready.Fair
import Dope.Core.Ready.Runs
import Dope.Base.Links
import Dope.Core.Ready.Arena.Words
import Dope.Core.Ready.Arena.Cells
import Dope.Core.Ready.Arena.Topology
import Dope.Core.Ready.Arena.Pool
import Dope.Core.Ready.Arena.World
import Dope.Core.Ready.Arena.Lanes
import Dope.Core.Ready.Arena.Owners
import Dope.Core.Ready.Arena.Filed
import Dope.Core.Ready.Arena.Moves
import Dope.Core.Ready.Arena.Live
import Dope.Core.Ready.Arena.Turns
import Dope.Core.Ready.Arena.Leaves
import Dope.Core.Ready.Arena.Steps
import Dope.Core.Ready.Arena.Runs
import Dope.Core.Ready.Fanout.Registry
import Dope.Core.Ready.Fanout.Runs
import Dope.Manifold.Attempt.Runs
import Dope.OneShot.Cell
import Dope.OneShot.Pool
import Dope.OneShot.Inv
import Dope.OneShot.Runs
import Dope.Base.Span
import Dope.Core.Fd.Resident
import Dope.Core.Fd.Retire
import Dope.Core.Fd.Table
import Dope.Core.Fd.Domain
import Dope.Core.Fd.Lines
import Dope.Core.Fd.Tiles
import Dope.Core.Fd.Reclaim
import Dope.Core.Fd.Held
import Dope.Core.Fd.Slots
import Dope.Core.Fd.Settle
import Dope.Core.Fd.Leases
import Dope.Core.Fd.Echoes
import Dope.Core.Fd.Runs
import Dope.Dns.Wire.Unchecked
import Dope.Base.Trail
import Dope.Dns.Wire.Aliases
import Dope.Base.Rows
import Dope.Kqueue.Changes
import Dope.Kqueue.Ledger
import Dope.Kqueue.Refines
import Dope.Kqueue.Runs
import Dope.Base.Cycle
import Dope.Base.Tally
import Dope.Reply.Credit
import Dope.Reply.Book
import Dope.Reply.Rings
import Dope.Reply.Runs
import Dope.Base.Lanes
import Dope.Manifold.Side.Registry
import Dope.Manifold.Side.Inv
import Dope.Manifold.Side.Steps
import Dope.Manifold.Side.Runs
import Dope.Base.Round
import Dope.Manifold.Service.Entries
import Dope.Manifold.Service.Settles
import Dope.Manifold.Service.Chooses
import Dope.Manifold.Service.Applies
import Dope.Manifold.Service.Dials
import Dope.Manifold.Service.Pool
import Dope.Manifold.Service.Chains
import Dope.Manifold.Service.Joint
import Dope.Manifold.Service.Steps
import Dope.Manifold.Service.Runs
import Dope.Manifold.Service.Delays
import Dope.Manifold.Service.Tends
import Dope.Manifold.Service.Tending
import Dope.Manifold.Service.Scans
import Dope.Manifold.Service.Reconciles
import Dope.Manifold.Service.Snapshots
import Dope.Dns.Wire.Expansion
import Dope.Base.Fields
import Dope.Uring.Host
import Dope.Uring.Token
import Dope.Base.Window
import Dope.Uring.Queue
import Dope.Uring.Runs
import Dope.Core.Ready.Arena.Parents
import Dope.Core.Ready.Arena.Climbs
import Dope.Core.Ready.Arena.Wakes
import Dope.Core.Ready.Arena.Tree
import Dope.Dns.Storage.Courses
import Dope.Dns.Storage.Moves
import Dope.Dns.Storage.Deadlines
import Dope.Base.Stack
import Dope.Core.Flight.State
import Dope.Core.Flight.Batch
import Dope.Core.Flight.Issue
import Dope.Core.Flight.Sizing
import Dope.Base.Share
import Dope.Egress.Metadata.Account
import Dope.Egress.Metadata.Slab
import Dope.Egress.Metadata.Formed
import Dope.Egress.Metadata.Batches
import Dope.Egress.Metadata.Publishes
import Dope.Core.Clock.Furthest
import Dope.Runtime.Stream
import Dope.Egress.Metadata.Demand
import Dope.Dns.Grammar
import Dope.Base.Rota
import Dope.Tasks.Counts
import Dope.Tasks.Lanes
import Dope.Tasks.Places
import Dope.Tasks.Runs
import Dope.Egress.Metadata.Front
import Dope.Egress.Metadata.Flight
import Dope.Egress.Metadata.Runs
