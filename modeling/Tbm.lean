import Tbm.Core.Links
import Tbm.Core.Walk
import Tbm.Core.Program
import Tbm.Core.Runs
import Tbm.Core.Threads
import Tbm.Core.Rely
import Tbm.Core.Wakeups
import Tbm.Queue.State
import Tbm.Queue.Operations
import Tbm.Queue.Layout
import Tbm.Queue.Loops
import Tbm.Queue.View
import Tbm.Queue.Refinement
import Tbm.Queue.Reachable
import Tbm.Queue.Surfaces
import Tbm.Queue.Machine
import Tbm.Queue.Simulation
import Tbm.Queue.Sequence
import Tbm.Queue.Changes
import Tbm.Queue.Protocol
import Tbm.Queue.Passes
import Tbm.Queue.Locking
import Tbm.Queue.Schedules
import Tbm.Queue.Capacity
import Tbm.Queue.Epochs
import Tbm.Queue.Wakeups
import Tbm.Queue.Failures
import Tbm.Queue.References
import Tbm.Bufmgr.Report
import Tbm.Bufmgr.Operations
import Tbm.Bufmgr.Moves
import Tbm.Bufmgr.Paths
import Tbm.Bufmgr.Calls
import Tbm.Bufmgr.Accounts
import Tbm.Bufmgr.Handles
import Tbm.Bufmgr.Buffers
import Tbm.Bufmgr.Lifetime
import Tbm.Core.Locals
import Tbm.Bufmgr.Mapping
import Tbm.Bufmgr.Locks
import Tbm.Bufmgr.Flags
import Tbm.Bufmgr.Creation
import Tbm.Bufmgr.Sizes
import Tbm.Bufmgr.Steady
import Tbm.Bufmgr.Backlinks
import Tbm.Bufmgr.Loading
import Tbm.Bufmgr.Nesting
import Tbm.Queue.Detaching
import Tbm.Bufmgr.UserData
import Tbm.Queue.Callbacks
import Tbm.Core.Order
import Tbm.Bufmgr.Dumps
import Tbm.Bufmgr.Order
import Tbm.Bufmgr.Tables
import Tbm.Core.Outcomes
import Tbm.Bufmgr.AllOrNothing
import Tbm.Bufmgr.Agreement
import Tbm.Bufmgr.DebugData
import Tbm.Queue.Notify
import Tbm.Queue.Shrinking
import Tbm.Queue.Counters
import Tbm.Bufmgr.Ring
import Tbm.Bufmgr.RingView
import Tbm.Bufmgr.Images
import Tbm.Bufmgr.Overruns
import Tbm.Core.Linear
import Tbm.Queue.Linear
import Tbm.Queue.Concurrent
import Tbm.Bufmgr.Linear
import Tbm.Core.Strings
import Tbm.Bufmgr.Modules
import Tbm.Drm.Server
import Tbm.Drm.Client
import Tbm.Drm.Session
import Tbm.Drm.Environ
import Tbm.Sync
import Tbm.Queue.Roster
import Tbm.Bufmgr.Getters
import Tbm.Bufmgr.Sharing
import Tbm.Bufmgr.Show
import Tbm.Queue.Answers
