import Wasp.Lib.ByteMem
import Wasp.Lib.Run
import Wasp.Lib.Tokens
import Wasp.Lib.Layout
import Wasp.Lib.Words
import Wasp.Lib.Pruning
import Wasp.Lib.LittleEndian
import Wasp.Lib.Worklist
import Wasp.Runtime.Virtine
import Wasp.Runtime.Cache
import Wasp.Runtime.Hypercall
import Wasp.Runtime.RunVirtine
import Wasp.Runtime.Confinement
import Wasp.Runtime.Whitelist
import Wasp.Runtime.CacheRun
import Wasp.Runtime.Regions
import Wasp.Runtime.RoundTrip
import Wasp.Runtime.Recycling
import Wasp.Runtime.Invocation
import Wasp.Runtime.Isolation
import Wasp.Runtime.Lockstep
import Wasp.Runtime.Modes
import Wasp.Runtime.Spinlock
import Wasp.Runtime.Race
import Wasp.Runtime.Outcome
import Wasp.Runtime.Slot
import Wasp.Runtime.Failure
import Wasp.Runtime.Registry
import Wasp.Runtime.Loading
import Wasp.Runtime.CacheLoad
import Wasp.Runtime.Accounts
import Wasp.Runtime.Arguments
import Wasp.Libc.Syscalls
import Wasp.Libc.Requests
import Wasp.Libc.Heap
import Wasp.Libc.Room
import Wasp.Libc.Stat
import Wasp.Guest.SetJmp
import Wasp.Pass.Ir
import Wasp.Pass.Compile
import Wasp.Pass.Blocks
import Wasp.Pass.Fields
import Wasp.Pass.Refinement
import Wasp.Pass.Pointers
import Wasp.Pass.DeadCode
import Wasp.Pass.Constructors
import Wasp.Pass.Toolchain
import Wasp.Pass.RunOnModule
import Wasp.Pass.Paths
import Wasp.Pass.Freshness
import Wasp.Pass.Types
import Wasp.Pass.TypeFinder
import Wasp.Pass.Analysis
import Wasp.Pass.Signature
import Wasp.Pass.Typing
import Wasp.Lib.PageTable
import Wasp.Lib.Processor
import Wasp.Lib.Sections
import Wasp.Lib.LockOrder
import Wasp.Runtime.Linearization
import Wasp.Runtime.Calls
import Wasp.Runtime.Images
import Wasp.Runtime.Peak
import Wasp.Guest.Paging
import Wasp.Guest.Start
import Wasp.Guest.Link
import Wasp.Guest.Resume
import Wasp.Guest.Program
import Wasp.Guest.Whole
