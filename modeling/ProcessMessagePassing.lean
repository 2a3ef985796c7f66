import ProcessMessagePassing.Concurrency.Run
import ProcessMessagePassing.Concurrency.Holders
import ProcessMessagePassing.Concurrency.WaitQueue
import ProcessMessagePassing.Concurrency.Refinement
import ProcessMessagePassing.Concurrency.BoundedDeque
import ProcessMessagePassing.Concurrency.Registry
import ProcessMessagePassing.Mailbox.Basic
import ProcessMessagePassing.Mailbox.Sections
import ProcessMessagePassing.Mailbox.Callers
import ProcessMessagePassing.Mailbox.Claims
import ProcessMessagePassing.Mailbox.Contents
import ProcessMessagePassing.Mailbox.Waiters
import ProcessMessagePassing.Mailbox.Stopped
import ProcessMessagePassing.Mailbox.StopCascade
import ProcessMessagePassing.Mailbox.Drain
import ProcessMessagePassing.Mailbox.WakeUp
import ProcessMessagePassing.Mailbox.Deque
import ProcessMessagePassing.Kernel.Process
import ProcessMessagePassing.Kernel.Message
import ProcessMessagePassing.Kernel.HashTable
import ProcessMessagePassing.Kernel.System
import ProcessMessagePassing.Kernel.Steps
import ProcessMessagePassing.Kernel.Consistent
import ProcessMessagePassing.Kernel.Registry
import ProcessMessagePassing.Kernel.Claims
import ProcessMessagePassing.Kernel.Deletion
import ProcessMessagePassing.Kernel.Projection
import ProcessMessagePassing.Kernel.Flush
import ProcessMessagePassing.Kernel.Exiting
import ProcessMessagePassing.Concurrency.PutBack
import ProcessMessagePassing.Kernel.Queue
import ProcessMessagePassing.Kernel.Fifo
import ProcessMessagePassing.Kernel.Threads
import ProcessMessagePassing.Kernel.Orphan
import ProcessMessagePassing.Kernel.Tasks
import ProcessMessagePassing.Kernel.Calls
import ProcessMessagePassing.Kernel.Reuse
import ProcessMessagePassing.Kernel.Leak
import ProcessMessagePassing.Kernel.Memory
import ProcessMessagePassing.Kernel.Delivery
import ProcessMessagePassing.Kernel.NonBlocking
import ProcessMessagePassing.Kernel.Lifetime
import ProcessMessagePassing.Kernel.Keys
import ProcessMessagePassing.Kernel.Stopping
import ProcessMessagePassing.Kernel.Interceptor
import ProcessMessagePassing.Concurrency.SpinLock
import ProcessMessagePassing.Kernel.Locks
import ProcessMessagePassing.Kernel.LockSteps
import ProcessMessagePassing.Kernel.FailedReceive
import ProcessMessagePassing.Kernel.PidMap
import ProcessMessagePassing.Kernel.Lookups
import ProcessMessagePassing.Kernel.Contracts
import ProcessMessagePassing.Concurrency.Termination
import ProcessMessagePassing.Kernel.Termination
import ProcessMessagePassing.Kernel.Unclaimed
import ProcessMessagePassing.Kernel.Rest
import ProcessMessagePassing.Kernel.Shutdown
import ProcessMessagePassing.Kernel.Fate
import ProcessMessagePassing.Kernel.Service
import ProcessMessagePassing.Kernel.Linearization
import ProcessMessagePassing.Kernel.Isolation
import ProcessMessagePassing.Kernel.WakeOrder
import ProcessMessagePassing.Kernel.Footprint
import ProcessMessagePassing.Kernel.SysCallTable
import ProcessMessagePassing.Kernel.Patching
import ProcessMessagePassing.Kernel.LoaderEntries
