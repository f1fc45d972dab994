import Conc11.Library.Machine
import Conc11.Library.Threads
import Conc11.Library.Broadcast
import Conc11.Library.FlagCounter
import Conc11.Library.Slots
import Conc11.Library.SwapRemove
import Conc11.Library.Custody
import Conc11.Library.Dispatch
import Conc11.Library.Links
import Conc11.Library.WaitingLine
import Conc11.Library.UniformLine
import Conc11.Library.TicketLine
import Conc11.Library.LruList
import Conc11.Library.LruRetention
import Conc11.Library.LruInclusion
import Conc11.Library.LruHistory
import Conc11.Library.Sequential
import Conc11.Library.Program
import Conc11.Library.Monitor
import Conc11.Library.Progress
import Conc11.Library.Draining
import Conc11.SharedMutex.Model
import Conc11.SharedMutex.Ownership
import Conc11.SharedMutex.Wakeup
import Conc11.SharedMutex.Overtaking
import Conc11.SharedMutex.Saturation
import Conc11.SharedMutex.Holders
import Conc11.SharedMutex.Sequential
import Conc11.SharedMutex.AsLock
import Conc11.SharedMutex.Draining
import Conc11.ReaderPreferring.Model
import Conc11.ReaderPreferring.Ownership
import Conc11.ReaderPreferring.Saturation
import Conc11.ReaderPreferring.Sequential
import Conc11.ReaderPreferring.AsLock
import Conc11.ReaderPreferring.Draining
import Conc11.SharedLocks.Model
import Conc11.SharedLocks.Accounting
import Conc11.SharedLocks.Misuse
import Conc11.SpinLock.SpinLock
import Conc11.SpinLock.FairSpinLock
import Conc11.SpinLock.AsLock
import Conc11.SpinLock.Draining
import Conc11.GuardedData
import Conc11.Executor.Model
import Conc11.Executor.WorkerTable
import Conc11.Executor.CoreWorkers
import Conc11.Executor.Construction
import Conc11.Executor.Stranding
import Conc11.Executor.Termination
import Conc11.Executor.TerminationNotice
import Conc11.Executor.AwaitTermination
import Conc11.Executor.Growth
import Conc11.Executor.Scopes
import Conc11.Executor.UserCode
import Conc11.Executor.Reaping
import Conc11.Executor.DeadWorkers
import Conc11.Executor.Joining
import Conc11.Executor.Tasks
import Conc11.Executor.Signalling
import Conc11.Executor.Submission
import Conc11.Executor.Settling
import Conc11.Executor.Reserve
import Conc11.Executor.Overtaking
import Conc11.Semaphore.Permits
import Conc11.Semaphore.WaitQueue
import Conc11.Semaphore.FifoQueue
import Conc11.Semaphore.Model
import Conc11.Semaphore.Conservation
import Conc11.Semaphore.RequestRecord
import Conc11.Semaphore.Seating
import Conc11.Semaphore.Refinement
import Conc11.Semaphore.Wakeup
import Conc11.Semaphore.Fairness
import Conc11.Semaphore.Uniform
import Conc11.Semaphore.Record
import Conc11.Semaphore.NodeOwnership
import Conc11.Semaphore.Admission
import Conc11.Semaphore.Recovery
import Conc11.Semaphore.MovingUp
import Conc11.Semaphore.Teardown
import Conc11.Semaphore.Memory
import Conc11.SimpleSemaphore.Model
import Conc11.SimpleSemaphore.Safety
import Conc11.SimpleSemaphore.Adapter
import Conc11.SimpleSemaphore.Admission
import Conc11.SimpleSemaphore.Settling
import Conc11.SemaphoreGuard.Model
import Conc11.SemaphoreGuard.Guards
import Conc11.SemaphoreGuard.AsLock
import Conc11.Latch.Model
import Conc11.Latch.Opening
import Conc11.Latch.StaysOpen
import Conc11.Latch.Settling
import Conc11.LruCache.Model
import Conc11.LruCache.Links
import Conc11.LruCache.Refinement
import Conc11.LruCache.Pointers
import Conc11.LruCache.Inclusion
import Conc11.LruCache.Capacity
import Conc11.LruCache.History
import Conc11.LruCache.Frame
import Conc11.LruCache.Copy
import Conc11.LruCache.Exceptions
import Conc11.LruCache.Blocking
import Conc11.LocalPtr.Model
import Conc11.LocalPtr.Objects
import Conc11.LocalPtr.Leaks
import Conc11.ScopeGuard.Model
import Conc11.ScopeGuard.ExactlyOnce
