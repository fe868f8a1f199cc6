import KernelTraining.Machine.Run
import KernelTraining.Abstract.SparseFile
import KernelTraining.Scull.Locate
import KernelTraining.Scull.Sparse
import KernelTraining.Scull.Usable
import KernelTraining.Scull.Interleaving
import KernelTraining.Scull.Disclosure
import KernelTraining.Lifo.Invariant
import KernelTraining.Lifo.ByteStack
import KernelTraining.Lifo.Interleaving
import KernelTraining.Machine.UserLoop
import KernelTraining.Machine.Libfs
import KernelTraining.Task08.Foo
import KernelTraining.Task08.Storing
import KernelTraining.Task08.Disclosure
import KernelTraining.Task08.Semaphore
import KernelTraining.Scull.IoctlFailure
import KernelTraining.Lifo.FailedRead
import KernelTraining.Lifo.Freed
import KernelTraining.RawIP.Checksum
import KernelTraining.RawIP.Header
import KernelTraining.Scull.Covered
import KernelTraining.Scull.HighWater
import KernelTraining.Scull.Ownership
import KernelTraining.Scull.FailedWrite
import KernelTraining.Scull.CopyLoop
import KernelTraining.Lifo.FailedWrite
import KernelTraining.Lifo.Counter
import KernelTraining.Scull.Seek
import KernelTraining.Scull.Appended
import KernelTraining.RawIP.Verification
import KernelTraining.RawIP.Folding
import KernelTraining.Machine.CString
import KernelTraining.Task06.Misc
import KernelTraining.Machine.ReadText
import KernelTraining.Task06.Reading
import KernelTraining.Abstract.Listing
import KernelTraining.Scull.Procmem
import KernelTraining.Scull.SeqFile
import KernelTraining.Scull.Linearizable
import KernelTraining.Machine.Chrdev
import KernelTraining.Scull.Module
import KernelTraining.Scull.Friends
import KernelTraining.Lifo.Module
import KernelTraining.Abstract.Exchange
import KernelTraining.Scull.Exchange
import KernelTraining.Task08.Jiffies
import KernelTraining.Abstract.Queue
import KernelTraining.Abstract.RingBuffer
import KernelTraining.Pipe.Device
import KernelTraining.Machine.ProcFile
import KernelTraining.Abstract.Resumed
import KernelTraining.Pipe.Procmem
import KernelTraining.Machine.Calls
import KernelTraining.Machine.Openings
import KernelTraining.Machine.WaitQueue
import KernelTraining.Machine.SeqFile
import KernelTraining.Pipe.Callers
import KernelTraining.Pipe.Openings
import KernelTraining.Pipe.History
import KernelTraining.Pipe.Wakeup
import KernelTraining.Pipe.Resize
import KernelTraining.Access.Single
import KernelTraining.Access.Owner
import KernelTraining.Access.Private
