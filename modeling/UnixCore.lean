import UnixCore.Descriptor.Bench
import UnixCore.Process.Registry
import UnixCore.Ram.Observed
import UnixCore.User.FileTest
import UnixCore.Proofs.Action
import UnixCore.Proofs.Descriptor.Bitmap
import UnixCore.Proofs.Descriptor.Linear
import UnixCore.Proofs.Descriptor.Refinement
import UnixCore.Proofs.Descriptor.Tables
import UnixCore.Proofs.Descriptor.Effects
import UnixCore.Proofs.Descriptor.Laws
import UnixCore.Proofs.Exec.Carried
import UnixCore.Proofs.Accounting.Descriptors
import UnixCore.Proofs.Accounting.Kernel
import UnixCore.Proofs.Accounting.Lifecycle
import UnixCore.Proofs.Accounting.Runs
import UnixCore.Proofs.Kernel.Lives
import UnixCore.Proofs.LifeCycle.Invariant
import UnixCore.Proofs.Parenthood.OwnChildren
import UnixCore.Proofs.Rendezvous.ExactlyOnce
import UnixCore.Proofs.Syscall.Read
import UnixCore.Proofs.Syscall.Waitpid
import UnixCore.Proofs.System.Execution
import UnixCore.Proofs.Sharing.Files
import UnixCore.Proofs.Syscall.Unwound
import UnixCore.Proofs.Sharing.Cursor
import UnixCore.Proofs.Access.Enforced
import UnixCore.Proofs.Isolation.Dispatch
import UnixCore.Proofs.Isolation.Awaited
import UnixCore.Proofs.Syscall.Results
import UnixCore.Proofs.User.Arguments
import UnixCore.Proofs.Rendezvous.Meeting
import UnixCore.Proofs.User.Status
import UnixCore.Proofs.Parenthood.Endings
import UnixCore.Proofs.Process.Allocation
import UnixCore.Proofs.Fork.Stages
import UnixCore.Proofs.Fork.Traceless
import UnixCore.Proofs.Fork.Replica
import UnixCore.Proofs.Exec.Atomic
import UnixCore.Proofs.Exec.Marshalled
import UnixCore.Proofs.Exec.Demand
import UnixCore.Proofs.Exec.Logged
import UnixCore.Proofs.Syscall.Windows
import UnixCore.Proofs.Bootstrap.Streams
import UnixCore.Proofs.Bootstrap.Stages
import UnixCore.Proofs.Bootstrap.AllOrNothing
import UnixCore.Proofs.Memory.Strings
import UnixCore.Proofs.Semaphore.Conservation
import UnixCore.Proofs.Syscall.Seek
import UnixCore.Proofs.Access.Refused
