import UnixCore.Config
import UnixCore.Memory.Address
import UnixCore.Process.Pid
import UnixCore.Text.Quoted

/-! What the kernel reports about its own running, for a log. -/

namespace UnixCore

inductive Level
  | error
  | warn
  | info
  | debug
  | trace
  deriving DecidableEq, Repr

def Level.name : Level → String
  | error => "ERROR"
  | warn => "WARN"
  | info => "INFO"
  | debug => "DEBUG"
  | trace => "TRACE"

inductive Event
  | streamsAttached
  | fileOpened (path : String) (flags : UInt32) (fd : Nat)
  | bytesRead (fd count : Nat)
  | bytesWritten (fd : Nat) (count : UInt64)
  | descriptorClosed (fd holdersLeft : Nat)
  | descriptorDuplicated (old new : Nat)
  | secondWaiter
  | processCreated (pid : Pid) (name : String)
  | programStarted (pid : Pid) (path : String)
  | processForked (parent child : Pid)
  | forkFailed (parent : Pid) (error : Errno)
  | strayExit (pid : Pid)
  | processExited (pid : Pid) (code : Int32)
  | childReaped (parent child : Pid) (code : Int32)
  | imageEntered (pid : Pid) (path : String) (argc : Nat) (entry : UserAddr)
  | imageLost (pid : Pid) (path : String) (error : Errno)
  | callFailed (pid : Pid) (number : UInt64) (error : Errno)
  deriving DecidableEq, Repr

namespace Event

def level : Event → Level
  | secondWaiter | strayExit .. | imageLost .. => .warn
  | bytesRead .. | bytesWritten .. | callFailed .. => .trace
  | _ => .debug

def message : Event → String
  | streamsAttached => "[KESTREL FD] standard streams attached to " ++ consolePath
  | fileOpened path flags fd =>
    s!"[KESTREL FD] open {Text.quoted path} flags={Text.hex flags.toNat} -> fd {fd}"
  | bytesRead fd count => s!"[KESTREL FD] read fd {fd} -> {count} bytes"
  | bytesWritten fd count => s!"[KESTREL FD] write fd {fd} -> {count} bytes"
  | descriptorClosed fd left => s!"[KESTREL FD] close fd {fd} ({left} references left)"
  | descriptorDuplicated old new => s!"[KESTREL FD] dup2 {old} -> {new}"
  | secondWaiter => "[KESTREL SYNC] second waiter on a single-waiter semaphore"
  | processCreated pid name => s!"[KESTREL PROC] created pid {pid} ({name})"
  | programStarted pid path => s!"[KESTREL PROC] pid {pid} started {path}"
  | processForked parent child => s!"[KESTREL PROC] fork {parent} -> {child}"
  | forkFailed parent error => s!"[KESTREL PROC] fork of {parent} failed: {error.message}"
  | strayExit pid => s!"[KESTREL PROC] exit from unregistered pid {pid}"
  | processExited pid code => s!"[KESTREL PROC] pid {pid} exited with {code}"
  | childReaped parent child code =>
    s!"[KESTREL PROC] pid {parent} reaped pid {child} (code {code})"
  | imageEntered pid path argc entry =>
    s!"[KESTREL EXEC] pid {pid} exec {path} argc={argc} entry={entry.describe}"
  | imageLost pid path error =>
    s!"[KESTREL EXEC] pid {pid} exec {path} failed after swap: {error.message}"
  | callFailed pid number error =>
    s!"[KESTREL SYSCALL] pid {pid} call {number} -> {error.message}"

def line (e : Event) : String := e.level.name ++ " " ++ e.message

end Event

end UnixCore
