import UnixCore.Errno

/-! The numbers of the system calls. -/

namespace UnixCore

inductive Syscall
  | fork
  | execv
  | exit
  | waitpid
  | getpid
  | openFile
  | dup2
  | close
  | read
  | write
  | lseek
  deriving DecidableEq, Repr

namespace Syscall

def all : List Syscall :=
  [fork, execv, exit, waitpid, getpid, openFile, dup2, close, read, write, lseek]

def number : Syscall → UInt64
  | fork => 0
  | execv => 2
  | exit => 3
  | waitpid => 4
  | getpid => 5
  | openFile => 45
  | dup2 => 48
  | close => 49
  | read => 50
  | write => 55
  | lseek => 59

def name : Syscall → String
  | fork => "Fork"
  | execv => "Execv"
  | exit => "Exit"
  | waitpid => "Waitpid"
  | getpid => "Getpid"
  | openFile => "Open"
  | dup2 => "Dup2"
  | close => "Close"
  | read => "Read"
  | write => "Write"
  | lseek => "Lseek"

def ofNumber (number : UInt64) : Except Errno Syscall :=
  match all.find? (·.number == number) with
  | some call => .ok call
  | none => .error .notImplemented

theorem ofNumber_number (c : Syscall) : ofNumber c.number = .ok c := by cases c <;> rfl

end Syscall

end UnixCore
