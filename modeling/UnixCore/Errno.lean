/-! The error numbers of system calls: a failing operation fails with exactly one of them, and a
system call hands back its code negated. -/

namespace UnixCore

inductive Errno
  | permissionDenied
  | notFound
  | noSuchProcess
  | inputOutput
  | argumentListTooBig
  | execFormat
  | badFileDescriptor
  | notAChild
  | tooManyProcesses
  | outOfMemory
  | accessDenied
  | badAddress
  | alreadyExists
  | notADirectory
  | isADirectory
  | invalidArgument
  | tooManyOpenFiles
  | noSpace
  | illegalSeek
  | nameTooLong
  | notImplemented
  deriving DecidableEq, Repr, Inhabited

namespace Errno

def all : List Errno :=
  [permissionDenied, notFound, noSuchProcess, inputOutput, argumentListTooBig, execFormat,
    badFileDescriptor, notAChild, tooManyProcesses, outOfMemory, accessDenied, badAddress,
    alreadyExists, notADirectory, isADirectory, invalidArgument, tooManyOpenFiles, noSpace,
    illegalSeek, nameTooLong, notImplemented]

/-- The positive number of the error, as user programs know it. -/
def code : Errno → Int32
  | permissionDenied => 1
  | notFound => 2
  | noSuchProcess => 3
  | inputOutput => 5
  | argumentListTooBig => 7
  | execFormat => 8
  | badFileDescriptor => 9
  | notAChild => 10
  | tooManyProcesses => 11
  | outOfMemory => 12
  | accessDenied => 13
  | badAddress => 14
  | alreadyExists => 17
  | notADirectory => 20
  | isADirectory => 21
  | invalidArgument => 22
  | tooManyOpenFiles => 24
  | noSpace => 28
  | illegalSeek => 29
  | nameTooLong => 36
  | notImplemented => 38

def ofCode? (code : Int32) : Option Errno :=
  all.find? (·.code == code)

/-- What a failed system call leaves in the return register. -/
def returnValue (e : Errno) : Int64 :=
  -e.code.toInt64

def text : Errno → String
  | permissionDenied => "Operation not permitted"
  | notFound => "No such file or directory"
  | noSuchProcess => "No such process"
  | inputOutput => "Input/output error"
  | argumentListTooBig => "Argument list too long"
  | execFormat => "Exec format error"
  | badFileDescriptor => "Bad file descriptor"
  | notAChild => "No child processes"
  | tooManyProcesses => "Too many processes"
  | outOfMemory => "Out of memory"
  | accessDenied => "Permission denied"
  | badAddress => "Bad address"
  | alreadyExists => "File exists"
  | notADirectory => "Not a directory"
  | isADirectory => "Is a directory"
  | invalidArgument => "Invalid argument"
  | tooManyOpenFiles => "Too many open files"
  | noSpace => "No space left on device"
  | illegalSeek => "Illegal seek"
  | nameTooLong => "File name too long"
  | notImplemented => "Function not implemented"

def name : Errno → String
  | permissionDenied => "PermissionDenied"
  | notFound => "NotFound"
  | noSuchProcess => "NoSuchProcess"
  | inputOutput => "Io"
  | argumentListTooBig => "ArgumentListTooBig"
  | execFormat => "ExecFormat"
  | badFileDescriptor => "BadFileDescriptor"
  | notAChild => "NotAChild"
  | tooManyProcesses => "TooManyProcesses"
  | outOfMemory => "OutOfMemory"
  | accessDenied => "AccessDenied"
  | badAddress => "BadAddress"
  | alreadyExists => "AlreadyExists"
  | notADirectory => "NotADirectory"
  | isADirectory => "IsADirectory"
  | invalidArgument => "InvalidArgument"
  | tooManyOpenFiles => "TooManyOpenFiles"
  | noSpace => "NoSpace"
  | illegalSeek => "IllegalSeek"
  | nameTooLong => "NameTooLong"
  | notImplemented => "NotImplemented"

def message (e : Errno) : String :=
  e.text ++ " (errno " ++ toString e.code.toInt ++ ")"

theorem mem_all (e : Errno) : e ∈ all := by cases e <;> decide

theorem ofCode?_code (e : Errno) : ofCode? e.code = some e := by cases e <;> decide

theorem code_pos (e : Errno) : 0 < e.code.toInt := by cases e <;> decide

theorem toInt_returnValue (e : Errno) : e.returnValue.toInt = -e.code.toInt := by
  cases e <;> decide

end Errno

end UnixCore
