/-! System calls as a user program sees their results: a value that is not negative, or an error
decoded from a negative one. -/

namespace UnixCore.User

inductive CallError
  | permissionDenied
  | notFound
  | noSuchProcess
  | inputOutput
  | argumentListTooBig
  | execFormat
  | badFileDescriptor
  | notAChild
  | tooManyProcesses
  | outOfMemory
  | accessDenied
  | badAddress
  | alreadyExists
  | notADirectory
  | isADirectory
  | invalidArgument
  | tooManyOpenFiles
  | noSpace
  | illegalSeek
  | nameTooLong
  | notImplemented
  | unknown
  deriving DecidableEq, Repr, Inhabited

namespace CallError

/-- Decodes a return value that is an error. Values without a meaning are unknown errors. -/
def ofRaw (raw : Int64) : CallError :=
  match raw.toInt with
  | -1 => permissionDenied
  | -2 => notFound
  | -3 => noSuchProcess
  | -5 => inputOutput
  | -7 => argumentListTooBig
  | -8 => execFormat
  | -9 => badFileDescriptor
  | -10 => notAChild
  | -11 => tooManyProcesses
  | -12 => outOfMemory
  | -13 => accessDenied
  | -14 => badAddress
  | -17 => alreadyExists
  | -20 => notADirectory
  | -21 => isADirectory
  | -22 => invalidArgument
  | -24 => tooManyOpenFiles
  | -28 => noSpace
  | -29 => illegalSeek
  | -36 => nameTooLong
  | -38 => notImplemented
  | _ => unknown

def errno : CallError → Int32
  | permissionDenied => 1
  | notFound => 2
  | noSuchProcess => 3
  | inputOutput => 5
  | argumentListTooBig => 7
  | execFormat => 8
  | badFileDescriptor => 9
  | notAChild => 10
  | tooManyProcesses => 11
  | outOfMemory => 12
  | accessDenied => 13
  | badAddress => 14
  | alreadyExists => 17
  | notADirectory => 20
  | isADirectory => 21
  | invalidArgument => 22
  | tooManyOpenFiles => 24
  | noSpace => 28
  | illegalSeek => 29
  | nameTooLong => 36
  | notImplemented => 38
  | unknown => 255

def text : CallError → String
  | permissionDenied => "operation not permitted"
  | notFound => "no such file or directory"
  | noSuchProcess => "no such process"
  | inputOutput => "i/o error"
  | argumentListTooBig => "argument list too long"
  | execFormat => "exec format error"
  | badFileDescriptor => "bad file descriptor"
  | notAChild => "no child processes"
  | tooManyProcesses => "too many processes"
  | outOfMemory => "out of memory"
  | accessDenied => "permission denied"
  | badAddress => "bad address"
  | alreadyExists => "file exists"
  | notADirectory => "not a directory"
  | isADirectory => "is a directory"
  | invalidArgument => "invalid argument"
  | tooManyOpenFiles => "too many open files"
  | noSpace => "no space left on device"
  | illegalSeek => "illegal seek"
  | nameTooLong => "file name too long"
  | notImplemented => "function not implemented"
  | unknown => "unknown error"

def name : CallError → String
  | permissionDenied => "PermissionDenied"
  | notFound => "NotFound"
  | noSuchProcess => "NoSuchProcess"
  | inputOutput => "IoError"
  | argumentListTooBig => "ArgumentListTooBig"
  | execFormat => "ExecFormat"
  | badFileDescriptor => "BadFileDescriptor"
  | notAChild => "NotAChild"
  | tooManyProcesses => "TooManyProcesses"
  | outOfMemory => "OutOfMemory"
  | accessDenied => "AccessDenied"
  | badAddress => "BadAddress"
  | alreadyExists => "AlreadyExists"
  | notADirectory => "NotADirectory"
  | isADirectory => "IsADirectory"
  | invalidArgument => "InvalidArgument"
  | tooManyOpenFiles => "TooManyOpenFiles"
  | noSpace => "NoSpace"
  | illegalSeek => "IllegalSeek"
  | nameTooLong => "NameTooLong"
  | notImplemented => "NotImplemented"
  | unknown => "Unknown"

end CallError

abbrev CallResult := Except CallError UInt64

def decodeReturn (ret : Int64) : CallResult :=
  if 0 ≤ ret.toInt then .ok ret.toUInt64 else .error (.ofRaw ret)

end UnixCore.User
