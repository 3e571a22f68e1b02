import UnixCore.User.Console

/-! A sample program: it opens a file, reads five bytes, echoes them to the standard output and
closes the file. -/

namespace UnixCore.User.FileTest

/-- The file operations that the program needs. A read gives its result and the bytes that it left
in the buffer. -/
structure FileApi (σ : Type) where
  openFile : List UInt8 → UInt32 → StateM σ CallResult
  read : UInt64 → List UInt8 → StateM σ (CallResult × List UInt8)
  write : UInt64 → List UInt8 → StateM σ CallResult
  close : UInt64 → StateM σ CallResult

def FileApi.ofMachine {σ : Type} (m : Machine σ) : FileApi σ where
  openFile := User.openFile m
  read := User.read m
  write := User.write m
  close := User.close m

def defaultPath : List UInt8 := "testfile".toUTF8.toList

def readLength : Nat := 5

variable {σ : Type}

/-- Writes the parts one after the other, whatever becomes of them. -/
def say (api : FileApi σ) (stream : UInt64) : (parts : List (List UInt8)) → StateM σ Unit
  | [] => return ()
  | part :: parts => do
    let _ ← api.write stream part
    say api stream parts

def text (s : String) : List UInt8 := s.toUTF8.toList

def fail (api : FileApi σ) (path : List UInt8) (what : String) (error : CallError) :
    StateM σ Int32 := do
  say api stderr
    [text "filetest: ", path, text ": ", text what, text ": ", text error.text, text "\n"]
  return 1

def echo (api : FileApi σ) (path : List UInt8) : StateM σ Int32 := do
  match ← api.openFile path 0 with
  | .error e => fail api path "open for read" e
  | .ok fd =>
    match ← api.read fd (List.replicate readLength 0) with
    | (.error e, _) => fail api path "read" e
    | (.ok count, buffer) =>
      say api stdout [buffer.take (min count.toNat readLength)]
      match ← api.close fd with
      | .error e => fail api path "close" e
      | .ok _ =>
        say api stdout [text "Passed filetest.\n"]
        return 0

/-- Runs the program. The first argument is its name. -/
def run (api : FileApi σ) : (args : List (List UInt8)) → StateM σ Int32
  | [] => do
    say api stderr [text "filetest: No arguments - running on \"testfile\"\n"]
    echo api defaultPath
  | [_, file] => do
    say api stdout [text "file name : ", file, text "\n"]
    echo api file
  | _ => do
    say api stderr [text "Usage: filetest <filename>\n"]
    return 1

/-- The program as the system starts it, with a number of arguments and the strings behind its
argument pointers. If there are more arguments than the program takes none is looked at. -/
def start (m : Machine σ) (argc : Nat) (argument : Nat → List UInt8) : StateM σ Int32 :=
  if 2 < argc then
    run (.ofMachine m) [defaultPath, defaultPath, defaultPath]
  else
    run (.ofMachine m) ((List.range argc).map argument)

end UnixCore.User.FileTest
