import UnixCore.Action
import UnixCore.File.Flags
import UnixCore.File.Vnode
import UnixCore.Memory.AddressSpace

/-! What the process layer needs from the rest of the kernel: a file system, address spaces and a
program loader. They live in a world of their own that every call may change, so that a call may
fail at any point and for any reason. -/

namespace UnixCore

/-- The services of a world `W`. -/
structure Services (W : Type) where
  /-- Hands out a vnode for a path. Creation, exclusivity and truncation happen here. -/
  openPath : String → OpenFlags → Action W Vnode
  readAt : Vnode → UInt64 → Nat → Action W (List UInt8)
  /-- Stores bytes from an offset on and tells how many the resource says it took. -/
  writeAt : Vnode → UInt64 → List UInt8 → Action W UInt64
  stat : Vnode → Action W Stat
  isSeekable : Vnode → W → Bool
  release : Vnode → W → W
  createSpace : Action W AddressSpace
  duplicateSpace : AddressSpace → Action W AddressSpace
  activate : AddressSpace → W → W
  /-- Maps the stack and gives its top. -/
  defineStack : Action (AddressSpace × W) UserAddr
  destroySpace : AddressSpace → W → W
  /-- Maps the program image behind a vnode and gives its entry point. -/
  load : Vnode → Action (AddressSpace × W) UserAddr

/-- The same services with vnodes that are seekable whatever their resource says. -/
def Services.seekable {W : Type} (S : Services W) : Services W :=
  { S with
    openPath := fun path flags => do
      return { ← S.openPath path flags with alwaysSeekable := true }
    isSeekable := fun v w => v.alwaysSeekable || S.isSeekable v w }

/-- The same services in a world that holds something else besides. -/
def Services.beside {W : Type} (S : Services W) (β : Type) : Services (W × β) where
  openPath path flags := .onPart Prod.fst (fun w s => (w, s.2)) (S.openPath path flags)
  readAt v offset count := .onPart Prod.fst (fun w s => (w, s.2)) (S.readAt v offset count)
  writeAt v offset bytes := .onPart Prod.fst (fun w s => (w, s.2)) (S.writeAt v offset bytes)
  stat v := .onPart Prod.fst (fun w s => (w, s.2)) (S.stat v)
  isSeekable v s := S.isSeekable v s.1
  release v s := (S.release v s.1, s.2)
  createSpace := .onPart Prod.fst (fun w s => (w, s.2)) S.createSpace
  duplicateSpace a := .onPart Prod.fst (fun w s => (w, s.2)) (S.duplicateSpace a)
  activate a s := (S.activate a s.1, s.2)
  defineStack :=
    .onPart (fun s => (s.1, s.2.1)) (fun t s => (t.1, t.2, s.2.2)) S.defineStack
  destroySpace a s := (S.destroySpace a s.1, s.2)
  load v := .onPart (fun s => (s.1, s.2.1)) (fun t s => (t.1, t.2, s.2.2)) (S.load v)

end UnixCore
