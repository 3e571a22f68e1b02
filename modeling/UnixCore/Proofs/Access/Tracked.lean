import UnixCore.Proofs.Access.Calls

/-! Services that number the vnodes they hand out, and write down with which flags each was opened
and which were read and written. Every read and every write of a vnode is one that the open of this
very vnode asked for. -/

namespace UnixCore

open Action

variable {W : Type} {S : Services W} {scope : Scope}

/-- The opens so far, each with the vnode it gave and the flags it was made with, and the numbers of
those whose vnode was read or written. -/
structure Track where
  opened : Array (Vnode × OpenFlags) := #[]
  read : List Nat := []
  written : List Nat := []

namespace Track

/-- The vnode behind a numbered one. -/
def below (t : Track) (v : Vnode) : Vnode := (t.opened[v.resource]?.map (·.1)).getD v

def noteOpened (t : Track) (v : Vnode) (flags : OpenFlags) : Track :=
  { t with opened := t.opened.push (v, flags) }

def noteRead (t : Track) (n : Nat) : Track := { t with read := n :: t.read }

def noteWritten (t : Track) (n : Nat) : Track := { t with written := n :: t.written }

end Track

/-- The same services with vnodes that are numbered in the order of their opens. A read or a write
is written down before it is made. -/
def Services.tracked (S : Services W) : Services (W × Track) :=
  { S.beside Track with
    openPath := fun path flags => do
      let v ← (S.beside Track).openPath path flags
      modifyGet fun s =>
        (⟨s.2.opened.size, v.alwaysSeekable⟩, s.1, s.2.noteOpened v flags)
    readAt := fun v offset count => do
      modify fun s => (s.1, s.2.noteRead v.resource)
      (S.beside Track).readAt ((← get).2.below v) offset count
    writeAt := fun v offset bytes => do
      modify fun s => (s.1, s.2.noteWritten v.resource)
      (S.beside Track).writeAt ((← get).2.below v) offset bytes
    stat := fun v s => (S.beside Track).stat (s.2.below v) s
    isSeekable := fun v s => (S.beside Track).isSeekable (s.2.below v) s
    release := fun v s => (S.beside Track).release (s.2.below v) s
    load := fun v s => (S.beside Track).load (s.2.2.below v) s }

/-- The access that an open with these flags asked for includes writing. -/
def OpenFlags.AsksToWrite (flags : OpenFlags) : Prop :=
  flags.contains .wronly = true ∨ flags.contains .rdwr = true

def OpenFlags.AsksOnlyToWrite (flags : OpenFlags) : Prop :=
  flags.contains .wronly = true ∧ flags.contains .rdwr = false

namespace OpenFlags

variable {flags : OpenFlags}

theorem canWrite_accessMode : flags.accessMode.canWrite = true ↔ flags.AsksToWrite := by
  unfold accessMode AsksToWrite
  cases flags.contains .rdwr <;> cases flags.contains .wronly <;> simp [AccessMode.canWrite]

theorem canRead_accessMode : flags.accessMode.canRead = true ↔ ¬ flags.AsksOnlyToWrite := by
  unfold accessMode AsksOnlyToWrite
  cases flags.contains .rdwr <;> cases flags.contains .wronly <;> simp [AccessMode.canRead]

end OpenFlags

namespace Track

variable {t t' : Track}

/-- Every vnode that was read or written was opened for that. -/
structure Enforced (t : Track) : Prop where
  written : ∀ n ∈ t.written, ∃ v flags, t.opened[n]? = some (v, flags) ∧ flags.AsksToWrite
  read : ∀ n ∈ t.read, ∃ v flags, t.opened[n]? = some (v, flags) ∧ ¬ flags.AsksOnlyToWrite

/-- The access mode of a file is the one that the open of its vnode asked for. -/
def Backs (t : Track) (vnode : Vnode) (mode : AccessMode) : Prop :=
  ∃ v flags, t.opened[vnode.resource]? = some (v, flags) ∧ mode = flags.accessMode

/-- What was written down about an open is never changed. -/
def Extends (t' t : Track) : Prop :=
  ∀ (n : Nat) entry, t.opened[n]? = some entry → t'.opened[n]? = some entry

namespace Extends

theorem of_opened_eq (h : t'.opened = t.opened) : t'.Extends t := fun n entry hn => by rwa [h]

theorem noteOpened (t : Track) (v : Vnode) (flags : OpenFlags) :
    (t.noteOpened v flags).Extends t := by
  intro n old hn
  have hlt : n < t.opened.size := (Array.getElem?_eq_some_iff.1 hn).1
  rw [Track.noteOpened, Array.getElem?_push_lt hlt, ← hn, Array.getElem?_eq_getElem hlt]

theorem trans {t'' : Track} (h : t'.Extends t) (h' : t''.Extends t') : t''.Extends t :=
  fun n entry hn => h' n entry (h n entry hn)

theorem backs {vnode : Vnode} {mode : AccessMode} (h : t'.Extends t) (hbacks : t.Backs vnode mode) :
    t'.Backs vnode mode := by
  obtain ⟨v, flags, hopened, hmode⟩ := hbacks
  exact ⟨v, flags, h _ _ hopened, hmode⟩

end Extends

theorem Enforced.noteOpened (h : t.Enforced) (v : Vnode) (flags : OpenFlags) :
    (t.noteOpened v flags).Enforced := by
  refine ⟨fun n hn => ?_, fun n hn => ?_⟩
  · obtain ⟨u, flags', hopened, hasks⟩ := h.written n hn
    exact ⟨u, flags', Extends.noteOpened t v flags n _ hopened, hasks⟩
  · obtain ⟨u, flags', hopened, hasks⟩ := h.read n hn
    exact ⟨u, flags', Extends.noteOpened t v flags n _ hopened, hasks⟩

/-- A vnode whose open allows it may be read. -/
theorem Enforced.noteRead {vnode : Vnode} {mode : AccessMode} (h : t.Enforced)
    (hbacks : t.Backs vnode mode) (hmode : mode.canRead = true) :
    (t.noteRead vnode.resource).Enforced := by
  refine ⟨h.written, fun n hn => ?_⟩
  rcases List.mem_cons.1 hn with rfl | hn
  · obtain ⟨v, flags, hopened, rfl⟩ := hbacks
    exact ⟨v, flags, hopened, OpenFlags.canRead_accessMode.1 hmode⟩
  · exact h.read n hn

theorem Enforced.noteWritten {vnode : Vnode} {mode : AccessMode} (h : t.Enforced)
    (hbacks : t.Backs vnode mode) (hmode : mode.canWrite = true) :
    (t.noteWritten vnode.resource).Enforced := by
  refine ⟨fun n hn => ?_, h.read⟩
  rcases List.mem_cons.1 hn with rfl | hn
  · obtain ⟨v, flags, hopened, rfl⟩ := hbacks
    exact ⟨v, flags, hopened, OpenFlags.canWrite_accessMode.1 hmode⟩
  · exact h.written n hn

/-! ### What the calls write down -/

section Calls

variable {v : Vnode} {s s' : W × Track}

theorem ensures_openPath {path : String} {flags : OpenFlags} :
    (S.tracked.openPath path flags).Ensures s
      (fun v s' => v.resource = s.2.opened.size ∧ ∃ u, s'.2 = s.2.noteOpened u flags)
      fun _ s' => s'.2 = s.2 := by
  simp only [Services.tracked, ensures_bind]
  refine Services.ensures_beside.mono (fun u w hw => ?_) fun _ _ h => h
  show _ ∧ _
  rw [hw]
  exact ⟨rfl, u, rfl⟩

theorem ensures_readAt {offset : UInt64} {count : Nat} :
    (S.tracked.readAt v offset count).Ensures s
      (fun _ s' => s'.2 = s.2.noteRead v.resource) fun _ s' => s'.2 = s.2.noteRead v.resource :=
  Services.ensures_beside

theorem ensures_writeAt {offset : UInt64} {bytes : List UInt8} :
    (S.tracked.writeAt v offset bytes).Ensures s
      (fun _ s' => s'.2 = s.2.noteWritten v.resource)
      fun _ s' => s'.2 = s.2.noteWritten v.resource :=
  Services.ensures_beside

theorem ensures_stat :
    (S.tracked.stat v).Ensures s (fun _ s' => s'.2 = s.2) fun _ s' => s'.2 = s.2 :=
  Services.ensures_beside

theorem eq_of_called (h : S.tracked.Called .nothing s s') : s'.2 = s.2 := by
  cases h with
  | openPath hopens _ => exact hopens.elim
  | release | activate | destroySpace => rfl
  | createSpace hresult => exact Services.ensures_beside.result (P := fun s' => s'.2 = s.2) hresult
  | duplicateSpace hresult =>
    exact Services.ensures_beside.result (P := fun s' => s'.2 = s.2) hresult
  | defineStack hresult =>
    exact Services.ensures_besideSpace.result (P := fun t => t.2.2 = s.2) hresult
  | load hresult => exact Services.ensures_besideSpace.result (P := fun t => t.2.2 = s.2) hresult

end Calls

end Track

end UnixCore
