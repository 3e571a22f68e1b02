import UnixCore.Descriptor.Operations
import UnixCore.Proofs.Action
import UnixCore.Proofs.Descriptor.Linear

/-! Descriptor operations on linear tables, and the refinement of each by the operation on tables
with a bitmap: the same results, the same slots and the same effects on all that is shared, with
services that may fail at any call. -/

namespace UnixCore

structure LinearDescriptors (W : Type) where
  table : LinearTable
  shared : Shared W

variable {W α β : Type}

namespace LinearDescriptors

def onShared (act : Action (Shared W) α) : Action (LinearDescriptors W) α :=
  .onPart shared (fun sh d => { d with shared := sh }) act

def report (e : Event) : Action (LinearDescriptors W) Unit :=
  modify fun d => { d with shared := d.shared.report e }

def drop (S : Services W) (id : FileId) : Action (LinearDescriptors W) Unit :=
  modify fun d => { d with shared := d.shared.dropFile S id }

def retain (id : FileId) : Action (LinearDescriptors W) Unit :=
  modify fun d => { d with shared.files := d.shared.files.retain id }

def lookup (fd : Nat) : Action (LinearDescriptors W) FileId := do
  match (← get).table.get? fd with
  | some id => return id
  | none => throw .badFileDescriptor

def alloc (S : Services W) (id : FileId) : Action (LinearDescriptors W) Nat := do
  match (← get).table.alloc id with
  | some (fd, table) =>
    modify ({ · with table })
    return fd
  | none =>
    drop S id
    throw .tooManyOpenFiles

def install (S : Services W) (fd : Nat) (id : FileId) :
    Action (LinearDescriptors W) (Option FileId) := do
  match (← get).table.install fd id with
  | some (previous, table) =>
    modify ({ · with table })
    return previous
  | none =>
    drop S id
    throw .badFileDescriptor

def take (fd : Nat) : Action (LinearDescriptors W) FileId := do
  match (← get).table.take fd with
  | some (id, table) =>
    modify ({ · with table })
    return id
  | none => throw .badFileDescriptor

def clear (S : Services W) (d : LinearDescriptors W) : LinearDescriptors W :=
  ⟨d.table.clear, d.table.held.foldl (fun sh id => sh.dropFile S id) d.shared⟩

def attachStream (S : Services W) (fd : Nat) (flags : OpenFlags) :
    Action (LinearDescriptors W) Unit := do
  let id ← onShared (Shared.openFile S consolePath flags)
  match ← install S fd id with
  | some displaced => drop S displaced
  | none => return ()

def attachStreams (S : Services W) : Action (LinearDescriptors W) Unit := do
  attachStream S 0 .rdonly
  attachStream S 1 .wronly
  attachStream S 2 .wronly
  report .streamsAttached

def openPath (S : Services W) (path : String) (raw : UInt32) :
    Action (LinearDescriptors W) Nat := do
  let flags ← Action.ofExcept (OpenFlags.parse raw)
  let id ← onShared (Shared.openFile S path flags)
  let fd ← alloc S id
  report (.fileOpened path raw fd)
  return fd

def close (S : Services W) (fd : Nat) : Action (LinearDescriptors W) Unit := do
  let id ← take fd
  report (.descriptorClosed fd ((← get).shared.files.holders id - 1))
  drop S id

def duplicate (S : Services W) (old new : Nat) : Action (LinearDescriptors W) Nat := do
  if (← get).table.capacity ≤ new then
    throw .badFileDescriptor
  else
    let id ← lookup old
    if old = new then
      return new
    else
      retain id
      match ← install S new id with
      | some displaced => drop S displaced
      | none => pure ()
      report (.descriptorDuplicated old new)
      return new

end LinearDescriptors

namespace Descriptors

def linear (d : Descriptors W) : LinearDescriptors W := ⟨d.table.linear, d.shared⟩

/-- From `d` on, `act` and `ref` give the same and leave the same but for the bitmap, and `act`
leaves an exact table. -/
def RefinesAt (act : Action (Descriptors W) α) (ref : Action (LinearDescriptors W) α)
    (d : Descriptors W) : Prop :=
  act.Ensures d (fun a d' => d'.table.Exact ∧ ref d.linear = .ok a d'.linear)
    fun e d' => d'.table.Exact ∧ ref d.linear = .error e d'.linear

/-- `act` does on exact tables what `ref` does on linear ones. -/
def Refines (act : Action (Descriptors W) α) (ref : Action (LinearDescriptors W) α) : Prop :=
  ∀ d, d.table.Exact → RefinesAt act ref d

theorem refines_pure (a : α) : Refines (W := W) (pure a) (pure a) := fun _ hd => ⟨hd, rfl⟩

theorem refines_throw (e : Errno) : Refines (W := W) (α := α) (throw e) (throw e) :=
  fun _ hd => ⟨hd, rfl⟩

theorem Refines.bind {x : Action (Descriptors W) β} {y : Action (LinearDescriptors W) β}
    {f : β → Action (Descriptors W) α} {g : β → Action (LinearDescriptors W) α}
    (hx : Refines x y) (hf : ∀ b, Refines (f b) (g b)) : Refines (x >>= f) (y >>= g) := by
  intro d hd
  refine Action.ensures_bind.2 ((hx d hd).mono ?_ ?_)
  · rintro b d₁ ⟨hexact, hy⟩
    refine (hf b d₁ hexact).mono ?_ ?_
    · rintro a d₂ ⟨h₂, hg⟩
      refine ⟨h₂, ?_⟩
      show EStateM.bind y g d.linear = _
      rw [EStateM.bind, hy]
      exact hg
    · rintro e d₂ ⟨h₂, hg⟩
      refine ⟨h₂, ?_⟩
      show EStateM.bind y g d.linear = _
      rw [EStateM.bind, hy]
      exact hg
  · rintro e d₁ ⟨hexact, hy⟩
    refine ⟨hexact, ?_⟩
    show EStateM.bind y g d.linear = _
    rw [EStateM.bind, hy]

theorem refines_get {f : Descriptors W → Action (Descriptors W) α}
    {g : LinearDescriptors W → Action (LinearDescriptors W) α}
    (h : ∀ d, d.table.Exact → RefinesAt (f d) (g d.linear) d) :
    Refines (get >>= f) (get >>= g) := h

theorem refines_onShared (act : Action (Shared W) α) :
    Refines (onShared act) (LinearDescriptors.onShared act) := by
  intro d hd
  refine Action.ensures_onPart.2 (Action.ensures_iff.2 ⟨fun a sh h => ⟨hd, ?_⟩,
    fun e sh h => ⟨hd, ?_⟩⟩)
  · rw [LinearDescriptors.onShared, Action.onPart]
    simp only [linear, h]
  · rw [LinearDescriptors.onShared, Action.onPart]
    simp only [linear, h]

theorem refines_ofExcept (r : Except Errno α) :
    Refines (W := W) (Action.ofExcept r) (Action.ofExcept r) := by
  cases r with
  | ok a => exact fun _ hd => ⟨hd, rfl⟩
  | error e => exact fun _ hd => ⟨hd, rfl⟩

theorem refines_report (e : Event) :
    Refines (W := W) (report e) (LinearDescriptors.report e) := fun _ hd => ⟨hd, rfl⟩

theorem refines_drop (S : Services W) (id : FileId) :
    Refines (drop S id) (LinearDescriptors.drop S id) := fun _ hd => ⟨hd, rfl⟩

theorem refines_retain (id : FileId) :
    Refines (W := W) (retain id) (LinearDescriptors.retain id) := fun _ hd => ⟨hd, rfl⟩

/-! ### Every operation -/

theorem refines_lookup (fd : Nat) :
    Refines (W := W) (lookup fd) (LinearDescriptors.lookup fd) := by
  apply refines_get
  intro d hd
  show RefinesAt _ (match d.table.get? fd with | some id => _ | none => _) d
  cases d.table.get? fd with
  | some id => exact refines_pure id d hd
  | none => exact refines_throw _ d hd

theorem refines_alloc (S : Services W) (id : FileId) :
    Refines (alloc S id) (LinearDescriptors.alloc S id) := by
  apply refines_get
  intro d hd
  have hlinear : d.linear.table.alloc id = _ := hd.linear_alloc id
  cases halloc : d.table.alloc id with
  | some r =>
    rw [hlinear, halloc]
    exact ⟨hd.alloc halloc, rfl⟩
  | none =>
    rw [hlinear, halloc]
    exact (refines_drop S id).bind (fun _ => refines_throw _) d hd

theorem refines_install (S : Services W) (fd : Nat) (id : FileId) :
    Refines (install S fd id) (LinearDescriptors.install S fd id) := by
  apply refines_get
  intro d hd
  have hlinear : d.linear.table.install fd id = _ := d.table.linear_install fd id
  cases hinstall : d.table.install fd id with
  | some r =>
    rw [hlinear, hinstall]
    exact ⟨hd.install hinstall, rfl⟩
  | none =>
    rw [hlinear, hinstall]
    exact (refines_drop S id).bind (fun _ => refines_throw _) d hd

theorem refines_take (fd : Nat) :
    Refines (W := W) (take fd) (LinearDescriptors.take fd) := by
  apply refines_get
  intro d hd
  have hlinear : d.linear.table.take fd = _ := d.table.linear_take fd
  cases htake : d.table.take fd with
  | some r =>
    rw [hlinear, htake]
    exact ⟨hd.take htake, rfl⟩
  | none =>
    rw [hlinear, htake]
    exact refines_throw _ d hd

theorem refines_clear (S : Services W) :
    Refines (modify (clear S)) (modify (LinearDescriptors.clear S)) := by
  refine fun d hd => ⟨hd.clear, ?_⟩
  show EStateM.Result.ok PUnit.unit (LinearDescriptors.clear S d.linear) = _
  simp only [LinearDescriptors.clear, clear, linear, DescriptorTable.linear_clear,
    DescriptorTable.held_linear]

theorem refines_attachStream (S : Services W) (fd : Nat) (flags : OpenFlags) :
    Refines (attachStream S fd flags) (LinearDescriptors.attachStream S fd flags) := by
  refine (refines_onShared _).bind fun id => (refines_install S fd id).bind fun displaced => ?_
  cases displaced with
  | some id => exact refines_drop S id
  | none => exact refines_pure _

theorem refines_attachStreams (S : Services W) :
    Refines (attachStreams S) (LinearDescriptors.attachStreams S) :=
  (refines_attachStream S 0 _).bind fun _ => (refines_attachStream S 1 _).bind fun _ =>
    (refines_attachStream S 2 _).bind fun _ => refines_report _

theorem refines_openPath (S : Services W) (path : String) (raw : UInt32) :
    Refines (openPath S path raw) (LinearDescriptors.openPath S path raw) :=
  (refines_ofExcept _).bind fun _ => (refines_onShared _).bind fun id =>
    (refines_alloc S id).bind fun fd => (refines_report _).bind fun _ => refines_pure fd

theorem refines_close (S : Services W) (fd : Nat) :
    Refines (close S fd) (LinearDescriptors.close S fd) := by
  refine (refines_take fd).bind fun id => refines_get fun d hd => ?_
  exact (refines_report _).bind (fun _ => refines_drop S id) d hd

theorem refines_duplicate (S : Services W) (old new : Nat) :
    Refines (duplicate S old new) (LinearDescriptors.duplicate S old new) := by
  apply refines_get
  intro d hd
  show RefinesAt _ (if d.table.capacity ≤ new then _ else _) d
  split
  case isTrue => exact refines_throw _ d hd
  case isFalse =>
    refine (refines_lookup old).bind (fun id => ?_) d hd
    split
    case isTrue => exact refines_pure _
    case isFalse =>
      refine (refines_retain id).bind fun _ => (refines_install S new id).bind fun displaced => ?_
      -- what follows is the same whether a file was displaced or not
      have hlast := (refines_report (W := W) (.descriptorDuplicated old new)).bind fun _ =>
        refines_pure new
      cases displaced with
      | some id => exact (refines_drop S id).bind fun _ => hlast
      | none => exact hlast

end Descriptors

end UnixCore
