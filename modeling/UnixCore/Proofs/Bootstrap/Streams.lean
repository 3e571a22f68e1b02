import UnixCore.Proofs.Descriptor.Effects
import UnixCore.Proofs.Sharing.Files

/-! The standard streams of the first process. Each is a file of its own on the console, which is
opened and put on its descriptor before the next one is opened. So a failure finds the streams
before it attached, and none after it. -/

namespace UnixCore

variable {W : Type} {S : Services W} {e : Errno} {v : Vnode} {w : W} {flags : OpenFlags}

namespace Shared

variable {sh : Shared W} {path : String}

theorem openFile_of_error (h : S.openPath path flags sh.world = .error e w) :
    openFile S path flags sh = .error e { sh with world := w } := by
  rw [Action.eq_error_iff, openFile, Action.ensures_bind, onWorld, Action.ensures_onPart]
  exact (Action.ensures_of_error h).2 ⟨rfl, rfl⟩

/-- A file that is not appended to starts at its start, whatever its size. -/
theorem openFile_of_ok (happend : flags.contains .append = false)
    (h : S.openPath path flags sh.world = .ok v w) :
    openFile S path flags sh = .ok sh.files.next
      { sh with files := sh.files.insert ⟨v, flags.accessMode, false, 0⟩, world := w } := by
  rw [Action.eq_ok_iff, openFile, Action.ensures_bind, onWorld, Action.ensures_onPart]
  refine (Action.ensures_of_ok h).2 ?_
  rw [happend]
  exact ⟨rfl, rfl⟩

end Shared

namespace Descriptors

variable {d d' : Descriptors W} {fd : Nat} {streams : List (Nat × OpenFlags)}

/-- Descriptor `fd` filled with a new file on `v` that stands at its start, in the world `w`. -/
def withStream (d : Descriptors W) (fd : Nat) (flags : OpenFlags) (v : Vnode) (w : W) :
    Descriptors W where
  table := ⟨d.table.slots.setIfInBounds fd (some d.shared.files.next),
    DescriptorTable.markUsed d.table.free fd⟩
  shared := { d.shared with
    files := d.shared.files.insert ⟨v, flags.accessMode, false, 0⟩
    world := w }

section WithStream

@[simp] theorem capacity_withStream :
    (d.withStream fd flags v w).table.capacity = d.table.capacity :=
  Array.size_setIfInBounds

theorem get?_withStream (h : fd < d.table.capacity) (i : Nat) :
    (d.withStream fd flags v w).table.get? i =
      if i = fd then some d.shared.files.next else d.table.get? i :=
  DescriptorTable.get?_setIfInBounds _ _ _ h i

@[simp] theorem world_withStream : (d.withStream fd flags v w).shared.world = w := rfl

@[simp] theorem next_withStream :
    (d.withStream fd flags v w).shared.files.next = d.shared.files.next + 1 :=
  Array.size_push _

theorem held?_withStream (i : Nat) : (d.withStream fd flags v w).shared.files.held? i =
    if i = d.shared.files.next then some ⟨⟨v, flags.accessMode, false, 0⟩, 1⟩
    else d.shared.files.held? i :=
  Pool.held?_insert _ _ i

end WithStream

/-! ### One stream -/

theorem attachStream_of_error (h : S.openPath consolePath flags d.shared.world = .error e w) :
    attachStream S fd flags d = .error e { d with shared := { d.shared with world := w } } := by
  rw [Action.eq_error_iff, attachStream, Action.ensures_bind, ensures_onShared]
  exact (Action.ensures_of_error (Shared.openFile_of_error h)).2 ⟨rfl, rfl⟩

/-- The file that there is no descriptor for is closed again. -/
theorem attachStream_of_full (happend : flags.contains .append = false)
    (h : S.openPath consolePath flags d.shared.world = .ok v w) (hfull : d.table.capacity ≤ fd) :
    attachStream S fd flags d = .error .badFileDescriptor { d with
      shared := (d.withStream fd flags v w).shared.dropFile S d.shared.files.next } := by
  rw [Action.eq_error_iff, attachStream, Action.ensures_bind, ensures_onShared]
  refine (Action.ensures_of_ok (Shared.openFile_of_ok happend h)).2 ?_
  rw [Action.ensures_bind, ensures_install]
  have hnone : d.table.install fd d.shared.files.next = none :=
    if_neg (Nat.not_lt_of_le hfull)
  refine ⟨fun previous table hsome => ?_, fun _ => ⟨rfl, rfl⟩⟩
  cases hnone.symm.trans hsome

theorem attachStream_of_ok (happend : flags.contains .append = false)
    (h : S.openPath consolePath flags d.shared.world = .ok v w) (hlt : fd < d.table.capacity)
    (hempty : d.table.get? fd = none) :
    attachStream S fd flags d = .ok () (d.withStream fd flags v w) := by
  rw [Action.eq_ok_iff, attachStream, Action.ensures_bind, ensures_onShared]
  refine (Action.ensures_of_ok (Shared.openFile_of_ok happend h)).2 ?_
  rw [Action.ensures_bind, ensures_install]
  have hsome : d.table.install fd d.shared.files.next =
      some (none, (d.withStream fd flags v w).table) := by
    rw [DescriptorTable.install, if_pos hlt, hempty]
    rfl
  refine ⟨fun previous table hinstall => ?_, fun hnone => ?_⟩
  · cases hsome.symm.trans hinstall
    exact ⟨rfl, rfl⟩
  · cases hsome.symm.trans hnone

/-! ### One after the other -/

/-- The descriptors of the standard streams, and what each is opened for. -/
def standardStreams : List (Nat × OpenFlags) := [(0, .rdonly), (1, .wronly), (2, .wronly)]

def attachEach (S : Services W) : List (Nat × OpenFlags) → Action (Descriptors W) Unit
  | [] => return ()
  | (fd, flags) :: streams => do
    attachStream S fd flags
    attachEach S streams

theorem attachStreams_eq :
    attachStreams S = attachEach S standardStreams >>= fun _ => report .streamsAttached := by
  simp only [attachStreams, standardStreams, attachEach, bind_assoc, pure_bind]

/-- The console is opened for each stream in turn, and there is a descriptor for it. -/
inductive Attaches (S : Services W) :
    List (Nat × OpenFlags) → Descriptors W → Descriptors W → Prop
  | done {d : Descriptors W} : Attaches S [] d d
  | stream {fd : Nat} {flags : OpenFlags} {streams : List (Nat × OpenFlags)}
    {d d' : Descriptors W} {v : Vnode} {w : W} :
    S.openPath consolePath flags d.shared.world = .ok v w → fd < d.table.capacity →
    Attaches S streams (d.withStream fd flags v w) d' → Attaches S ((fd, flags) :: streams) d d'

/-- Why not all streams are attached: for one of them the console cannot be opened, or there is no
descriptor. -/
inductive AttachFailure (S : Services W) : List (Nat × OpenFlags) → Descriptors W → Errno → Prop
  | unopened {fd : Nat} {flags : OpenFlags} {streams : List (Nat × OpenFlags)}
    {d : Descriptors W} {e : Errno} {w : W} :
    S.openPath consolePath flags d.shared.world = .error e w →
    AttachFailure S ((fd, flags) :: streams) d e
  | full {fd : Nat} {flags : OpenFlags} {streams : List (Nat × OpenFlags)} {d : Descriptors W}
    {v : Vnode} {w : W} :
    S.openPath consolePath flags d.shared.world = .ok v w → d.table.capacity ≤ fd →
    AttachFailure S ((fd, flags) :: streams) d .badFileDescriptor
  | later {fd : Nat} {flags : OpenFlags} {streams : List (Nat × OpenFlags)} {d : Descriptors W}
    {v : Vnode} {w : W} {e : Errno} :
    S.openPath consolePath flags d.shared.world = .ok v w → fd < d.table.capacity →
    AttachFailure S streams (d.withStream fd flags v w) e →
    AttachFailure S ((fd, flags) :: streams) d e

theorem attaches_or_fails (S : Services W) (streams : List (Nat × OpenFlags))
    (d : Descriptors W) :
    (∃ d', Attaches S streams d d') ∨ ∃ e, AttachFailure S streams d e := by
  induction streams generalizing d with
  | nil => exact .inl ⟨d, .done⟩
  | cons stream streams ih =>
    obtain ⟨fd, flags⟩ := stream
    cases hopen : S.openPath consolePath flags d.shared.world with
    | error e w => exact .inr ⟨e, .unopened hopen⟩
    | ok v w =>
      by_cases hlt : fd < d.table.capacity
      · rcases ih (d.withStream fd flags v w) with ⟨d', hrest⟩ | ⟨e, hrest⟩
        · exact .inl ⟨d', .stream hopen hlt hrest⟩
        · exact .inr ⟨e, .later hopen hlt hrest⟩
      · exact .inr ⟨_, .full hopen (Nat.le_of_not_lt hlt)⟩

/-- The descriptors of the streams are different ones and empty, and no stream is appended to. -/
structure Vacant (streams : List (Nat × OpenFlags)) (d : Descriptors W) : Prop where
  nodup : (streams.map Prod.fst).Nodup
  empty : ∀ stream ∈ streams, d.table.get? stream.1 = none
  append : ∀ stream ∈ streams, stream.2.contains .append = false

namespace Vacant

theorem tail (h : Vacant ((fd, flags) :: streams) d) (hlt : fd < d.table.capacity) :
    Vacant streams (d.withStream fd flags v w) := by
  obtain ⟨hne, hnodup⟩ := List.nodup_cons.1 h.nodup
  refine ⟨hnodup, fun stream hmem => ?_,
    fun stream hmem => h.append stream (List.mem_cons_of_mem _ hmem)⟩
  have hother : stream.1 ≠ fd := by
    intro heq
    exact hne (List.mem_map.2 ⟨stream, hmem, heq⟩)
  rw [get?_withStream hlt, if_neg hother]
  exact h.empty stream (List.mem_cons_of_mem _ hmem)

theorem standard (openMax : Nat) (sh : Shared W) :
    Vacant standardStreams ⟨.empty openMax, sh⟩ :=
  ⟨by decide, fun _ _ => DescriptorTable.get?_empty _ _, by decide⟩

theorem attachEach_of_attaches (h : Vacant streams d) (hattaches : Attaches S streams d d') :
    attachEach S streams d = .ok () d' := by
  induction hattaches with
  | done => rfl
  | stream hopen hlt _ ih =>
    have happend := h.append _ List.mem_cons_self
    have hempty := h.empty _ List.mem_cons_self
    rw [attachEach, Action.bind_of_ok (attachStream_of_ok happend hopen hlt hempty)]
    exact ih (h.tail hlt)

theorem attachEach_of_failure (h : Vacant streams d) (hfails : AttachFailure S streams d e) :
    ∃ d', attachEach S streams d = .error e d' := by
  induction hfails with
  | unopened hopen =>
    exact ⟨_, by rw [attachEach, Action.bind_of_error (attachStream_of_error hopen)]⟩
  | full hopen hfull =>
    have happend := h.append _ List.mem_cons_self
    exact ⟨_, by rw [attachEach, Action.bind_of_error (attachStream_of_full happend hopen hfull)]⟩
  | later hopen hlt _ ih =>
    have happend := h.append _ List.mem_cons_self
    have hempty := h.empty _ List.mem_cons_self
    obtain ⟨d', hrest⟩ := ih (h.tail hlt)
    refine ⟨d', ?_⟩
    rw [attachEach, Action.bind_of_ok (attachStream_of_ok happend hopen hlt hempty), hrest]

end Vacant

theorem attachStreams_of_attaches {openMax : Nat} {sh : Shared W}
    (h : Attaches S standardStreams ⟨.empty openMax, sh⟩ d) :
    attachStreams S ⟨.empty openMax, sh⟩ =
      .ok () { d with shared := d.shared.report .streamsAttached } := by
  rw [attachStreams_eq,
    Action.bind_of_ok ((Vacant.standard openMax sh).attachEach_of_attaches h)]
  rfl

theorem attachStreams_of_failure {openMax : Nat} {sh : Shared W}
    (h : AttachFailure S standardStreams ⟨.empty openMax, sh⟩ e) :
    ∃ d, attachStreams S ⟨.empty openMax, sh⟩ = .error e d := by
  obtain ⟨d, hrun⟩ := (Vacant.standard openMax sh).attachEach_of_failure h
  exact ⟨d, by rw [attachStreams_eq, Action.bind_of_error hrun]⟩

end Descriptors

/-! ### The standard streams -/

/-- The file `id` is open on `v` and stands at its start, and descriptor `fd` alone holds it. -/
structure HoldsStream (t : DescriptorTable) (files : Pool OpenFile) (fd : Nat) (id : FileId)
    (v : Vnode) (mode : AccessMode) : Prop where
  slot : t.get? fd = some id
  file : files.held? id = some ⟨⟨v, mode, false, 0⟩, 1⟩

/-- From the world `w` on the console was opened once for reading and twice for writing. The three
files, with the numbers from `id` on, are on the first three descriptors, and the other descriptors
are empty. -/
inductive OnConsole (S : Services W) (w : W) (id : FileId) (t : DescriptorTable)
    (files : Pool OpenFile) : Prop
  | intro {v₀ v₁ v₂ : Vnode} {w₁ w₂ w₃ : W} :
    S.openPath consolePath .rdonly w = .ok v₀ w₁ → HoldsStream t files 0 id v₀ .readOnly →
    S.openPath consolePath .wronly w₁ = .ok v₁ w₂ → HoldsStream t files 1 (id + 1) v₁ .writeOnly →
    S.openPath consolePath .wronly w₂ = .ok v₂ w₃ → HoldsStream t files 2 (id + 2) v₂ .writeOnly →
    (∀ fd, 3 ≤ fd → t.get? fd = none) → OnConsole S w id t files

/-- A stream is as it was when another one has been attached. -/
theorem HoldsStream.withStream {d : Descriptors W} {fd other : Nat} {id : FileId} {v' : Vnode}
    {mode : AccessMode}
    (h : HoldsStream d.table d.shared.files fd id v' mode) (hne : fd ≠ other)
    (hlt : other < d.table.capacity) :
    HoldsStream (d.withStream other flags v w).table (d.withStream other flags v w).shared.files fd
      id v' mode := by
  have hid : id ≠ d.shared.files.next := Nat.ne_of_lt (Pool.lt_of_held? h.file)
  exact ⟨by rw [Descriptors.get?_withStream hlt, if_neg hne, h.slot],
    by rw [Descriptors.held?_withStream, if_neg hid, h.file]⟩

namespace Descriptors

variable {d d' : Descriptors W} {fd : Nat}

theorem holdsStream_withStream (flags : OpenFlags) (v : Vnode) (w : W)
    (hlt : fd < d.table.capacity) :
    HoldsStream (d.withStream fd flags v w).table (d.withStream fd flags v w).shared.files fd
      d.shared.files.next v flags.accessMode :=
  ⟨by rw [get?_withStream hlt, if_pos rfl], by rw [held?_withStream, if_pos rfl]⟩

theorem Attaches.onConsole {openMax : Nat} {sh : Shared W}
    (h : Attaches S standardStreams ⟨.empty openMax, sh⟩ d') :
    OnConsole S sh.world sh.files.next d'.table d'.shared.files := by
  cases h with | @stream _ _ _ _ _ v₀ w₁ hopen₀ hlt₀ h =>
  cases h with | @stream _ _ _ _ _ v₁ w₂ hopen₁ hlt₁ h =>
  cases h with | @stream _ _ _ _ _ v₂ w₃ hopen₂ hlt₂ h =>
  cases h
  have hstream₀ := holdsStream_withStream .rdonly v₀ w₁ hlt₀
  have hstream₁ := holdsStream_withStream .wronly v₁ w₂ hlt₁
  have hstream₂ := holdsStream_withStream .wronly v₂ w₃ hlt₂
  simp only [next_withStream] at hstream₁ hstream₂
  refine .intro hopen₀ ?_ hopen₁ ?_ hopen₂ hstream₂ fun fd hfd => ?_
  · exact (hstream₀.withStream (by decide) hlt₁).withStream (by decide) hlt₂
  · exact hstream₁.withStream (by decide) hlt₂
  · rw [get?_withStream hlt₂, get?_withStream hlt₁, get?_withStream hlt₀, if_neg (by omega),
      if_neg (by omega), if_neg (by omega), DescriptorTable.get?_empty]

end Descriptors

end UnixCore
