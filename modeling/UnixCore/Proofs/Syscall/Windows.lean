import UnixCore.Proofs.Sharing.Cursor
import UnixCore.Proofs.Syscall.Read

/-! Which bytes the transfers move. Data crosses the user boundary through a buffer of the kernel's
that is cut to the largest transfer, and the vnode may move less than it is asked for; what counts
in the end is the count that the call gives. -/

namespace UnixCore

open Action Bytewise

variable {W : Type} {S : Services W}

/-- The kernel after a transfer that moved the cursor of a file. -/
def Kernel.transferred (id : FileId) (count : Nat) (w : W) (events : Array Event) (k : Kernel W) :
    Kernel W :=
  { k with shared :=
    { k.shared with files := k.shared.files.modify id (·.advance count), world := w, events } }

namespace Syscall

variable {k k' : Kernel W} {p : ProcessId} {fd len : UInt64} {n : Nat} {id : FileId}
  {file : OpenFile} {buffer : UserAddr}

theorem ensures_sysRead (hn : descriptor fd = .ok n)
    (hid : (k.process p).descriptors.get? n = some id)
    (hfile : k.shared.files.get? id = some file) :
    (sysRead S p fd buffer len).Ensures k
      (fun v k' => ∃ bytes w space events,
        S.readAt file.vnode file.offset (min len.toNat maxTransfer) k.shared.world = .ok bytes w ∧
        (k.process p).space = some space ∧ space.memory.Covers buffer bytes.length ∧
        v = .value (.ofNat bytes.length) ∧
        k' = Kernel.modifyProcess p ({ · with space := some (space.stored bytes buffer) })
          (k.transferred id bytes.length w events))
      fun _ _ => True := by
  rw [sysRead, ensures_bind]
  refine ensures_transferDescriptor.mono (fun n' k₁ h => ?_) fun _ _ _ => trivial
  obtain ⟨rfl, hn', -⟩ := h
  cases hn.symm.trans hn'
  rw [ensures_bind]
  refine (Kernel.ensures_transfer hid (Shared.read S · (min len.toNat maxTransfer))
    fun bytes => .bytesRead n bytes.length).mono (fun bytes k₂ h => ?_) fun _ _ _ => trivial
  obtain ⟨sh, hread, events, rfl⟩ := h
  obtain ⟨file', w, hfile', -, hread, rfl⟩ := Shared.ensures_read_eq.of_result hread
  cases hfile.symm.trans hfile'
  rw [ensures_bind, Kernel.ensures_onMemory_store]
  exact ⟨fun space hspace hcovers =>
    ⟨bytes, w, space, events, hread, hspace, hcovers, rfl, rfl⟩, fun _ => trivial⟩

theorem ensures_sysWrite (hn : descriptor fd = .ok n)
    (hid : (k.process p).descriptors.get? n = some id)
    (hfile : k.shared.files.get? id = some file) :
    (sysWrite S p fd buffer len).Ensures k
      (fun v k' => ∃ (space : AddressSpace) (bytes : Vector UInt8 (min len.toNat maxTransfer))
        (count : UInt64) (w : W) (events : Array Event),
        (k.process p).space = some space ∧ file.mode.canWrite = true ∧
        UserMemory.copyIn space buffer (min len.toNat maxTransfer) = .ok bytes ∧
        S.writeAt file.vnode file.offset bytes.toList k.shared.world = .ok count w ∧
        v = .value (.ofNat count.toNat) ∧ k' = k.transferred id count.toNat w events)
      fun _ _ => True := by
  rw [sysWrite, ensures_bind]
  refine ensures_transferDescriptor.mono (fun n' k₁ h => ?_) fun _ _ _ => trivial
  obtain ⟨rfl, hn', -⟩ := h
  cases hn.symm.trans hn'
  rw [ensures_bind, Kernel.ensures_readMemory]
  refine ⟨fun _ => trivial, fun space hspace => ⟨fun bytes hbytes => ?_, fun _ _ => trivial⟩⟩
  rw [ensures_bind]
  refine (Kernel.ensures_transfer hid (Shared.write S · bytes.toList)
    fun count => .bytesWritten n count).mono (fun count k₂ h => ?_) fun _ _ _ => trivial
  obtain ⟨sh, hwrite, events, rfl⟩ := h
  obtain ⟨file', w, hfile', hmode, hwrite, rfl⟩ := Shared.ensures_write_eq.of_result hwrite
  cases hfile.symm.trans hfile'
  refine ⟨space, bytes, count, w, events, hspace, hmode, hbytes, hwrite, ?_, rfl⟩
  rw [← UInt64.toInt64_ofNat', UInt64.ofNat_toNat]

theorem sysLseek_current {pos : Int64} {target : UInt64} (hn : descriptor fd = .ok n)
    (hid : (k.process p).descriptors.get? n = some id)
    (hfile : k.shared.files.get? id = some file)
    (hseekable : S.isSeekable file.vnode k.shared.world = true)
    (htarget : OpenFile.seekTarget file.offset pos = .ok target) :
    sysLseek S p fd pos 1 k = .ok (.value target.toInt64)
      { k with shared.files := k.shared.files.modify id ({ · with offset := target }) } := by
  have hself : Kernel.modifyProcess p
      ({ · with descriptors := (k.process p).descriptors }) k = k :=
    Kernel.modifyProcess_eq_self rfl
  apply eq_ok_iff.2
  rw [sysLseek, ensures_bind, hn, ensures_ofExcept]
  refine ⟨?_, fun e he => by cases he⟩
  rintro _ ⟨⟩
  rw [ensures_bind, Kernel.onDescriptors, ensures_onPart, Descriptors.seek, ensures_bind,
    Descriptors.ensures_lookup]
  refine ⟨fun id' hid' => ?_, fun hnone => by rw [hid] at hnone; cases hnone⟩
  cases hid.symm.trans hid'
  have hseek : Shared.seek S id pos .current k.shared = .ok target
      { k.shared with files := k.shared.files.modify id ({ · with offset := target }) } := by
    apply eq_ok_iff.2
    simp only [Shared.seek, Shared.seekBase, ensures_bind, ensures_get, hfile, hseekable, if_true,
      ensures_pure, htarget]
    exact ⟨rfl, rfl⟩
  rw [ensures_bind, show Whence.ofCode 1 = .ok .current from rfl, ensures_ofExcept]
  refine ⟨?_, fun e he => by cases he⟩
  rintro _ ⟨⟩
  rw [Descriptors.ensures_onShared, ensures_of_ok hseek]
  dsimp only
  rw [hself]
  exact ⟨rfl, rfl⟩

/-! ### The windows -/

/-- Of the open files only the cursor of `id` has moved, by `count`. -/
structure CursorMoved (files files' : Pool OpenFile) (id : FileId) (file : OpenFile)
    (count : Nat) : Prop where
  bound : file.offset.toNat + count < UInt64.size
  file : files'.get? id = some { file with offset := .ofNat (file.offset.toNat + count) }
  others : ∀ id' ≠ id, files'.get? id' = files.get? id'

/-- What a read of `count` bytes did: the bytes of the file from its cursor on stand in the buffer,
and nothing else in any memory or file is different. -/
structure ReadWindow (view : FileView W) (content : W → Option (List UInt8)) (p : ProcessId)
    (id : FileId) (file : OpenFile) (old : List UInt8) (buffer : UserAddr) (len : UInt64)
    (k k' : Kernel W) (count : Nat) : Prop where
  count_le : count ≤ min len.toNat 65536
  memory : ∃ space space', (k.process p).space = some space ∧
    k'.process p = { k.process p with space := some space' } ∧
    (∀ i < count, ∃ b, old[file.offset.toNat + i]? = some b ∧
      space'.memory.byte? (buffer.toNat + i) = some b) ∧
    ∀ a, a < buffer.toNat ∨ buffer.toNat + count ≤ a →
      space'.memory.byte? a = space.memory.byte? a
  others : ∀ q ≠ p, k'.process q = k.process q
  content : content k'.shared.world = some old
  kept : view.Kept k.shared.world k'.shared.world
  cursor : CursorMoved k.shared.files k'.shared.files id file count

/-- What a write of `count` bytes did: the bytes of the buffer stand in the file from its cursor on,
a gap before them is filled with zeros, and nothing else in any memory or file is different. -/
structure WriteWindow (view : FileView W) (content : W → Option (List UInt8)) (p : ProcessId)
    (id : FileId) (file : OpenFile) (old : List UInt8) (buffer : UserAddr) (len : UInt64)
    (k k' : Kernel W) (count : Nat) : Prop where
  count_le : count ≤ min len.toNat 65536
  contents : ∃ space new, (k.process p).space = some space ∧ content k'.shared.world = some new ∧
    file.offset.toNat + count ≤ new.length ∧
    (∀ i < count, ∃ b, space.memory.byte? (buffer.toNat + i) = some b ∧
      new[file.offset.toNat + i]? = some b) ∧
    (∀ i, old.length ≤ i → i < file.offset.toNat → new[i]? = some 0) ∧
    ∀ i, (i < file.offset.toNat ∧ i < old.length) ∨ file.offset.toNat + count ≤ i →
      new[i]? = old[i]?
  records : k'.records = k.records
  kept : view.KeptBut file.vnode.resource k.shared.world k'.shared.world
  cursor : CursorMoved k.shared.files k'.shared.files id file count

/-- The descriptor argument `fd` of process `p` is open on file `id`, a regular file with the
contents `old`. -/
structure OpenOn (S : Services W) (k : Kernel W) (p : ProcessId) (fd : UInt64) (id : FileId)
    (file : OpenFile) (content : W → Option (List UInt8)) (old : List UInt8) : Prop where
  descriptor : ∃ n, descriptor fd = .ok n ∧ (k.process p).descriptors.get? n = some id
  opened : k.shared.files.get? id = some file
  faithful : S.Faithful file.vnode content
  content : content k.shared.world = some old

variable {view : FileView W} {content : W → Option (List UInt8)} {old : List UInt8}

theorem cursorMoved_advance {files : Pool OpenFile} {count : Nat}
    (hfile : files.get? id = some file) (hbound : file.offset.toNat + count < UInt64.size) :
    CursorMoved files (files.modify id (·.advance count)) id file count := by
  refine ⟨hbound, ?_, fun id' hne => ?_⟩
  · rw [Pool.get?_modify, if_pos rfl, hfile, Option.map_some, OpenFile.offset_advance hbound]
  · rw [Pool.get?_modify, if_neg hne]

theorem length_toList_lt {n : Nat} (bytes : Vector UInt8 (min n maxTransfer)) :
    bytes.toList.length < UInt64.size := by
  rw [Vector.length_toList]
  exact Nat.lt_trans (min_maxTransfer_lt n) (by decide)

theorem ensures_read_window (hshows : S.Shows view) (h : OpenOn S k p fd id file content old) :
    (sysRead S p fd buffer len).Ensures k
      (fun v k' => ∃ count, v = .value (.ofNat count) ∧
        ReadWindow view content p id file old buffer len k k' count)
      fun _ _ => True := by
  obtain ⟨⟨n, hn, hid⟩, hfile, hfaithful, hold⟩ := h
  refine (ensures_sysRead hn hid hfile).mono ?_ fun _ _ _ => trivial
  rintro _ _ ⟨bytes, w, space, events, hread, hspace, hcovers, rfl, rfl⟩
  obtain ⟨⟨rest, hprefix⟩, hcontent⟩ := (hfaithful.read _ _ hold).of_ok hread
  have hlength := (hfaithful.sparing _ _ hold).of_ok hread
  have hbound := hfaithful.bound hold
  have hdrop := congrArg List.length hprefix
  rw [List.length_append, List.length_drop] at hdrop
  have hlimit : OpenFile.seekLimit < UInt64.size := by decide
  have hsize := file.offset.toNat_lt
  have hcursor : file.offset.toNat + bytes.length < UInt64.size := by
    change file.offset.toNat < UInt64.size at hsize
    omega
  obtain ⟨hblock, hkept⟩ := AddressSpace.byte?_stored hcovers
  refine ⟨bytes.length, rfl, hlength, ⟨space, _, hspace,
    Kernel.process_modifyProcess_self _ (Kernel.lt_of_space hspace), fun i hi => ?_, hkept⟩,
    fun q hq => Kernel.process_modifyProcess_ne _ hq, hcontent,
    (hshows.readAt _ _ _ _).of_ok hread, cursorMoved_advance hfile hcursor⟩
  refine ⟨bytes[i], ?_, hblock i hi⟩
  rw [← List.getElem?_drop, ← hprefix, List.getElem?_append_left hi, List.getElem?_eq_getElem hi]

theorem ensures_write_window (hshows : S.Shows view) (h : OpenOn S k p fd id file content old) :
    (sysWrite S p fd buffer len).Ensures k
      (fun v k' => ∃ count, v = .value (.ofNat count) ∧
        WriteWindow view content p id file old buffer len k k' count)
      fun _ _ => True := by
  obtain ⟨⟨n, hn, hid⟩, hfile, hfaithful, hold⟩ := h
  refine (ensures_sysWrite hn hid hfile).mono ?_ fun _ _ _ => trivial
  rintro _ _ ⟨space, bytes, count, w, events, hspace, -, hbytes, hwrite, rfl, rfl⟩
  have hlimit : OpenFile.seekLimit < UInt64.size := by decide
  have hlength : bytes.toList.length = min len.toNat maxTransfer := Vector.length_toList
  have hsize := length_toList_lt bytes
  obtain ⟨hcount, new, hnew, hwritten⟩ := (hfaithful.write _ _ hsize hold).of_ok hwrite
  have hgap := (hfaithful.gap _ _ hsize hold).of_ok hwrite new hnew
  have hbound := hfaithful.bound hnew
  have htaken : (bytes.toList.take count.toNat).length = count.toNat :=
    List.length_take_of_le hcount
  have hreach := hwritten.le_length hgap
  refine ⟨count.toNat, rfl, hlength ▸ hcount,
    ⟨space, new, hspace, hnew, by omega, fun i hi => ?_, hgap, ?_⟩, rfl,
    (hshows.writeAt _ _ _ _).of_ok hwrite, cursorMoved_advance hfile (by omega)⟩
  · have hin := hwritten.inside i (htaken.symm ▸ hi)
    have hbyte := (copyIn_eq_ok (by omega)).1 hbytes i (by omega)
    refine ⟨bytes[i], hbyte, ?_⟩
    rw [hin, List.getElem?_take_of_lt hi, List.getElem?_eq_getElem (by omega),
      Vector.getElem_toList]
  · rintro i (⟨hi, hi'⟩ | hi)
    · exact hwritten.before i hi hi'
    · exact hwritten.after i (htaken.symm ▸ hi)

/-! ### What was written is read back -/

/-- Reads of a descriptor one right after the other, each into the memory behind what the ones
before it have filled: `total` bytes from `dst` on. -/
inductive ReadsInto (S : Services W) (p : ProcessId) (fd : UInt64) :
    (dst total : Nat) → Kernel W → Kernel W → Prop
  | done {dst : Nat} {k : Kernel W} : ReadsInto S p fd dst 0 k k
  | next {dst total : Nat} {buffer : UserAddr} {len : UInt64} {count : Int64}
    {k k' k'' : Kernel W} : buffer.toNat = dst →
    sysRead S p fd buffer len k = .ok (.value count) k' →
    ReadsInto S p fd (dst + count.toInt.toNat) total k' k'' →
    ReadsInto S p fd dst (count.toInt.toNat + total) k k''

theorem toNat_toInt_ofNat {count : Nat} (h : count ≤ min len.toNat 65536) :
    (Int64.ofNat count).toInt.toNat = count := by
  rw [Int64.toInt_ofNat_of_lt (by omega), Int.toNat_natCast]

theorem OpenOn.of_read {count : Nat} (h : OpenOn S k p fd id file content old)
    (hread : ReadWindow view content p id file old buffer len k k' count) :
    OpenOn S k' p fd id { file with offset := .ofNat (file.offset.toNat + count) } content old := by
  obtain ⟨space, space', -, hprocess, -⟩ := hread.memory
  exact ⟨by rw [hprocess]; exact h.descriptor, hread.cursor.file, h.faithful, hread.content⟩

theorem OpenOn.of_seek (h : OpenOn S k p fd id file content old) (target : UInt64) :
    OpenOn S { k with shared.files := k.shared.files.modify id ({ · with offset := target }) } p fd
      id { file with offset := target } content old := by
  refine ⟨h.descriptor, ?_, h.faithful, h.content⟩
  show (k.shared.files.modify id _).get? id = _
  rw [Pool.get?_modify, if_pos rfl, h.opened, Option.map_some]

/-- Reads one after the other move one window, whichever pieces it comes in. -/
theorem ReadsInto.window {dst total : Nat} {space : AddressSpace} (hshows : S.Shows view)
    (hreads : ReadsInto S p fd dst total k k') (h : OpenOn S k p fd id file content old)
    (hspace : (k.process p).space = some space) :
    ∃ space', (k'.process p).space = some space' ∧
      (∀ i < total, ∃ b, old[file.offset.toNat + i]? = some b ∧
        space'.memory.byte? (dst + i) = some b) ∧
      ∀ a, a < dst ∨ dst + total ≤ a → space'.memory.byte? a = space.memory.byte? a := by
  induction hreads generalizing file space with
  | done => exact ⟨space, hspace, nofun, fun _ _ => rfl⟩
  | @next dst total buffer len count k k₁ k₂ hdst hread _ ih =>
    obtain ⟨c, hvalue, hwindow⟩ := (ensures_read_window hshows h).of_ok hread
    cases hvalue
    have hcount := toNat_toInt_ofNat hwindow.count_le
    obtain ⟨before, after, hbefore, hprocess, hblock, hkept⟩ := hwindow.memory
    cases hspace.symm.trans hbefore
    have hafter : (k₁.process p).space = some after := by rw [hprocess]
    obtain ⟨last, hlast, hrest, hothers⟩ := ih (h.of_read hwindow) hafter
    have hoffset : (UInt64.ofNat (file.offset.toNat + c)).toNat = file.offset.toNat + c :=
      UInt64.toNat_ofNat_of_lt' hwindow.cursor.bound
    rw [hcount] at hrest hothers ⊢
    rw [hdst] at hblock hkept
    refine ⟨last, hlast, fun i hi => ?_, fun a ha => ?_⟩
    · by_cases hfirst : i < c
      · rw [hothers (dst + i) (.inl (by omega))]
        exact hblock i hfirst
      · obtain ⟨b, hold, hbyte⟩ := hrest (i - c) (by omega)
        rw [hoffset, show file.offset.toNat + c + (i - c) = file.offset.toNat + i by omega] at hold
        rw [show dst + c + (i - c) = dst + i by omega] at hbyte
        exact ⟨b, hold, hbyte⟩
    · rw [hothers a (by omega), hkept a (by omega)]

theorem seekTarget_back {offset : UInt64} {count : Nat}
    (hcount : count ≤ min len.toNat 65536)
    (hbound : offset.toNat + count < OpenFile.seekLimit) :
    OpenFile.seekTarget (.ofNat (offset.toNat + count)) (-(Int64.ofNat count)) = .ok offset := by
  have hlimit : OpenFile.seekLimit < UInt64.size := by decide
  have hbase : (UInt64.ofNat (offset.toNat + count)).toNat = offset.toNat + count :=
    UInt64.toNat_ofNat_of_lt' (by omega)
  have hpos : (-(Int64.ofNat count)).toInt = -(count : Int) := by
    rw [Int64.toInt_neg, Int64.toInt_ofNat_of_lt (by omega)]
    exact Int.bmod_eq_of_le (by omega) (by omega)
  have htarget : ((offset.toNat + count : Nat) : Int) + -(count : Int) = offset.toNat := by omega
  unfold OpenFile.seekTarget
  dsimp only
  rw [hbase, hpos, htarget, if_pos ⟨hbound, by omega, by omega⟩, Int.toNat_natCast,
    UInt64.ofNat_toNat]

theorem read_back (hshows : S.Shows view) (h : OpenOn S k p fd id file content old)
    (hseekable : S.isSeekable file.vnode k.shared.world = true) {count : Int64} {k₁ : Kernel W}
    (hwrite : sysWrite S p fd buffer len k = .ok (.value count) k₁) :
    ∃ k₂, sysLseek S p fd (-count) 1 k₁ = .ok (.value file.offset.toInt64) k₂ ∧
      ∀ dst k₃, ReadsInto S p fd dst count.toInt.toNat k₂ k₃ →
        ∃ space space', (k.process p).space = some space ∧ (k₃.process p).space = some space' ∧
          ∀ i < count.toInt.toNat, ∃ b, space.memory.byte? (buffer.toNat + i) = some b ∧
            space'.memory.byte? (dst + i) = some b := by
  obtain ⟨c, hvalue, hwindow⟩ := (ensures_write_window hshows h).of_ok hwrite
  cases hvalue
  obtain ⟨space, new, hspace, hnew, hreach, hbytes, -⟩ := hwindow.contents
  obtain ⟨n, hn, hid⟩ := h.descriptor
  have hprocess : k₁.process p = k.process p := by
    unfold Kernel.process
    rw [hwindow.records]
  have hstill : S.isSeekable file.vnode k₁.shared.world = true := by
    obtain ⟨-, bytes, n', w, -, -, -, -, hwritten, -, rfl⟩ :=
      (ensures_sysWrite hn hid h.opened).of_ok hwrite
    rw [← hseekable]
    exact (h.faithful.seekable _ _ (length_toList_lt bytes) h.content).of_ok hwritten
  have htarget := seekTarget_back hwindow.count_le
    (Nat.lt_of_le_of_lt hreach (h.faithful.bound hnew))
  have hopen : OpenOn S k₁ p fd id
      { file with offset := .ofNat (file.offset.toNat + c) } content new :=
    ⟨⟨n, hn, hprocess ▸ hid⟩, hwindow.cursor.file, h.faithful, hnew⟩
  rw [toNat_toInt_ofNat hwindow.count_le]
  refine ⟨_, sysLseek_current hn (hprocess ▸ hid) hopen.opened hstill htarget,
    fun dst k₃ hreads => ?_⟩
  obtain ⟨space', hspace', hread, -⟩ :=
    hreads.window hshows (hopen.of_seek file.offset) (hprocess ▸ hspace)
  refine ⟨space, space', hspace, hspace', fun i hi => ?_⟩
  obtain ⟨b, hbyte, hin⟩ := hbytes i hi
  obtain ⟨b', hin', hbyte'⟩ := hread i hi
  cases hin.symm.trans hin'
  exact ⟨b, hbyte, hbyte'⟩

/-- A read that succeeds moves the bytes of the file from the cursor on into the buffer, a write
that succeeds moves those of the buffer into the file, as many as the call gives, and nothing else
changes but the cursor. So what was written comes back, in whichever pieces it is read, after a seek
over as many bytes as were written, which succeeds. -/
theorem transfers_move_windows (hshows : S.Shows view)
    (h : OpenOn S k p fd id file content old) :
    (∀ buffer len v k', sysRead S p fd buffer len k = .ok v k' →
        ∃ count, v = .value (.ofNat count) ∧
          ReadWindow view content p id file old buffer len k k' count) ∧
      (∀ buffer len v k', sysWrite S p fd buffer len k = .ok v k' →
        ∃ count, v = .value (.ofNat count) ∧
          WriteWindow view content p id file old buffer len k k' count) ∧
      (S.isSeekable file.vnode k.shared.world = true → ∀ buffer len count k₁,
        sysWrite S p fd buffer len k = .ok (.value count) k₁ →
          ∃ k₂, sysLseek S p fd (-count) 1 k₁ = .ok (.value file.offset.toInt64) k₂ ∧
            ∀ dst k₃, ReadsInto S p fd dst count.toInt.toNat k₂ k₃ →
              ∃ space space', (k.process p).space = some space ∧
                (k₃.process p).space = some space' ∧
                ∀ i < count.toInt.toNat, ∃ b, space.memory.byte? (buffer.toNat + i) = some b ∧
                  space'.memory.byte? (dst + i) = some b) :=
  ⟨fun _ _ _ _ hrun => (ensures_read_window hshows h).of_ok hrun,
    fun _ _ _ _ hrun => (ensures_write_window hshows h).of_ok hrun,
    fun hseekable _ _ _ _ hrun => read_back hshows h hseekable hrun⟩

theorem openOn_sharedProgram : OpenOn Ram.services sharedProgram 0 3 3
    ⟨⟨2, false⟩, .readWrite, false, 0⟩ (Ram.limited 2) Ram.sampleImage where
  descriptor := ⟨3, by decide +kernel, by decide +kernel⟩
  opened := by decide +kernel
  faithful := Ram.services_faithful ⟨2, false⟩
  content := by decide +kernel

/-- The first process has written four bytes of its memory into the program file. -/
def writtenProgram : Kernel Ram :=
  ((sysWrite Ram.services 0 3 ⟨0x1004⟩ 4).result sharedProgram).2

/-- It has gone back over them. -/
def rewoundProgram : Kernel Ram := ((sysLseek Ram.services 0 3 (-4) 1).result writtenProgram).2

/-- It has read three of them into another place. -/
def partlyRead : Kernel Ram := ((sysRead Ram.services 0 3 ⟨0x1020⟩ 3).result rewoundProgram).2

/-- The first process writes four bytes, goes back, and reads them in two pieces. -/
theorem transfers_move_windows_sharedProgram :
    sysWrite Ram.services 0 3 ⟨0x1004⟩ 4 sharedProgram = .ok (.value 4) writtenProgram ∧
      WriteWindow Ram.view (Ram.limited 2) 0 3 ⟨⟨2, false⟩, .readWrite, false, 0⟩ Ram.sampleImage
        ⟨0x1004⟩ 4 sharedProgram writtenProgram 4 ∧
      sysLseek Ram.services 0 3 (-4) 1 writtenProgram = .ok (.value 0) rewoundProgram ∧
      ∃ k, ReadsInto Ram.services 0 3 0x1020 4 rewoundProgram k ∧
        ∃ space space', (sharedProgram.process 0).space = some space ∧
          (k.process 0).space = some space' ∧
          ∀ i < 4, ∃ b, space.memory.byte? (0x1004 + i) = some b ∧
            space'.memory.byte? (0x1020 + i) = some b := by
  obtain ⟨-, hwrites, hback⟩ := transfers_move_windows Ram.services_shows openOn_sharedProgram
  have hwrite : sysWrite Ram.services 0 3 ⟨0x1004⟩ 4 sharedProgram =
      .ok (.value 4) writtenProgram := eq_ok_of_result (result_eq_ok (by decide +kernel))
  have hseek : sysLseek Ram.services 0 3 (-4) 1 writtenProgram = .ok (.value 0) rewoundProgram :=
    eq_ok_of_result (result_eq_ok (by decide +kernel))
  have hfirst : sysRead Ram.services 0 3 ⟨0x1020⟩ 3 rewoundProgram = .ok (.value 3) partlyRead :=
    eq_ok_of_result (result_eq_ok (by decide +kernel))
  have hsecond : sysRead Ram.services 0 3 ⟨0x1023⟩ 1 partlyRead = .ok (.value 1) _ :=
    eq_ok_of_result (result_eq_ok (by decide +kernel))
  obtain ⟨c, hvalue, hwindow⟩ := hwrites _ _ _ _ hwrite
  have hc : 4 = c := by
    have hcount := toNat_toInt_ofNat hwindow.count_le
    rwa [← SyscallEnd.value.inj hvalue] at hcount
  subst hc
  obtain ⟨k₂, hsought, hreads⟩ := hback (by decide +kernel) _ _ _ _ hwrite
  obtain ⟨-, rfl⟩ := EStateM.Result.ok.inj (hseek.symm.trans hsought)
  have hboth : ReadsInto Ram.services 0 3 0x1020 4 rewoundProgram _ :=
    .next rfl hfirst (.next rfl hsecond .done)
  exact ⟨hwrite, hwindow, hseek, _, hboth, hreads _ _ hboth⟩

end Syscall

end UnixCore
