import UnixCore.Proofs.Accounting.Remnant
import UnixCore.Proofs.Exec.Carried
import UnixCore.Proofs.Ram.Files
import UnixCore.Proofs.Syscall.Read
import UnixCore.Syscall.Dispatch

/-! Descriptor calls that fail. An open, write, seek, close or duplicate that fails, wherever it
fails, has taken back whatever it did before: the process records, the registry, the open files with
their cursors and share counts, and the vnodes in use are what they were. -/

namespace UnixCore

open Action

variable {W α : Type} {S : Services W}

namespace Services

/-- A call whose result is known to be good is good beside a ledger, too. -/
theorem result_of_beside {good : α → Prop} {w : W × Ledger} (act : Action W α)
    (h : ∀ a w', act w.1 = .ok a w' → good a) {a : α} {w' : W × Ledger}
    (hrun : (onPart Prod.fst (fun w s => (w, s.2)) act : Action (W × Ledger) α) w = .ok a w') :
    good a := by
  have hact : act.Ensures w.1 (fun a _ => good a) fun _ _ => True :=
    ensures_iff.2 ⟨h, fun _ _ _ => trivial⟩
  have hbeside : (onPart Prod.fst (fun w s => (w, s.2)) act : Action (W × Ledger) α).Ensures w
      (fun a _ => good a) fun _ _ => True := ensures_onPart.2 hact
  exact hbeside.of_ok hrun

theorem HonestAt.audited {w : W × Ledger} (h : S.HonestAt w.1) : S.audited.HonestAt w :=
  fun v offset bytes _ _ hwrite =>
    result_of_beside (S.writeAt v offset bytes) (h v offset bytes) hwrite

theorem SparingAt.audited {w : W × Ledger} (h : S.SparingAt w.1) : S.audited.SparingAt w :=
  fun v offset count _ _ hread =>
    result_of_beside (S.readAt v offset count) (h v offset count) hread

end Services

namespace Shared

variable {sh sh' sh'' : Shared (W × Ledger)} {id : FileId}

theorem ledger_of_asked {v : Vnode} {w w' : W × Ledger} (h : S.audited.Asked v w w') :
    w'.2 = w.2 := by
  rcases h with rfl | ⟨r, hr⟩
  · rfl
  · exact Services.ensures_stat.result (P := fun w' => w'.2 = w.2) hr

theorem held?_insert_release (files : Pool OpenFile) (file : OpenFile) (i : FileId) :
    ((files.insert file).release files.next).2.held? i = files.held? i := by
  rw [Pool.held?_release, Pool.held?_insert]
  by_cases h : i = files.next
  · simp [h, Pool.held?_next]
  · simp [h]

/-- A vnode that was handed out is given back. -/
theorem sameUse_of_returned {resource : Nat}
    (h : sh'.world.2 = .released resource :: .handed resource :: sh.world.2) : SameUse sh sh' := by
  refine ⟨fun _ => ?_, ?_⟩
  · rw [h]
    exact Ledger.inUse_released_handed
  · rw [h, Ledger.liveSpaces_released, Ledger.liveSpaces_handed]

/-- Giving up the only hold on a file that was just opened. -/
theorem restored_dropFile {v : Vnode} {mode : AccessMode} {append : Bool} {offset : UInt64}
    {w : W × Ledger} (hw : w.2 = .handed v.resource :: sh.world.2) :
    Restored sh (dropFile S.audited sh.files.next
      { sh with files := sh.files.insert ⟨v, mode, append, offset⟩, world := w }) := by
  have hfst := Pool.release_fst (sh.files.insert ⟨v, mode, append, offset⟩) sh.files.next
  rw [Pool.held?_insert, if_pos rfl] at hfst
  have hsnd := held?_insert_release sh.files ⟨v, mode, append, offset⟩
  unfold dropFile
  rcases hrel : (sh.files.insert ⟨v, mode, append, offset⟩).release sh.files.next with ⟨file, files⟩
  rw [hrel] at hfst hsnd
  dsimp only at hfst hsnd
  subst hfst
  exact ⟨sameUse_of_returned (congrArg _ hw), hsnd, rfl⟩

theorem ensures_openFile_restored {path : String} {flags : OpenFlags} :
    (openFile S.audited path flags).Ensures sh
      (fun id sh' => Restored sh (sh'.dropFile S.audited id))
      fun _ sh' => Restored sh sh' := by
  have hhanded {v : Vnode} {w : W × Ledger}
      (hopen : S.audited.openPath path flags sh.world = .ok v w) :
      w.2 = .handed v.resource :: sh.world.2 := Services.ensures_openPath.of_ok hopen
  refine ensures_openFile_eq.mono ?_ ?_
  · rintro _ _ ⟨rfl, v, w, w', offset, hopen, hasked, rfl⟩
    exact restored_dropFile ((ledger_of_asked hasked).trans (hhanded hopen))
  · rintro e _ (⟨w, hopen, rfl⟩ | ⟨v, w, w', hopen, hstat, rfl⟩)
    · exact (Agrees.of_world (Services.ensures_openPath.of_error hopen)).restored
    · have hledger := (ledger_of_asked (.inr ⟨_, hstat⟩)).trans (hhanded hopen)
      exact ⟨sameUse_of_returned (congrArg _ hledger), fun _ => rfl, rfl⟩

theorem ensures_write_restored {bytes : List UInt8} :
    (write S.audited id bytes).Ensures sh
      (fun count _ => ∃ v offset w,
        S.audited.writeAt v offset bytes sh.world = .ok count w)
      fun _ sh' => Restored sh sh' := by
  refine ensures_write_eq.mono ?_ ?_
  · rintro count _ ⟨file, w, -, -, hwrite, -⟩
    exact ⟨_, _, w, hwrite⟩
  · rintro e _ (⟨-, rfl, -⟩ | ⟨file, w, -, -, hwrite, rfl⟩)
    · exact .refl _
    · exact (Agrees.of_world (Services.ensures_writeAt.of_error hwrite)).restored

theorem ensures_seek_restored {pos : Int64} {whence : Whence} :
    (seek S.audited id pos whence).Ensures sh (fun target _ => target.toNat < OpenFile.seekLimit)
      fun _ sh' => Restored sh sh' := by
  refine ensures_seek_eq.mono (fun _ _ h => h.1) ?_
  rintro e _ (rfl | ⟨file, w, -, hasked, rfl⟩)
  · exact .refl _
  · exact (Agrees.of_world (ledger_of_asked hasked)).restored

end Shared

/-! ### Operations on a table -/

namespace Descriptors

variable {d : Descriptors (W × Ledger)}

/-- What is left of an operation that failed. -/
def Restored (d d' : Descriptors (W × Ledger)) : Prop :=
  d'.table = d.table ∧ d.shared.Restored d'.shared

theorem Restored.refl (d : Descriptors (W × Ledger)) : Restored d d := ⟨rfl, .refl _⟩

theorem ensures_openPath_restored (hexact : d.table.Exact) {path : String} {raw : UInt32} :
    (openPath S.audited path raw).Ensures d (fun fd _ => fd < d.table.capacity)
      fun _ d' => Restored d d' := by
  rw [openPath, ensures_bind]
  refine ensures_ofExcept.2 ⟨fun flags _ => ?_, fun _ _ => .refl d⟩
  rw [ensures_bind, ensures_onShared]
  refine Shared.ensures_openFile_restored.mono (fun id sh hdrop => ?_) fun _ sh h => ⟨rfl, h⟩
  rw [ensures_bind, ensures_alloc]
  refine ⟨fun fd table halloc => ?_, fun _ => ⟨rfl, hdrop⟩⟩
  obtain ⟨n, hn, heq⟩ := Option.map_eq_some_iff.1 halloc
  cases heq
  exact hexact.lowestFree_lt hn

theorem ensures_write_restored {fd : Nat} {bytes : List UInt8} :
    (write S.audited fd bytes).Ensures d
      (fun count _ => ∃ v offset w,
        S.audited.writeAt v offset bytes d.shared.world = .ok count w)
      fun _ d' => Restored d d' := by
  rw [write, ensures_bind]
  refine ensures_lookup.2 ⟨fun id _ => ?_, fun _ => .refl d⟩
  rw [ensures_bind, ensures_onShared]
  exact Shared.ensures_write_restored.mono (fun _ _ h => h) fun _ _ h => ⟨rfl, h⟩

theorem ensures_seek_restored {fd : Nat} {pos : Int64} {whence : Int32} :
    (seek S.audited fd pos whence).Ensures d (fun target _ => target.toNat < OpenFile.seekLimit)
      fun _ d' => Restored d d' := by
  rw [seek, ensures_bind]
  refine ensures_lookup.2 ⟨fun id _ => ?_, fun _ => .refl d⟩
  rw [ensures_bind]
  refine ensures_ofExcept.2 ⟨fun whence _ => ?_, fun _ _ => .refl d⟩
  rw [ensures_onShared]
  exact Shared.ensures_seek_restored.mono (fun _ _ h => h) fun _ _ h => ⟨rfl, h⟩

theorem ensures_close_restored {fd : Nat} :
    (close S.audited fd).Ensures d (fun _ _ => True) fun _ d' => Restored d d' := by
  rw [close, ensures_bind]
  exact ensures_take.2 ⟨fun _ _ _ => trivial, fun _ => .refl d⟩

/-- The room for the new descriptor is checked before the file gets another holder. -/
theorem ensures_duplicate_restored {old new : Nat} :
    (duplicate S.audited old new).Ensures d (fun fd _ => fd = new) fun _ d' => Restored d d' := by
  rw [duplicate, ensures_bind, ensures_get]
  split
  case isTrue => exact .refl d
  case isFalse hcapacity =>
    rw [ensures_bind]
    refine ensures_lookup.2 ⟨fun id _ => ?_, fun _ => .refl d⟩
    split
    case isTrue => exact rfl
    case isFalse =>
      rw [ensures_bind, ensures_retain, ensures_bind]
      refine ensures_install.2 ⟨fun previous table _ => ?_, fun hnone => ?_⟩
      · cases previous with
        | none => exact rfl
        | some displaced => exact rfl
      · rw [DescriptorTable.install, if_pos (Nat.lt_of_not_le hcapacity)] at hnone
        cases hnone

end Descriptors

/-! ### System calls -/

namespace Kernel

variable {k k' : Kernel (W × Ledger)} {p : ProcessId}

/-- Every process record, the registry, every open file with its cursor and share count, and the
numbers of vnodes in use and of live address spaces are as before. -/
structure Untouched (k k' : Kernel (W × Ledger)) : Prop where
  records : k'.records = k.records
  table : k'.table = k.table
  shared : k.shared.Restored k'.shared

namespace Untouched

theorem refl (k : Kernel (W × Ledger)) : Untouched k k := ⟨rfl, rfl, .refl _⟩

theorem report (h : Untouched k k') (e : Event) : Untouched k (k'.report e) :=
  ⟨h.records, h.table, ⟨⟨h.shared.vnodes, h.shared.spaces⟩, h.shared.files, h.shared.directories⟩⟩

end Untouched

theorem ensures_onDescriptors_untouched {act : Action (Descriptors (W × Ledger)) α} {ok : α → Prop}
    (h : act.Ensures ⟨(k.process p).descriptors, k.shared⟩ (fun a _ => ok a)
      fun _ d => Descriptors.Restored ⟨(k.process p).descriptors, k.shared⟩ d) :
    (onDescriptors p act).Ensures k (fun a _ => ok a) fun _ k' => Untouched k k' := by
  rw [onDescriptors, ensures_onPart]
  refine h.mono (fun _ _ ha => ha) fun _ d hd => ?_
  obtain ⟨htable, hshared⟩ := hd
  have hself : modifyProcess p ({ · with descriptors := d.table }) k = k :=
    modifyProcess_eq_self (by rw [htable])
  rw [hself]
  exact ⟨rfl, rfl, hshared⟩

end Kernel

namespace Syscall

variable {k k' : Kernel (W × Ledger)} {p : ProcessId}

/-- A call gives a value that is not negative, or it changes nothing. -/
def Unwinds (act : Action (Kernel (W × Ledger)) SyscallEnd) (k : Kernel (W × Ledger)) : Prop :=
  act.Ensures k (fun r _ => ∃ v, r = .value v ∧ 0 ≤ v) fun _ k' => k.Untouched k'

theorem zero_le_ofNat {n : Nat} (h : n < 2 ^ 63) : 0 ≤ Int64.ofNat n := by
  rw [Int64.le_iff_toInt_le, Int64.toInt_ofNat_of_lt h]
  exact Int.natCast_nonneg n

theorem zero_le_toInt64 {n : UInt64} (h : n.toNat < 2 ^ 63) : 0 ≤ n.toInt64 := by
  rw [← UInt64.ofNat_toNat (x := n), UInt64.toInt64_ofNat']
  exact zero_le_ofNat h

theorem lt_of_descriptor {raw : UInt64} {n : Nat} (h : descriptor raw = .ok n) : n < 2 ^ 63 := by
  unfold descriptor at h
  dsimp only at h
  split at h
  case isTrue =>
    cases h
    have := raw.toInt64.toInt_lt
    omega
  case isFalse => cases h

theorem unwinds_bind_ofExcept {β : Type} {r : Except Errno β}
    {act : β → Action (Kernel (W × Ledger)) SyscallEnd} (h : ∀ b, r = .ok b → Unwinds (act b) k) :
    Unwinds (Action.ofExcept r >>= act) k := by
  rw [Unwinds, ensures_bind]
  exact ensures_ofExcept.2 ⟨h, fun _ _ => .refl k⟩

theorem unwinds_sysOpen (hexact : (k.process p).descriptors.Exact)
    (hcapacity : (k.process p).descriptors.capacity ≤ 2 ^ 63) (path : UserAddr) (flags : UInt32) :
    Unwinds (sysOpen S.audited p path flags) k := by
  rw [Unwinds, sysOpen, ensures_bind]
  refine ensures_copyInPath.mono (fun path k₁ hk => ?_) fun _ k₁ hk => ?_
  · subst hk
    rw [ensures_bind]
    refine (Kernel.ensures_onDescriptors_untouched
      (Descriptors.ensures_openPath_restored hexact)).mono (fun fd _ hfd => ?_) fun _ _ h => h
    exact ⟨_, rfl, zero_le_ofNat (Nat.lt_of_lt_of_le hfd hcapacity)⟩
  · subst hk
    exact .refl k₁

theorem unwinds_sysWrite (hhonest : S.HonestAt k.shared.world.1) (fd : UInt64) (buffer : UserAddr)
    (len : UInt64) : Unwinds (sysWrite S.audited p fd buffer len) k := by
  rw [Unwinds, sysWrite, ensures_bind]
  refine ensures_transferDescriptor.mono ?_ ?_
  · rintro n k₁ ⟨rfl, -, -⟩
    rw [ensures_bind]
    refine Kernel.ensures_readMemory.2 ⟨fun _ => .refl k₁, fun space _ => ⟨fun bytes _ => ?_,
      fun _ _ => .refl k₁⟩⟩
    rw [ensures_bind]
    refine (Kernel.ensures_onDescriptors_untouched
      Descriptors.ensures_write_restored).mono ?_ fun _ _ h => h
    rintro count k₂ ⟨v, offset, w, hwrite⟩
    refine ⟨_, rfl, zero_le_toInt64 ?_⟩
    have hcount := hhonest.audited v offset _ count w hwrite
    rw [Vector.length_toList] at hcount
    have : min len.toNat maxTransfer ≤ 65536 := Nat.min_le_right _ _
    omega
  · rintro e k₁ ⟨rfl, -⟩
    exact .refl k₁

theorem unwinds_sysLseek (fd : UInt64) (pos : Int64) (whence : Int32) :
    Unwinds (sysLseek S.audited p fd pos whence) k := by
  apply unwinds_bind_ofExcept
  intro n _
  rw [Unwinds, ensures_bind]
  refine (Kernel.ensures_onDescriptors_untouched
    Descriptors.ensures_seek_restored).mono (fun target _ htarget => ?_) fun _ _ h => h
  exact ⟨_, rfl, zero_le_toInt64 htarget⟩

theorem unwinds_sysClose (fd : UInt64) : Unwinds (sysClose S.audited p fd) k := by
  apply unwinds_bind_ofExcept
  intro n _
  rw [Unwinds, ensures_bind]
  exact (Kernel.ensures_onDescriptors_untouched
    Descriptors.ensures_close_restored).mono (fun _ _ _ => ⟨0, rfl, by decide⟩) fun _ _ h => h

theorem unwinds_sysDup2 (old new : UInt64) : Unwinds (sysDup2 S.audited p old new) k := by
  apply unwinds_bind_ofExcept
  intro m _
  apply unwinds_bind_ofExcept
  intro n hn
  rw [Unwinds, ensures_bind]
  refine (Kernel.ensures_onDescriptors_untouched
    Descriptors.ensures_duplicate_restored).mono (fun fd _ hfd => ?_) fun _ _ h => h
  subst hfd
  exact ⟨_, rfl, zero_le_ofNat (lt_of_descriptor hn)⟩

/-- The system calls on descriptors other than read. -/
def onDescriptors : List Syscall := [openFile, write, lseek, close, dup2]

theorem unwinds_handle {call : Syscall} (hcall : call ∈ onDescriptors)
    (hexact : (k.process p).descriptors.Exact)
    (hcapacity : (k.process p).descriptors.capacity ≤ 2 ^ 63)
    (hhonest : S.HonestAt k.shared.world.1) (threads : Threads (W × Ledger)) (frame : TrapFrame) :
    Unwinds (handle S.audited threads p frame call) k := by
  cases call with
  | openFile => exact unwinds_sysOpen hexact hcapacity _ _
  | write => exact unwinds_sysWrite hhonest _ _ _
  | lseek => exact unwinds_sysLseek _ _ _
  | close => exact unwinds_sysClose _
  | dup2 => exact unwinds_sysDup2 _ _
  | _ => simp [onDescriptors] at hcall

section Dispatch

variable {W : Type} {S : Services W} {k : Kernel W} {threads : Threads W} {frame : TrapFrame}
  {call : Syscall}

theorem dispatch_of_number (hnumber : frame.number = call.number) :
    dispatch S threads p frame k =
      match handle S threads p frame call k with
      | .ok done k' => (done, k')
      | .error e k' =>
        (.value e.returnValue, k'.report (.callFailed (k'.process p).pid frame.number e)) := by
  have hrun : (do handle S threads p frame (← Action.ofExcept (ofNumber frame.number)) :
      Action (Kernel W) SyscallEnd) = handle S threads p frame call := by
    rw [hnumber, ofNumber_number]
    rfl
  cases hend : handle S threads p frame call k <;> simp only [dispatch, hrun, hend]

/-- An open with flags that are not supported ends the same way whatever the file system would
do. -/
theorem dispatch_unsupported {e : Errno} (hnumber : frame.number = openFile.number)
    (hflags : OpenFlags.parse (frame.arg 1).toUInt32 = .error e) (S S' : Services W) :
    dispatch S' threads p frame k = dispatch S threads p frame k := by
  have hopen (path : String) : Descriptors.openPath S' path (frame.arg 1).toUInt32 =
      Descriptors.openPath S path (frame.arg 1).toUInt32 := by
    rw [Descriptors.openPath, hflags, Descriptors.openPath, hflags]
    rfl
  have hhandle : handle S' threads p frame openFile = handle S threads p frame openFile := by
    simp only [handle, sysOpen, hopen]
  rw [dispatch_of_number hnumber, dispatch_of_number hnumber, hhandle]

end Dispatch

/-- A dispatch that gives a negative value comes from a call that fails. -/
theorem Unwinds.dispatch {threads : Threads (W × Ledger)} {frame : TrapFrame} {call : Syscall}
    (h : Unwinds (handle S.audited threads p frame call) k) (hnumber : frame.number = call.number)
    {v : Int64} (hrun : dispatch S.audited threads p frame k = (.value v, k')) (hv : v < 0) :
    k.Untouched k' := by
  rw [dispatch_of_number hnumber] at hrun
  cases hhandle : handle S.audited threads p frame call k with
  | ok r k₁ =>
    rw [hhandle] at hrun
    cases hrun
    obtain ⟨v', hr, hv'⟩ := h.of_ok hhandle
    cases hr
    exact (Int64.not_le.2 hv hv').elim
  | error e k₁ =>
    rw [hhandle] at hrun
    cases hrun
    exact (h.of_error hhandle).report _

/-- In every state that can be reached, an open, write, seek, close or duplicate that gives a
negative value leaves everything as it was, and an open with flags that are not supported does not
get as far as the file system. That the numbers of the caller's descriptors are not negative as
signed words is all that is asked of the size of its table. -/
theorem failed_descriptor_call_unwinds {config : Config} {world : W} {turns : List Turn}
    {s : System (W × Ledger)}
    (execution : Execution S.audited (System.empty config (world, [])) turns s)
    (hp : p < s.kernel.records.size)
    (hcapacity : (s.kernel.process p).descriptors.capacity ≤ 2 ^ 63)
    (hhonest : S.HonestAt s.kernel.shared.world.1) (threads : Threads (W × Ledger))
    (frame : TrapFrame) :
    (∀ call ∈ onDescriptors, frame.number = call.number → ∀ v k,
      dispatch S.audited threads p frame s.kernel = (.value v, k) → v < 0 →
        s.kernel.Untouched k) ∧
      (frame.number = openFile.number → ∀ e,
        OpenFlags.parse (frame.arg 1).toUInt32 = .error e → ∀ S' : Services (W × Ledger),
          dispatch S' threads p frame s.kernel = dispatch S.audited threads p frame s.kernel) := by
  have hexact := execution.booked.exact_process hp
  refine ⟨fun call hcall hnumber v k hrun hv => ?_, fun hnumber e hflags S' => ?_⟩
  · exact (unwinds_handle hcall hexact hcapacity hhonest threads frame).dispatch hnumber hrun hv
  · exact dispatch_unsupported hnumber hflags _ _

/-- A process whose descriptors are all in use makes an open. The vnode that the file system has
handed out by then is released again. -/
theorem failed_descriptor_call_unwinds_fullTable :
    ∃ turns s, Execution Ram.services.audited (System.empty { openMax := 4 } (smallWorld, []))
        turns s ∧
      ∃ k, dispatch Ram.services.audited ⟨fun _ _ => pure (), []⟩ 0
          (.ofCall openFile.number [0x1000, 0]) s.kernel = (.value (-24), k) ∧
        s.kernel.Untouched k ∧ s.kernel.shared.world.2.count (.released 2) = 0 ∧
        k.shared.world.2.count (.released 2) = 1 := by
  have hstart : Execution Ram.services.audited (System.empty { openMax := 4 } (smallWorld, [])) []
    _ := .start
  have hspawned := hstart.step
    (@Takes.operate _ _ _ (.spawnInitial "bin/init" ["init"]) _ _ trivial rfl)
  have hopened := hspawned.step
    (Operation.takes (.descriptors 0 (.openPath "bin/prog" 0))
      (show 0 < _ by decide +kernel))
  have hstored := hopened.step
    (@Takes.store _ _ _ 0 ⟨0x1000, "bin/prog".toUTF8.data.push 0⟩)
  have hdispatch := (failed_descriptor_call_unwinds hstored (p := 0) (by decide +kernel)
    (by decide +kernel) (Ram.honestAt_of_noClaims (by decide +kernel)) ⟨fun _ _ => pure (), []⟩
    (.ofCall openFile.number [0x1000, 0])).1 openFile (by decide) (by decide) (-24) _
    (Prod.ext (by decide +kernel) rfl) (by decide)
  exact ⟨_, _, hstored, _, Prod.ext (by decide +kernel) rfl, hdispatch, by decide +kernel,
    by decide +kernel⟩

end Syscall

end UnixCore
