import UnixCore.Proofs.Fork.Traceless
import UnixCore.Proofs.Syscall.Results

/-! Forks that succeed. The child is a replica of its parent: it has the same name, files and
current directory and a copy of the memory, under an id of its own. Its thread goes on from the very
frame in which the call leaves the parent, but for the return value. -/

namespace UnixCore

open Kernel

variable {W : Type} {S : Services W}

/-- A copy of an address space has the bytes of the original at the same addresses. -/
def Services.CopiesBytes (S : Services W) : Prop :=
  ∀ space w copy w', S.duplicateSpace space w = .ok copy w' → copy.memory = space.memory

/-- A thread service that only writes down what it is to start. -/
def Threads.recorder (note : String → ProcessId → TrapFrame → W → W) : Threads (W × Ledger) where
  start child frame :=
    modify fun k => k.modifyWorld fun s => (note (k.process child).name child frame s.1, s.2)
  yields := []

/-- The process `child` is new, registered under an id that was free, and has what `p` has: the same
slots for the same open files, the same directory, and an address space of its own with the same
bytes. Nothing else has changed. -/
structure Kernel.Replica (k : Kernel (W × Ledger)) (p : ProcessId) (pid : Pid) (child : ProcessId)
    (k' : Kernel (W × Ledger)) : Prop where
  new : child = k.records.size
  size : k'.records.size = k.records.size + 1
  others : ∀ q < k.records.size, k'.process q = k.process q
  free : k.table.get? pid = none
  registered : ∀ i, k'.table.get? i = if i = pid then some child else k.table.get? i
  pid : (k'.process child).pid = pid
  name : (k'.process child).name = (k.process p).name
  parent : (k'.process child).parent = some (k.process p).pid
  state : (k'.process child).state = .running
  threads : (k'.process child).threads = 1
  directory : (k'.process child).directory = (k.process p).directory
  descriptors : (k'.process child).descriptors = (k.process p).descriptors
  memory : (k'.process child).space.map (·.memory) = (k.process p).space.map (·.memory)
  spaces : k'.ledger.liveSpaces =
    k.ledger.liveSpaces + if (k.process p).space.isSome then 1 else 0
  file : ∀ id, k.Holds p id →
    ∃ file, k.shared.files.get? id = some file ∧ k'.shared.files.get? id = some file
  vnode : ∀ id, (k.process p).directory = some id →
    ∃ vnode, k.shared.directories.get? id = some vnode ∧
      k'.shared.directories.get? id = some vnode

/-! ### The copy of the address space -/

theorem Services.CopiesBytes.audited (hS : S.CopiesBytes) : S.audited.CopiesBytes := by
  intro space w copy w' hcopy
  have hbytes : (S.audited.duplicateSpace space).Ensures w
      (fun copy _ => copy.memory = space.memory) fun _ _ => True := by
    show (Services.noting _ ((S.beside Ledger).duplicateSpace space)).Ensures w _ _
    rw [Services.noting, Action.ensures_bind]
    rw [Services.beside, Action.ensures_onPart]
    refine Action.ensures_iff.2 ⟨fun copy w' h => ?_, fun _ _ _ => trivial⟩
    exact hS space w.1 copy w' h
  exact hbytes.of_ok hcopy

namespace Kernel

theorem Copies.memory_eq {w w' : W} {space copy : Option AddressSpace} (hS : S.CopiesBytes)
    (h : Copies S w space copy w') : copy.map (·.memory) = space.map (·.memory) := by
  cases h with
  | nothing => rfl
  | copied hcopy => exact congrArg some (hS _ _ _ _ hcopy)

theorem Copies.liveSpaces_eq {w w' : W × Ledger} {space copy : Option AddressSpace}
    (h : Copies S.audited w space copy w') :
    w'.2.liveSpaces = w.2.liveSpaces + if space.isSome then 1 else 0 := by
  cases h with
  | nothing => simp
  | copied hcopy =>
    rw [Services.ensures_duplicateSpace.of_ok hcopy]
    exact Ledger.liveSpaces_made

/-! ### What the child shares with its parent -/

theorem get?_retainFiles (ids : List FileId) (sh : Shared W) (id : FileId) :
    (sh.retainFiles ids).files.get? id = sh.files.get? id := by
  unfold Shared.retainFiles
  generalize sh.files = files
  induction ids generalizing files with
  | nil => rfl
  | cons i ids ih => exact (ih _).trans (Pool.get?_retain i id)

variable {k : Kernel W} {p : ProcessId} {pid : Pid} {table : ProcessTable ProcessId}
  {space : Option AddressSpace} {w : W}

theorem get?_files_withChild (id : FileId) :
    (k.withChild p pid table space w).shared.files.get? id = k.shared.files.get? id := by
  unfold withChild
  cases (k.process p).directory <;> exact get?_retainFiles _ _ id

theorem get?_directories_withChild (id : Nat) :
    (k.withChild p pid table space w).shared.directories.get? id =
      k.shared.directories.get? id := by
  unfold withChild
  cases (k.process p).directory with
  | none => rfl
  | some i => exact Pool.get?_retain i id

end Kernel

section Success

variable {k : Kernel (W × Ledger)} {p : ProcessId} {note : String → ProcessId → TrapFrame → W → W}
  {frame : TrapFrame}

theorem replica_withChild {pid : Pid} {table : ProcessTable ProcessId} {copy : Option AddressSpace}
    {w : W × Ledger} {f : W × Ledger → W × Ledger} (e : Event) (hp : p < k.records.size)
    (hS : S.CopiesBytes) (hbooked : k.Booked k.shared k.records.size 0)
    (hcreate : (k.table.create fun _ => k.records.size) = .ok (pid, table))
    (hcopies : Copies S.audited k.shared.world (k.process p).space copy w) (hf : (f w).2 = w.2) :
    k.Replica p pid k.records.size
      (report e (modifyWorld f (k.withChild p pid table copy w))) := by
  have hmade : Made pid (some (k.process p).pid) 1 k (k.withChild p pid table copy w) :=
    made_withChild hcreate
  have hself : (report e (modifyWorld f (k.withChild p pid table copy w))).process
      k.records.size = (k.process p).offspring pid copy := process_withChild_self
  have hfield {α : Type} (field : Process → α) :
      field ((report e (modifyWorld f (k.withChild p pid table copy w))).process k.records.size) =
        field ((k.process p).offspring pid copy) := congrArg field hself
  refine ⟨rfl, hmade.size, hmade.others, hmade.born.free, hmade.born.table, hfield (·.pid),
    hfield (·.name), hfield (·.parent), hfield (·.state), hfield (·.threads), hfield (·.directory),
    hfield (·.descriptors), ?_, ?_, fun id hid => ?_, fun id hid => ?_⟩
  · rw [hself]
    exact hcopies.memory_eq hS.audited
  · show (f (k.withChild p pid table copy w).shared.world).2.liveSpaces = _
    rw [world_withChild, hf, hcopies.liveSpaces_eq]
    rfl
  · obtain ⟨file, hfile⟩ := hbooked.exists_file hp hid
    exact ⟨file, hfile, (get?_files_withChild id).trans hfile⟩
  · obtain ⟨vnode, hvnode⟩ := hbooked.exists_directory hp hid
    exact ⟨vnode, hvnode, (get?_directories_withChild id).trans hvnode⟩

theorem ensures_fork_recorder (hp : p < k.records.size) (hS : S.CopiesBytes)
    (hbooked : k.Booked k.shared k.records.size 0) :
    (fork S.audited (.recorder note) p frame).Ensures k
      (fun pid k' => k.Replica p pid k.records.size k' ∧
        ∃ copy w, Copies S.audited k.shared.world (k.process p).space copy w ∧
          k'.shared.world.1 =
            note (k.process p).name k.records.size frame.forForkedChild w.1)
      fun _ _ => True := by
  have hforks := forks_fork (S := S.audited) (.recorder note) frame hp
  refine Action.ensures_iff.2 ⟨fun pid' k' hrun => ?_, fun _ _ _ => trivial⟩
  rw [hrun] at hforks
  cases hforks with
  | @started _ _ k₂ hbegins hstart =>
    cases hbegins with
    | @begun pid table copy w hcreate hcopies =>
      have hrecorded : k₂ = modifyWorld
          (fun s => (note (k.process p).name k.records.size frame.forForkedChild s.1, s.2))
          (k.withChild p pid table copy w) := by
        have hname : ((k.withChild p pid table copy w).process k.records.size).name =
            (k.process p).name := by
          rw [process_withChild_self]
          rfl
        cases hstart
        dsimp only
        rw [hname]
      have hpid : (k₂.process k.records.size).pid = pid := by
        rw [hrecorded]
        exact congrArg Process.pid process_withChild_self
      rw [hpid, hrecorded]
      refine ⟨replica_withChild _ hp hS hbooked hcreate hcopies rfl, copy, w, hcopies, ?_⟩
      show note _ _ _ (k.withChild p pid table copy w).shared.world.1 = _
      rw [world_withChild]

/-! ### The two frames -/

open Syscall

theorem toInt_pidValue (pid : Pid) : (pidValue pid).toInt = pid.toNat :=
  Int64.toInt_ofNat_of_lt (Nat.lt_trans pid.toNat_lt (by decide))

theorem trap_of_fork {k' : Kernel (W × Ledger)} {threads : Threads (W × Ledger)} {pid : Pid}
    (hnumber : frame.number = Syscall.fork.number)
    (hrun : Kernel.fork S.audited threads p frame k = .ok pid k') :
    trap S.audited threads p frame k =
      (.resumed (frame.setReturn (pidValue pid)).advancePc, k') := by
  have hhandle : handle S.audited threads p frame .fork k = .ok (.value (pidValue pid)) k' :=
    Action.bind_of_ok hrun
  rw [trap, dispatch_of_number hnumber, hhandle]

theorem trap_of_failed_fork {k' : Kernel (W × Ledger)} {threads : Threads (W × Ledger)} {e : Errno}
    (hnumber : frame.number = Syscall.fork.number)
    (hrun : Kernel.fork S.audited threads p frame k = .error e k') :
    trap S.audited threads p frame k = (.resumed (frame.setReturn e.returnValue).advancePc,
      k'.report (.callFailed (k'.process p).pid frame.number e)) := by
  have hhandle : handle S.audited threads p frame .fork k = .error e k' :=
    Action.bind_of_error hrun
  rw [trap, dispatch_of_number hnumber, hhandle]

/-- In every state that can be reached a fork call resumes its caller. If the value it gives is no
error, the child is an exact replica of the caller under an id that was free. The frame in which the
thread of the child is to start is that of the caller behind the call, program counter included, but
for the return value: 0 for the child, and the id of the child for the caller. -/
theorem forked_child_is_replica {config : Config} {world : W} {turns : List Turn}
    {s : System (W × Ledger)}
    (execution : Execution S.audited (System.empty config (world, [])) turns s)
    (hp : p < s.kernel.records.size) (hS : S.CopiesBytes)
    (note : String → ProcessId → TrapFrame → W → W) (frame : TrapFrame)
    (hnumber : frame.number = Syscall.fork.number) :
    ∃ frame' k, trap S.audited (.recorder note) p frame s.kernel = (.resumed frame', k) ∧
      (0 ≤ frame'.retval → ∃ pid child copy w, s.kernel.Replica p pid child k ∧
        frame'.retval.toInt = pid.toNat ∧
        frame' = { frame with retval := frame'.retval, pc := frame.pc + trapLength } ∧
        Copies S.audited s.kernel.shared.world (s.kernel.process p).space copy w ∧
        k.shared.world.1 =
          note (s.kernel.process p).name child { frame' with retval := 0 } w.1) := by
  cases hrun : Kernel.fork S.audited (.recorder note) p frame s.kernel with
  | ok pid k =>
    obtain ⟨hreplica, copy, w, hcopies, hnoted⟩ :=
      (ensures_fork_recorder hp hS execution.booked).of_ok hrun
    exact ⟨_, k, trap_of_fork hnumber hrun, fun _ =>
      ⟨pid, _, copy, w, hreplica, toInt_pidValue pid, rfl, hcopies, hnoted⟩⟩
  | error e k =>
    refine ⟨_, _, trap_of_failed_fork hnumber hrun, fun hvalue => ?_⟩
    rw [Int64.le_iff_toInt_le] at hvalue
    have hnegative : (frame.setReturn e.returnValue).advancePc.retval.toInt = -e.code.toInt :=
      e.toInt_returnValue
    have hpos := e.code_pos
    have hzero : (0 : Int64).toInt = 0 := rfl
    omega

end Success

theorem Ram.copiesBytes : Ram.services.CopiesBytes := by
  intro space w copy w' hcopy
  have hsame : (Ram.duplicateSpace space).Ensures w (fun copy _ => copy = space)
      fun _ _ => True := by
    simp only [Ram.duplicateSpace, Action.ensures_bind, Action.ensures_get]
    split <;> simp
  rw [hsame.of_ok hcopy]

/-- The first process forks for the second time, from the last address there is. -/
theorem forked_child_is_replica_second :
    let frame : TrapFrame := { number := Syscall.fork.number, pc := 0xfffffffffffffffc, sp := 7 }
    let note := fun name child (frame : TrapFrame) (r : Ram) =>
      ({ r with started := r.started.push (name, .ofNat child, frame) } : Ram)
    ∃ k, Syscall.trap Ram.services.audited (.recorder note) 0 frame Syscall.forkedChild =
        (.resumed { frame with retval := 4, pc := 0 }, k) ∧
      Syscall.forkedChild.Replica 0 4 2 k ∧
      k.shared.world.1.started = #[("bin/init", 2, { frame with retval := 0, pc := 0 })] := by
  intro frame note
  obtain ⟨turns, execution⟩ := Syscall.exists_execution_forkedChild
  obtain ⟨frame', k, htrap, hreplica⟩ := forked_child_is_replica execution
    (show 0 < _ by decide +kernel) Ram.copiesBytes note frame rfl
  have hrun : Syscall.trap Ram.services.audited (.recorder note) 0 frame Syscall.forkedChild =
      (.resumed { frame with retval := 4, pc := 0 }, _) := Prod.ext (by decide +kernel) rfl
  obtain ⟨hframe, rfl⟩ := Prod.mk.inj (htrap.symm.trans hrun)
  cases hframe
  obtain ⟨pid, child, copy, w, hreplica, hpid, -⟩ := hreplica (by decide)
  obtain rfl : child = 2 := hreplica.new.trans (by decide +kernel)
  obtain rfl : pid = 4 := UInt32.toNat_inj.1 (Int.ofNat_inj.1 hpid.symm)
  exact ⟨_, hrun, hreplica, by decide +kernel⟩

end UnixCore
