import UnixCore.Proofs.Kernel.Within

/-! The courses of a fork. It is refused when there is no id for the child, given up when the
address space of the parent cannot be copied or the thread of the child cannot be started, and
otherwise leaves the child running. Each course is given with the state that it leaves. -/

namespace UnixCore

/-- The child of a process, before its thread runs. -/
def Process.offspring (parent : Process) (pid : Pid) (space : Option AddressSpace) : Process where
  pid
  name := parent.name
  parent := some parent.pid
  space
  directory := parent.directory
  threads := 1
  descriptors := parent.descriptors

namespace Kernel

variable {W : Type} {S : Services W} {threads : Threads W} {k : Kernel W} {p : ProcessId}
  {frame : TrapFrame}

/-- The kernel with a child of `p`, registered under `pid`. The copy of the address space of `p` has
left the world as `w`. -/
def withChild (k : Kernel W) (p : ProcessId) (pid : Pid) (table : ProcessTable ProcessId)
    (space : Option AddressSpace) (w : W) : Kernel W :=
  retainDirectory (k.process p).directory
    { k with
      table
      records := k.records.push ((k.process p).offspring pid space)
      shared :=
        (({ k.shared with world := w } : Shared W).report
          (.processCreated pid (k.process p).name)).retainFiles (k.process p).descriptors.held }

section WithChild

variable {pid : Pid} {table : ProcessTable ProcessId} {space : Option AddressSpace} {w : W}

theorem records_withChild : (k.withChild p pid table space w).records =
    k.records.push ((k.process p).offspring pid space) :=
  records_retainDirectory _

@[simp] theorem table_withChild : (k.withChild p pid table space w).table = table := by
  unfold withChild
  cases (k.process p).directory <;> rfl

@[simp] theorem config_withChild : (k.withChild p pid table space w).config = k.config := by
  unfold withChild
  cases (k.process p).directory <;> rfl

@[simp] theorem world_withChild : (k.withChild p pid table space w).shared.world = w := by
  unfold withChild
  cases (k.process p).directory <;> rfl

@[simp] theorem process_withChild_self :
    (k.withChild p pid table space w).process k.records.size =
      (k.process p).offspring pid space := by
  simp [process, records_withChild]

theorem process_withChild_of_lt {q : ProcessId} (hq : q < k.records.size) :
    (k.withChild p pid table space w).process q = k.process q := by
  simp [process, records_withChild, Array.getElem?_push, Nat.ne_of_lt hq]

theorem made_withChild (h : (k.table.create fun _ => k.records.size) = .ok (pid, table)) :
    Made pid (some (k.process p).pid) 1 k (k.withChild p pid table space w) := by
  refine ⟨by rw [table_withChild, h], ?_, fun q hq => process_withChild_of_lt hq, ?_, ?_⟩
  · rw [records_withChild, Array.size_push]
  · rw [process_withChild_self]
    rfl
  · rw [process_withChild_self]
    rfl

end WithChild

/-- The services copy the address space of a process, if it has one. -/
inductive Copies (S : Services W) (w : W) : Option AddressSpace → Option AddressSpace → W → Prop
  | nothing : Copies S w none none w
  | copied {space copy : AddressSpace} {w' : W} : S.duplicateSpace space w = .ok copy w' →
    Copies S w (some space) (some copy) w'

theorem Copies.unique {w w' w'' : W} {space copy copy' : Option AddressSpace}
    (h : Copies S w space copy w') (h' : Copies S w space copy' w'') : copy = copy' ∧ w' = w'' := by
  cases h with
  | nothing =>
    cases h'
    exact ⟨rfl, rfl⟩
  | copied hcopy =>
    cases h' with
    | copied hcopy' =>
      cases hcopy.symm.trans hcopy'
      exact ⟨rfl, rfl⟩

theorem Copies.ne_error {w w' w'' : W} {space copy : Option AddressSpace} {a : AddressSpace}
    {e : Errno} (h : Copies S w space copy w') (hspace : space = some a) :
    S.duplicateSpace a w ≠ .error e w'' := by
  intro hcopy
  cases h with
  | nothing => cases hspace
  | copied hcopied =>
    cases hspace
    cases hcopied.symm.trans hcopy

theorem ensures_copySpace_eq {space : Option AddressSpace} :
    (copySpace S space).Ensures k
      (fun copy k' => ∃ w, Copies S k.shared.world space copy w ∧ k' = modifyWorld (fun _ => w) k)
      fun e k' => ∃ a w, space = some a ∧ S.duplicateSpace a k.shared.world = .error e w ∧
        k' = modifyWorld (fun _ => w) k := by
  cases space with
  | none => exact ⟨k.shared.world, .nothing, rfl⟩
  | some space =>
    rw [copySpace, Action.ensures_map, ensures_onWorld, Action.ensures_iff]
    exact ⟨fun copy w hcopy => ⟨w, .copied hcopy, rfl⟩,
      fun e w hcopy => ⟨space, w, rfl, hcopy, rfl⟩⟩

theorem attachThread_copied (pid : Pid) (table : ProcessTable ProcessId)
    (space : Option AddressSpace) (w : W) :
    modifyProcess k.records.size Process.attachThread
      (retainDirectory (k.process p).directory
        { modifyProcess k.records.size ({ · with
            parent := some (k.process p).pid, space, directory := (k.process p).directory,
            descriptors := (k.process p).descriptors })
            (modifyWorld (fun _ => w) (k.created pid (k.process p).name table)) with
          shared := (modifyWorld (fun _ => w)
            (k.created pid (k.process p).name table)).shared.retainFiles
              (k.process p).descriptors.held }) =
      k.withChild p pid table space w := by
  unfold withChild Process.offspring
  cases (k.process p).directory <;>
    simp only [modifyProcess, retainDirectory, created, report, modifyWorld, modify_push] <;> rfl

theorem made_uncopied {pid : Pid} {table : ProcessTable ProcessId} {w : W}
    (h : (k.table.create fun _ => k.records.size) = .ok (pid, table)) :
    Made pid none 0 k (modifyWorld (fun _ => w) (k.created pid (k.process p).name table)) :=
  (made_created h).within (.of_records rfl rfl)

/-- The ways in which the child of a fork is made or not. -/
inductive Begins (S : Services W) (p : ProcessId) (k : Kernel W) :
    EStateM.Result Errno (Kernel W) ProcessId → Prop
  | refused {e : Errno} : (k.table.create fun _ => k.records.size) = .error e →
    Begins S p k (.error e k)
  | uncopied {pid : Pid} {table : ProcessTable ProcessId} {space : AddressSpace} {e : Errno}
    {w : W} :
    (k.table.create fun _ => k.records.size) = .ok (pid, table) →
    (k.process p).space = some space → S.duplicateSpace space k.shared.world = .error e w →
    Begins S p k (.error e (discard S k.records.size (report (.forkFailed (k.process p).pid e)
      (modifyWorld (fun _ => w) (k.created pid (k.process p).name table)))))
  | begun {pid : Pid} {table : ProcessTable ProcessId} {copy : Option AddressSpace} {w : W} :
    (k.table.create fun _ => k.records.size) = .ok (pid, table) →
    Copies S k.shared.world (k.process p).space copy w →
    Begins S p k (.ok k.records.size (k.withChild p pid table copy w))

theorem begins_beginFork (hp : p < k.records.size) : Begins S p k (beginFork S p k) := by
  apply Action.Ensures.run
  rw [beginFork, Action.ensures_bind, Action.ensures_get, Action.ensures_bind, ensures_create]
  refine ⟨fun pid table hcreate => ?_, fun e hcreate => .refused hcreate⟩
  rw [Action.ensures_bind, Action.ensures_outcome, copyIntoChild, Action.ensures_bind,
    Action.ensures_get, Action.ensures_bind, process_created_of_lt hp]
  refine ensures_copySpace_eq.mono ?_ ?_
  · rintro copy _ ⟨w, hcopies, rfl⟩
    simp only [Action.ensures_modify, Action.ensures_bind, Action.ensures_pure]
    rw [attachThread_copied]
    exact .begun hcreate hcopies
  · rintro e _ ⟨space, w, hspace, hcopy, rfl⟩
    simp only [rejectChild, Action.ensures_bind, Action.ensures_modify, Action.ensures_throw]
    exact .uncopied hcreate hspace hcopy

/-- What the table and the services do decides how it goes. -/
theorem Begins.unique {r r' : EStateM.Result Errno (Kernel W) ProcessId} (h : Begins S p k r)
    (h' : Begins S p k r') : r = r' := by
  cases h with
  | refused hcreate =>
    cases h' with
    | refused hcreate' =>
      cases hcreate.symm.trans hcreate'
      rfl
    | uncopied hcreate' | begun hcreate' => cases hcreate.symm.trans hcreate'
  | uncopied hcreate hspace hcopy =>
    cases h' with
    | refused hcreate' => cases hcreate.symm.trans hcreate'
    | uncopied hcreate' hspace' hcopy' =>
      cases hcreate.symm.trans hcreate'
      cases hspace.symm.trans hspace'
      cases hcopy.symm.trans hcopy'
      rfl
    | begun _ hcopies => exact (hcopies.ne_error hspace hcopy).elim
  | begun hcreate hcopies =>
    cases h' with
    | refused hcreate' => cases hcreate.symm.trans hcreate'
    | uncopied _ hspace hcopy => exact (hcopies.ne_error hspace hcopy).elim
    | begun hcreate' hcopies' =>
      cases hcreate.symm.trans hcreate'
      obtain ⟨rfl, rfl⟩ := hcopies.unique hcopies'
      rfl

theorem ensures_beginFork_made (hp : p < k.records.size) :
    (beginFork S p).Ensures k
      (fun child k' => child = k.records.size ∧ ∃ pid, Made pid (some (k.process p).pid) 1 k k')
      fun _ k' => k' = k ∨ GivenUp S k k' := by
  have hbegins := begins_beginFork (S := S) hp
  refine Action.ensures_iff.2 ⟨fun child k' hrun => ?_, fun e k' hrun => ?_⟩
  · rw [hrun] at hbegins
    cases hbegins with
    | begun hcreate => exact ⟨rfl, _, made_withChild hcreate⟩
  · rw [hrun] at hbegins
    cases hbegins with
    | refused => exact .inl rfl
    | uncopied hcreate =>
      exact .inr ⟨_, _, (made_uncopied hcreate).within (within_report _), rfl⟩

/-- The courses of a fork, each with how it ends. -/
inductive Forks (S : Services W) (threads : Threads W) (p : ProcessId) (frame : TrapFrame)
    (k : Kernel W) : EStateM.Result Errno (Kernel W) Pid → Prop
  | unbegun {e : Errno} {k' : Kernel W} : Begins S p k (.error e k') →
    Forks S threads p frame k (.error e k')
  | unstarted {child : ProcessId} {e : Errno} {k₁ k₂ : Kernel W} : Begins S p k (.ok child k₁) →
    threads.start child frame.forForkedChild k₁ = .error e k₂ →
    Forks S threads p frame k (.error e (discard S child
      (report (.forkFailed (k.process p).pid e) (modifyProcess child Process.detachThread k₂))))
  | started {child : ProcessId} {k₁ k₂ : Kernel W} : Begins S p k (.ok child k₁) →
    threads.start child frame.forForkedChild k₁ = .ok () k₂ →
    Forks S threads p frame k (.ok (k₂.process child).pid
      (report (.processForked (k.process p).pid (k₂.process child).pid) k₂))

theorem forks_fork (threads : Threads W) (frame : TrapFrame) (hp : p < k.records.size) :
    Forks S threads p frame k (fork S threads p frame k) := by
  have hbegins := begins_beginFork (S := S) hp
  rw [fork, Action.get_bind]
  cases hbegun : beginFork S p k with
  | error e k₁ =>
    rw [hbegun] at hbegins
    rw [Action.bind_of_error hbegun]
    exact .unbegun hbegins
  | ok child k₁ =>
    rw [hbegun] at hbegins
    rw [Action.bind_of_ok hbegun, Action.bind_of_ok Action.outcome_eq_ok]
    cases hstart : threads.start child frame.forForkedChild k₁ with
    | ok a k₂ =>
      rw [Action.result_of_ok hstart]
      exact .started hbegins hstart
    | error e k₂ =>
      rw [Action.result_of_error hstart]
      exact .unstarted hbegins hstart

theorem Forks.unique {r r' : EStateM.Result Errno (Kernel W) Pid}
    (h : Forks S threads p frame k r) (h' : Forks S threads p frame k r') : r = r' := by
  cases h with
  | unbegun hbegins =>
    cases h' with
    | unbegun hbegins' =>
      cases hbegins.unique hbegins'
      rfl
    | unstarted hbegins' | started hbegins' => cases hbegins.unique hbegins'
  | unstarted hbegins hstart =>
    cases h' with
    | unbegun hbegins' => cases hbegins.unique hbegins'
    | unstarted hbegins' hstart' =>
      cases hbegins.unique hbegins'
      cases hstart.symm.trans hstart'
      rfl
    | started hbegins' hstart' =>
      cases hbegins.unique hbegins'
      cases hstart.symm.trans hstart'
  | started hbegins hstart =>
    cases h' with
    | unbegun hbegins' => cases hbegins.unique hbegins'
    | unstarted hbegins' hstart' =>
      cases hbegins.unique hbegins'
      cases hstart.symm.trans hstart'
    | started hbegins' hstart' =>
      cases hbegins.unique hbegins'
      cases hstart.symm.trans hstart'
      rfl

end Kernel

end UnixCore
