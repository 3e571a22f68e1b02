import UnixCore.Proofs.Accounting.Remnant
import UnixCore.Proofs.Fork.Stages
import UnixCore.Proofs.LifeCycle.Discarded
import UnixCore.Proofs.System.Execution

/-! Forks that fail. Whichever stage of a fork fails, the child that was made up to there is given
up with all that it held, and nothing is left of the fork but an id that the counter has passed. -/

namespace UnixCore

variable {W : Type} {S : Services W}

/-- A start that fails has let no thread run. It may have noted down something in the world of the
services, but handed nothing out. -/
def Threads.FailsIdle (threads : Threads (W × Ledger)) : Prop :=
  ∀ child frame k e k', threads.start child frame k = .error e k' →
    ∃ w, k' = k.modifyWorld fun s => (w, s.2)

namespace Kernel

/-- Why a fork fails with an error: there is no room or no id for a child, the address space of the
parent cannot be copied, or the thread of the child cannot be started. -/
inductive ForkFailure {W : Type} (S : Services W) (threads : Threads W) (p : ProcessId)
    (frame : TrapFrame) (k : Kernel W) : Errno → Prop
  | full : (k.table.create fun _ => k.records.size) = .error .tooManyProcesses →
    ForkFailure S threads p frame k .tooManyProcesses
  | uncopied {pid : Pid} {table : ProcessTable ProcessId} {space : AddressSpace} {e : Errno}
    {w : W} :
    (k.table.create fun _ => k.records.size) = .ok (pid, table) →
    (k.process p).space = some space → S.duplicateSpace space k.shared.world = .error e w →
    ForkFailure S threads p frame k e
  | unstarted {child : ProcessId} {e : Errno} {k' k'' : Kernel W} : beginFork S p k = .ok child k' →
    threads.start child frame.forForkedChild k' = .error e k'' → ForkFailure S threads p frame k e

/-- Nothing has changed but the counter of the ids, the log and what the services note down for
themselves. If there is one record more, no id leads to it and it holds nothing. -/
structure Traceless (k k' : Kernel (W × Ledger)) : Prop extends Forgotten k k' where
  shared : k.shared.Agrees k'.shared

variable {k k' k₁ : Kernel (W × Ledger)} {p : ProcessId} {pid : Pid} {parent : Option Pid}
  {threads : Threads (W × Ledger)} {frame : TrapFrame}

theorem forkFailure_iff {W : Type} {S : Services W} {k : Kernel W} {threads : Threads W}
    {e : Errno} (hp : p < k.records.size) :
    ForkFailure S threads p frame k e ↔ ∃ k', fork S threads p frame k = .error e k' := by
  have hforks := forks_fork (S := S) threads frame hp
  constructor
  · intro hfails
    cases hfails with
    | full hcreate => exact ⟨_, hforks.unique (.unbegun (.refused hcreate))⟩
    | uncopied hcreate hspace hcopy =>
      exact ⟨_, hforks.unique (.unbegun (.uncopied hcreate hspace hcopy))⟩
    | unstarted hbegun hstart =>
      have hbegins := begins_beginFork (S := S) hp
      rw [hbegun] at hbegins
      exact ⟨_, hforks.unique (.unstarted hbegins hstart)⟩
  · rintro ⟨k', hrun⟩
    rw [hrun] at hforks
    cases hforks with
    | unbegun hbegins =>
      cases hbegins with
      | refused hcreate =>
        obtain ⟨rfl, -⟩ := ProcessTable.create_eq_error_iff.1 hcreate
        exact .full hcreate
      | uncopied hcreate hspace hcopy => exact .uncopied hcreate hspace hcopy
    | unstarted hbegins hstart =>
      exact .unstarted ((begins_beginFork hp).unique hbegins) hstart

/-- A child without a thread that is given up leaves nothing, whatever it was given. -/
theorem Made.traceless_discard (hmade : Made pid parent 0 k k₁) (hconfig : k₁.config = k.config)
    (hshared : k.shared.Remnant k₁.shared) (hbooked₁ : k₁.Booked k.shared k.records.size 0)
    (hbooked : k.Booked k.shared k.records.size 0)
    (htable : ∀ i q, k.table.get? i = some q → q < k.records.size) :
    Traceless k (discard S.audited k.records.size k₁) := by
  have hforgotten := hmade.forgotten_discard (S := S) hconfig htable
  have hleft : k.shared.Remnant (discard S.audited k.records.size k₁).shared :=
    hshared.trans (Shared.Remnant.reap (k := k₁.unregister _))
  have hgiven : (discard S.audited k.records.size k₁).Booked k.shared k.records.size 0 :=
    (hbooked₁.unregister _).reap
  exact ⟨hforgotten, (Shared.Remnant.refl _).agrees hleft hbooked.balanced
    (hmade.holdings_discard ▸ hgiven.balanced)⟩

theorem Traceless.refl (k : Kernel (W × Ledger)) : Traceless k k := ⟨.refl k, .refl _⟩

theorem remnant_withChild {W : Type} {k : Kernel W} {table : ProcessTable ProcessId}
    {space : Option AddressSpace} {w : W} :
    k.shared.Remnant (k.withChild p pid table space w).shared := by
  have hworld : k.shared.Remnant { k.shared with world := w } := ⟨.refl _, .refl _⟩
  have hfiles : k.shared.Remnant ((({ k.shared with world := w } : Shared W).report
      (.processCreated pid (k.process p).name)).retainFiles (k.process p).descriptors.held) :=
    hworld.trans (.trans (.report _) (.retainFiles _))
  exact hfiles.trans (.retainDirectory? (k := { k with
    table
    records := k.records.push ((k.process p).offspring pid space)
    shared := _ }) (k.process p).directory)

theorem Begins.traceless {e : Errno} (h : Begins S.audited p k (.error e k'))
    (hbooked : k.Booked k.shared k.records.size 0)
    (htable : ∀ i q, k.table.get? i = some q → q < k.records.size) : Traceless k k' := by
  cases h with
  | refused => exact .refl k
  | @uncopied pid table space _ w hcreate hspace hcopy =>
    have hledger : w.2 = k.shared.world.2 := Services.ensures_duplicateSpace.of_error hcopy
    let k₁ := modifyWorld (fun _ => w) (k.created pid (k.process p).name table)
    have hbooked₁ : k₁.Booked k.shared k.records.size 0 :=
      ((hbooked.created pid _ table).weaken (Nat.le_succ _)).congr rfl
        fun _ hb => hb.keepLedger hledger
    exact ((made_uncopied hcreate).within (within_report _)).traceless_discard rfl
      ⟨.refl _, .refl _⟩ (hbooked₁.report _) hbooked htable

/-- When the thread cannot be started, the child has been made in full. -/
theorem Begins.traceless_unstarted {child : ProcessId} {e : Errno} {w : W}
    (h : Begins S.audited p k (.ok child k₁)) (hp : p < k.records.size)
    (hbooked : k.Booked k.shared k.records.size 0)
    (htable : ∀ i q, k.table.get? i = some q → q < k.records.size) :
    Traceless k (discard S.audited child (report (.forkFailed (k.process p).pid e)
      (modifyProcess child Process.detachThread (k₁.modifyWorld fun s => (w, s.2))))) := by
  have hbegun := (begins_beginFork hp).unique h
  have hbooked₁ : k₁.Booked k.shared k.records.size 0 := (ensures_beginFork hbooked hp).of_ok hbegun
  cases h with
  | @begun pid table copy w₁ hcreate hcopies =>
    let k₂ := (k.withChild p pid table copy w₁).modifyWorld fun s => (w, s.2)
    have hmade : Made pid (some (k.process p).pid) 1 k k₂ :=
      (made_withChild hcreate).within (.of_records rfl rfl)
    have hbooked₂ : k₂.Booked k.shared k.records.size 0 :=
      hbooked₁.congr rfl fun _ hb => hb.keepLedger rfl
    have hshared : k.shared.Remnant (k.withChild p pid table copy w₁).shared := remnant_withChild
    have hlost : (modifyProcess k.records.size Process.detachThread k₂).Booked k.shared
        k.records.size 0 := hbooked₂.modifyProcess rfl rfl
    exact (hmade.detachThread.within (within_report _)).traceless_discard config_withChild
      ⟨hshared.files, hshared.directories⟩ (hlost.report _) hbooked htable

end Kernel

open Kernel

/-- In every state that can be reached, a fork fails with an error exactly when there is no room or
no id for a child, when the address space of the parent cannot be copied or when the thread of the
child cannot be started, with the error of this. Nothing is left of a fork that fails but a step of
the counter of the ids. -/
theorem failed_fork_leaves_no_trace {config : Config} {world : W} {turns : List Turn}
    {s : System (W × Ledger)} {p : ProcessId} {threads : Threads (W × Ledger)}
    (execution : Execution S.audited (System.empty config (world, [])) turns s)
    (hp : p < s.kernel.records.size) (hthreads : threads.FailsIdle) (frame : TrapFrame)
    (e : Errno) :
    (ForkFailure S.audited threads p frame s.kernel e ↔
      ∃ k, fork S.audited threads p frame s.kernel = .error e k) ∧
    ∀ k, fork S.audited threads p frame s.kernel = .error e k → Traceless s.kernel k := by
  refine ⟨forkFailure_iff hp, fun k hrun => ?_⟩
  obtain ⟨labels, horderly⟩ := execution.orderly
  have htable : ∀ i q, s.kernel.table.get? i = some q → q < s.kernel.records.size :=
    fun i q hq => (horderly.sound.table i q hq).1
  have hforks := forks_fork (S := S.audited) threads frame hp
  rw [hrun] at hforks
  cases hforks with
  | unbegun hbegins => exact hbegins.traceless execution.booked htable
  | unstarted hbegins hstart =>
    obtain ⟨w, rfl⟩ := hthreads _ _ _ _ _ hstart
    exact hbegins.traceless_unstarted hp execution.booked htable

theorem failsIdle_startOrReject : Threads.FailsIdle (W := Ram) ⟨Ram.startOrReject, []⟩ := by
  intro child frame k e k' hrun
  have hensures : (Ram.startOrReject child frame).Ensures k (fun _ _ => True)
      fun _ k' => ∃ w, k' = k.modifyWorld fun s => (w, s.2) := by
    simp only [Ram.startOrReject, Action.ensures_bind, Action.ensures_get]
    cases k.shared.world.1.threadError with
    | some e =>
      simp only [Action.ensures_bind, Action.ensures_modify, Action.ensures_throw]
      exact ⟨{ k.shared.world.1 with rejected := k.shared.world.1.rejected.push child }, rfl⟩
    | none =>
      simp only [Action.ensures_bind, Action.ensures_modify, Action.ensures_get]
      split <;> exact trivial
  exact hensures.of_error hrun

/-- A small world in which no thread can be started. -/
def threadlessWorld : Ram := { smallWorld with threadError := some .outOfMemory }

/-- A process with three files and a current directory forks, and no thread can be started. -/
theorem failed_fork_leaves_no_trace_unstarted :
    ∃ turns s k, Execution Ram.services.audited
        (System.empty { openMax := 4 } (threadlessWorld, [])) turns s ∧
      (s.kernel.process 0).directory = some 0 ∧
      fork Ram.services.audited ⟨Ram.startOrReject, []⟩ 0 {} s.kernel = .error .outOfMemory k ∧
      k.records.size = 2 ∧ Traceless s.kernel k := by
  have hstart : Execution Ram.services.audited
    (System.empty { openMax := 4 } (threadlessWorld, [])) [] _ := .start
  have hspawned := hstart.step (Operation.takes (.spawnInitial "bin/init" ["init"]) trivial)
  have hentered := hspawned.step (Operation.takes (.enterDirectory 0 "bin/prog" .rdonly)
    (show 0 < _ by decide +kernel))
  have htraceless := (failed_fork_leaves_no_trace hentered (show 0 < _ by decide +kernel)
    failsIdle_startOrReject {} .outOfMemory).2
  refine ⟨_, _, _, hentered, by decide +kernel, Action.eq_error_of_result (by decide +kernel),
    by decide +kernel, ?_⟩
  exact htraceless _ (Action.eq_error_of_result (by decide +kernel))

end UnixCore
