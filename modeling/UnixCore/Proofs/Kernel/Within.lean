import UnixCore.Proofs.Kernel.Records
import UnixCore.Proofs.System.Basic

/-! What the operations of the kernel do to the process records and the registry. Most work within
the record of one process, and leave in it alone what exit and wait know of. Processes are made and
given up around such operations. -/

namespace UnixCore

/-- What exit and wait know of a process record. -/
structure Life where
  pid : Pid
  parent : Option Pid
  state : ProcessState
  signal : Semaphore

def Process.life (p : Process) : Life := ⟨p.pid, p.parent, p.state, p.exitSignal⟩

namespace Kernel

variable {W α β : Type} {S : Services W} {k k' k'' : Kernel W} {p q : ProcessId} {pid : Pid}
  {parent : Option Pid} {n : Nat}

/-- Nothing changes in the registry and in the other records, and in the record of `p` neither its
life nor the number of its threads. -/
structure Within (p : ProcessId) (k k' : Kernel W) : Prop where
  table : k'.table = k.table
  size : k'.records.size = k.records.size
  others : ∀ q ≠ p, k'.process q = k.process q
  life : (k'.process p).life = (k.process p).life
  threads : (k'.process p).threads = (k.process p).threads

namespace Within

theorem of_records (htable : k'.table = k.table) (hrecords : k'.records = k.records) :
    Within p k k' := by
  have hprocess (q : ProcessId) : k'.process q = k.process q := by
    rw [process, hrecords, process]
  exact ⟨htable, by rw [hrecords], fun q _ => hprocess q, by rw [hprocess], by rw [hprocess]⟩

theorem refl (k : Kernel W) : Within p k k := of_records rfl rfl

theorem trans (h : Within p k k') (h' : Within p k' k'') : Within p k k'' :=
  ⟨h'.table.trans h.table, h'.size.trans h.size,
    fun q hq => (h'.others q hq).trans (h.others q hq), h'.life.trans h.life,
    h'.threads.trans h.threads⟩

theorem of_modifyProcess {f : Process → Process} (hlife : ∀ r, (f r).life = r.life)
    (hthreads : ∀ r, (f r).threads = r.threads) : Within p k (modifyProcess p f k) := by
  by_cases hp : p < k.records.size
  · have hself := process_modifyProcess_self f hp
    exact ⟨rfl, size_modifyProcess f, fun q hq => process_modifyProcess_ne f hq,
      by rw [hself, hlife], by rw [hself, hthreads]⟩
  · exact of_records rfl (records_modify_of_le (Nat.le_of_not_lt hp))

end Within

theorem within_report (e : Event) : Within p k (k.report e) := .of_records rfl rfl

theorem within_dropDirectory (directory : Option Nat) :
    Within p k (dropDirectory S directory k) := by
  cases directory <;> exact .of_records rfl rfl

theorem within_retainDirectory (directory : Option Nat) :
    Within p k (retainDirectory directory k) := by
  cases directory <;> exact .of_records rfl rfl

theorem within_destroySpace (space : Option AddressSpace) :
    Within p k (destroySpace S space k) := by
  cases space <;> exact .of_records rfl rfl

theorem within_setSpace (space : Option AddressSpace) : Within p k (setSpace S p space k) := by
  refine Within.trans ?_ (within_destroySpace _)
  exact .of_modifyProcess (fun _ => rfl) fun _ => rfl

theorem within_setDirectory (vnode : Option Vnode) : Within p k (setDirectory S p vnode k) := by
  unfold setDirectory
  cases vnode with
  | none =>
    refine Within.trans ?_ (within_dropDirectory _)
    exact .of_modifyProcess (fun _ => rfl) fun _ => rfl
  | some vnode =>
    refine Within.trans (Within.trans ?_ (.of_modifyProcess ?_ ?_)) (within_dropDirectory _)
    · exact .of_records rfl rfl
    · exact fun _ => rfl
    · exact fun _ => rfl

theorem within_shareDirectory (other : ProcessId) :
    Within p k (shareDirectory S p other k) := by
  refine Within.trans ?_ (within_dropDirectory _)
  exact (within_retainDirectory _).trans (.of_modifyProcess (fun _ => rfl) fun _ => rfl)

def WithinAction (p : ProcessId) (act : Action (Kernel W) α) : Prop :=
  ∀ k, act.Ensures k (fun _ k' => Within p k k') fun _ k' => Within p k k'

theorem withinAction_pure (a : α) : WithinAction p (pure a : Action (Kernel W) α) :=
  fun k => .refl k

theorem withinAction_throw (e : Errno) : WithinAction p (throw e : Action (Kernel W) α) :=
  fun k => .refl k

theorem withinAction_get : WithinAction p (get : Action (Kernel W) (Kernel W)) := fun k => .refl k

theorem withinAction_modify {f : Kernel W → Kernel W} (hf : ∀ k, Within p k (f k)) :
    WithinAction p (modify f : Action (Kernel W) PUnit) := hf

theorem WithinAction.bind {x : Action (Kernel W) β} {f : β → Action (Kernel W) α}
    (hx : WithinAction p x) (hf : ∀ b, WithinAction p (f b)) : WithinAction p (x >>= f) := by
  intro k
  rw [Action.ensures_bind]
  refine (hx k).mono (fun b k₁ h₁ => ?_) fun _ _ h₁ => h₁
  exact (hf b k₁).mono (fun _ _ h₂ => h₁.trans h₂) fun _ _ h₂ => h₁.trans h₂

theorem WithinAction.map {f : β → α} {act : Action (Kernel W) β} (h : WithinAction p act) :
    WithinAction p (f <$> act) :=
  fun k => Action.ensures_map.2 (h k)

theorem WithinAction.outcome {act : Action (Kernel W) α} (h : WithinAction p act) :
    WithinAction p act.outcome :=
  fun k => Action.ensures_outcome.2 (h k)

theorem withinAction_onWorld (act : Action W α) : WithinAction p (onWorld act) := by
  intro k
  rw [ensures_onWorld]
  exact Action.ensures_true.mono (fun _ _ _ => .of_records rfl rfl) fun _ _ _ => .of_records rfl rfl

theorem withinAction_onDescriptors (act : Action (Descriptors W) α) :
    WithinAction p (onDescriptors p act) := by
  intro k
  rw [onDescriptors, Action.ensures_onPart]
  have hwithin (d : Descriptors W) : Within p k
      { modifyProcess p ({ · with descriptors := d.table }) k with shared := d.shared } := by
    have hmodify : Within p k (modifyProcess p ({ · with descriptors := d.table }) k) :=
      .of_modifyProcess (fun _ => rfl) fun _ => rfl
    exact hmodify.trans (.of_records rfl rfl)
  exact Action.ensures_true.mono (fun _ d _ => hwithin d) fun _ d _ => hwithin d

theorem withinAction_onSpace (act : Action (AddressSpace × W) α) :
    WithinAction p (onSpace p act) := by
  intro k
  cases hspace : (k.process p).space with
  | none =>
    have hrun : onSpace p act k = (throw .badAddress : Action (Kernel W) α) k := by
      unfold onSpace
      rw [hspace]
      rfl
    exact (Action.ensures_congr hrun).2 (.refl k)
  | some space =>
    rw [ensures_onSpace hspace]
    have hwithin (s : AddressSpace × W) : Within p k
        (modifyWorld (fun _ => s.2) (modifyProcess p ({ · with space := some s.1 }) k)) := by
      have hmodify : Within p k (modifyProcess p ({ · with space := some s.1 }) k) :=
        .of_modifyProcess (fun _ => rfl) fun _ => rfl
      exact hmodify.trans (.of_records rfl rfl)
    exact Action.ensures_true.mono (fun _ s _ => hwithin s) fun _ s _ => hwithin s

theorem withinAction_exec (path : String) (args : ArgVector) :
    WithinAction p (exec S p path args) := by
  apply withinAction_get.bind
  intro k
  split
  · exact withinAction_throw _
  · apply (withinAction_onWorld _).bind
    intro image
    -- The image goes back to the services on every way out.
    have hrelease :
        WithinAction p (modify (modifyWorld (S.release image)) : Action (Kernel W) PUnit) :=
      withinAction_modify fun _ => .of_records rfl rfl
    apply (withinAction_onWorld _).outcome.bind
    intro made
    cases made with
    | error e => exact hrelease.bind fun _ => withinAction_throw e
    | ok space =>
      refine (withinAction_modify fun _ => within_setSpace _).bind fun _ => ?_
      apply (withinAction_onSpace _).outcome.bind
      intro built
      refine hrelease.bind fun _ => withinAction_get.bind fun k => ?_
      have hlog (e : Event) : WithinAction p (modify (report e) : Action (Kernel W) PUnit) :=
        withinAction_modify fun _ => within_report e
      cases built with
      | ok entry => exact (hlog _).bind fun _ => withinAction_pure entry
      | error e => exact (hlog _).bind fun _ => withinAction_throw e

/-! ### Processes are made and given up -/

/-- There is one record more, registered under `pid`, of a running process with `n` threads. -/
structure Made (pid : Pid) (parent : Option Pid) (n : Nat) (k k' : Kernel W) : Prop where
  create : (k.table.create fun _ => k.records.size) = .ok (pid, k'.table)
  size : k'.records.size = k.records.size + 1
  others : ∀ q < k.records.size, k'.process q = k.process q
  life : (k'.process k.records.size).life = ⟨pid, parent, .running, {}⟩
  threads : (k'.process k.records.size).threads = n

theorem made_created {name : String} {table : ProcessTable ProcessId}
    (h : (k.table.create fun _ => k.records.size) = .ok (pid, table)) :
    Made pid none 0 k (k.created pid name table) := by
  refine ⟨h, ?_, fun q hq => process_created_of_lt hq, ?_, ?_⟩
  · rw [created, report, Array.size_push]
  · rw [process_created_self]
    rfl
  · rw [process_created_self]
    rfl

namespace Made

theorem lt_size (h : Made pid parent n k k') : k.records.size < k'.records.size :=
  Nat.lt_of_lt_of_eq (Nat.lt_succ_self _) h.size.symm

theorem pid_eq (h : Made pid parent n k k') : (k'.process k.records.size).pid = pid :=
  congrArg Life.pid h.life

theorem within (h : Made pid parent n k k') (h' : Within k.records.size k' k'') :
    Made pid parent n k k'' :=
  ⟨by rw [h'.table, h.create], h'.size.trans h.size,
    fun q hq => (h'.others q (Nat.ne_of_lt hq)).trans (h.others q hq), h'.life.trans h.life,
    h'.threads.trans h.threads⟩

theorem setThreads {m : Nat} {f : Process → Process} (h : Made pid parent m k k')
    (hlife : ∀ r, (f r).life = r.life)
    (hthreads : ∀ r : Process, r.threads = m → (f r).threads = n) :
    Made pid parent n k (modifyProcess k.records.size f k') := by
  have hself := process_modifyProcess_self f h.lt_size
  refine ⟨h.create, (size_modifyProcess _).trans h.size, fun q hq => ?_, ?_, ?_⟩
  · exact (process_modifyProcess_ne _ (Nat.ne_of_lt hq)).trans (h.others q hq)
  · rw [hself, hlife, h.life]
  · rw [hself, hthreads _ h.threads]

theorem attachThread (h : Made pid parent n k k') :
    Made pid parent (n + 1) k (modifyProcess k.records.size Process.attachThread k') :=
  h.setThreads (fun _ => rfl) fun _ hn => congrArg (· + 1) hn

theorem detachThread (h : Made pid parent (n + 1) k k') :
    Made pid parent n k (modifyProcess k.records.size Process.detachThread k') :=
  h.setThreads (fun _ => rfl) fun _ hn => congrArg (· - 1) hn

end Made

/-- A process that could not be started is given up as soon as it is made. -/
def GivenUp (S : Services W) (k k' : Kernel W) : Prop :=
  ∃ pid k₁, Made pid none 0 k k₁ ∧ k' = discard S k.records.size k₁

theorem ensures_spawnInitial_made {path : String} {args : List String} :
    (spawnInitial S path args).Ensures k (fun _ k' => ∃ pid, Made pid none 1 k k')
      fun _ k' => k' = k ∨ GivenUp S k k' := by
  rw [spawnInitial, Action.ensures_bind, Action.ensures_get]
  dsimp only
  split
  case isTrue => exact .inl rfl
  case isFalse =>
    rw [Action.ensures_bind]
    refine Action.ensures_ofExcept.2 ⟨fun args _ => ?_, fun _ _ => .inl rfl⟩
    rw [Action.ensures_bind, ensures_create]
    refine ⟨fun pid table hcreate => ?_, fun _ _ => .inl rfl⟩
    have hmade : Made pid none 0 k (k.created pid path table) := made_created hcreate
    rw [Action.ensures_bind, Action.ensures_outcome, Action.ensures_bind]
    refine (withinAction_onDescriptors _ _).mono (fun _ k₁ h₁ => ?_)
      fun e k₁ h₁ => .inr ⟨pid, k₁, hmade.within h₁, rfl⟩
    have hmade₁ := hmade.within h₁
    refine (withinAction_exec path args _).mono (fun entry k₂ h₂ => ?_)
      fun e k₂ h₂ => .inr ⟨pid, k₂, hmade₁.within h₂, rfl⟩
    simp only [Action.ensures_bind, Action.ensures_modify, Action.ensures_pure]
    exact ⟨pid, (hmade₁.within h₂).attachThread.within (within_report _)⟩

/-! ### Ends -/

theorem ensures_endFork_eq {parentPid : Pid} {a : ProcessId} {started : Except Errno Unit} :
    (endFork S parentPid a started).Ensures k
      (fun pid k' => pid = (k.process a).pid ∧ k' = report (.processForked parentPid pid) k)
      fun _ k' => ∃ e, started = .error e ∧ k' = discard S a
        (report (.forkFailed parentPid e) (modifyProcess a Process.detachThread k)) := by
  cases started with
  | ok _ =>
    simp only [endFork, Action.ensures_bind, Action.ensures_get, Action.ensures_modify,
      Action.ensures_pure]
    exact ⟨trivial, trivial⟩
  | error e =>
    simp only [endFork, rejectChild, Action.ensures_bind, Action.ensures_modify,
      Action.ensures_throw]
    exact ⟨e, rfl, rfl⟩

/-- A wait ends well for a zombie and with an error for any other process, to which it does
nothing. -/
theorem ensures_endWait_eq {callerPid : Pid} {a : ProcessId} :
    (endWait S callerPid pid a).Ensures k
      (fun r k' => ∃ code, (k.process a).state = .zombie code ∧ r = .reaped code pid ∧
        k' = report (.childReaped callerPid pid code) (reap S a (k.unregister pid)))
      fun e k' => (∀ code, (k.process a).state ≠ .zombie code) ∧ e = .noSuchProcess ∧ k' = k := by
  rw [endWait, Action.ensures_bind, Action.ensures_get]
  cases hstate : (k.process a).state with
  | running =>
    have hcode : (k.process a).exitCode = none := by rw [Process.exitCode, hstate]
    rw [hcode]
    exact ⟨nofun, rfl, rfl⟩
  | reaped =>
    have hcode : (k.process a).exitCode = none := by rw [Process.exitCode, hstate]
    rw [hcode]
    exact ⟨nofun, rfl, rfl⟩
  | zombie code =>
    have hcode : (k.process a).exitCode = some code := by rw [Process.exitCode, hstate]
    rw [hcode]
    simp only [Action.ensures_bind, Action.ensures_modify, Action.ensures_pure]
    exact ⟨code, rfl, rfl, rfl⟩

end Kernel

end UnixCore
