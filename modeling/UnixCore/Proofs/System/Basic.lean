import UnixCore.Kernel.Lifecycle
import UnixCore.Ram.World

/-! Processes that run side by side. A system is a kernel together with the calls that are under
way: forks that start the thread of their child, and waits that yield. Between any two steps of
such a call any other call may make steps, and each service may fail whenever it is called. -/

namespace UnixCore

inductive DescriptorCall
  | openPath (path : String) (flags : UInt32)
  | read (fd count : Nat)
  | write (fd : Nat) (bytes : List UInt8)
  | seek (fd : Nat) (pos : Int64) (whence : Int32)
  | close (fd : Nat)
  | duplicate (old new : Nat)

namespace DescriptorCall

variable {W : Type}

/-- The operation without its result. -/
def action (S : Services W) : DescriptorCall → Action (Descriptors W) Unit
  | openPath path flags => (fun _ => ()) <$> Descriptors.openPath S path flags
  | read fd count => (fun _ => ()) <$> Descriptors.read S fd count
  | write fd bytes => (fun _ => ()) <$> Descriptors.write S fd bytes
  | seek fd pos whence => (fun _ => ()) <$> Descriptors.seek S fd pos whence
  | close fd => Descriptors.close S fd
  | duplicate old new => (fun _ => ()) <$> Descriptors.duplicate S old new

end DescriptorCall

def Kernel.shareDirectory {W : Type} (S : Services W) (p other : ProcessId) (k : Kernel W) :
    Kernel W :=
  let old := (k.process p).directory
  let directory := (k.process other).directory
  dropDirectory S old (modifyProcess p ({ · with directory }) (retainDirectory directory k))

/-- An operation that no other operation interrupts. -/
inductive Operation
  | spawnInitial (path : String) (args : List String)
  | exec (p : ProcessId) (path : String) (args : ArgVector)
  | exit (p : ProcessId) (code : Int32)
  | descriptors (p : ProcessId) (call : DescriptorCall)
  | enterDirectory (p : ProcessId) (path : String) (flags : OpenFlags)
  | leaveDirectory (p : ProcessId)
  | shareDirectory (p other : ProcessId)
  /-- Nobody refers to a record any more that is not registered. -/
  | abandon (p : ProcessId)

inductive Label
  /-- An operation that is not about the end of a process. -/
  | worked
  | exited (p : ProcessId) (code : Int32)
  /-- A fork that fails before its child could run. -/
  | forkRefused (parent : ProcessId) (e : Errno)
  | forkBegun (parent child : ProcessId)
  | forked (parent child : ProcessId)
  | forkFailed (parent child : ProcessId)
  | waitFailed (caller : ProcessId) (e : Errno)
  | waitBlocked (caller child : ProcessId)
  | collected (caller child : ProcessId) (pid : Pid) (code : Int32)

namespace Operation

variable {W : Type}

def Valid (k : Kernel W) : Operation → Prop
  | spawnInitial _ _ => True
  | exec p _ _ | exit p _ | descriptors p _ | enterDirectory p _ _ | leaveDirectory p =>
    p < k.records.size
  | shareDirectory p other => p < k.records.size ∧ other < k.records.size
  | abandon p => p < k.records.size ∧ k.table.get? (k.process p).pid ≠ some p

def action (S : Services W) : Operation → Action (Kernel W) Unit
  | spawnInitial path args => (fun _ => ()) <$> Kernel.spawnInitial S path args
  | exec p path args => (fun _ => ()) <$> Kernel.exec S p path args
  | exit p code => modify (Kernel.exit p code)
  | descriptors p call => Kernel.onDescriptors p (call.action S)
  | enterDirectory p path flags => do
    let vnode ← Kernel.onWorld (S.openPath path flags)
    modify (Kernel.setDirectory S p (some vnode))
  | leaveDirectory p => modify (Kernel.setDirectory S p none)
  | shareDirectory p other => modify (Kernel.shareDirectory S p other)
  | abandon p => do
    modify (Kernel.setSpace S p none)
    modify (Kernel.setDirectory S p none)
    Kernel.onDescriptors p (modify (Descriptors.clear S))

def run (S : Services W) (op : Operation) (k : Kernel W) : Kernel W := ((op.action S).result k).2

def label : Operation → Label
  | exit p code => .exited p code
  | _ => .worked

end Operation

/-- A fork whose child may already run. -/
structure PendingFork where
  parent : ProcessId
  parentPid : Pid
  child : ProcessId
  deriving DecidableEq

/-- A wait that is allowed and yields until its child exits. -/
structure PendingWait where
  caller : ProcessId
  callerPid : Pid
  pid : Pid
  child : ProcessId
  deriving DecidableEq

/-- A kernel and the calls that are under way. -/
structure System (W : Type) where
  kernel : Kernel W
  forks : List PendingFork := []
  waits : List PendingWait := []

namespace Kernel

variable {W : Type}

def putSignal (child : ProcessId) (signal : Semaphore) (k : Kernel W) : Kernel W :=
  modifyProcess child ({ · with exitSignal := signal }) k

/-- A wait that finds no exit signal becomes one of those that wait for it. -/
def enterWait (child : ProcessId) (k : Kernel W) : Kernel W :=
  let k := if 0 < (k.process child).exitSignal.waiters then report .secondWaiter k else k
  putSignal child (k.process child).exitSignal.enter k

end Kernel

def Label.ofWait (caller child : ProcessId) : Except Errno Waited → Label
  | .ok (.reaped code pid) => .collected caller child pid code
  | .ok .blocked => .waitBlocked caller child
  | .error e => .waitFailed caller e

variable {W : Type}

/-- One step of a system. -/
inductive Step (S : Services W) : System W → Label → System W → Prop
  | operate {s : System W} {op : Operation} : op.Valid s.kernel →
    Step S s op.label { s with kernel := op.run S s.kernel }
  | forkRefused {s : System W} {parent : ProcessId} {e : Errno} {k : Kernel W} :
    parent < s.kernel.records.size → Kernel.beginFork S parent s.kernel = .error e k →
    Step S s (.forkRefused parent e) { s with kernel := k }
  | forkBegun {s : System W} {parent child : ProcessId} {k : Kernel W} :
    parent < s.kernel.records.size → Kernel.beginFork S parent s.kernel = .ok child k →
    Step S s (.forkBegun parent child)
      { s with
        kernel := k
        forks := ⟨parent, (s.kernel.process parent).pid, child⟩ :: s.forks }
  | forked {s : System W} {f : PendingFork} {pid : Pid} {k : Kernel W} : f ∈ s.forks →
    Kernel.endFork S f.parentPid f.child (.ok ()) s.kernel = .ok pid k →
    Step S s (.forked f.parent f.child) { s with kernel := k, forks := s.forks.erase f }
  | forkFailed {s : System W} {f : PendingFork} {e e' : Errno} {k : Kernel W} : f ∈ s.forks →
    Kernel.endFork S f.parentPid f.child (.error e) s.kernel = .error e' k →
    Step S s (.forkFailed f.parent f.child) { s with kernel := k, forks := s.forks.erase f }
  | waitRefused {s : System W} {caller : ProcessId} {pid : Pid} {options : Int32} {e : Errno}
    {k : Kernel W} : caller < s.kernel.records.size →
    Kernel.beginWait caller pid options s.kernel = .error e k →
    Step S s (.waitFailed caller e) { s with kernel := k }
  | waitBlocked {s : System W} {caller child : ProcessId} {pid : Pid} {options : Int32}
    {k : Kernel W} : caller < s.kernel.records.size →
    Kernel.beginWait caller pid options s.kernel = .ok child k →
    (k.process child).exitSignal.tryDown = none →
    Step S s (.waitBlocked caller child)
      { s with
        kernel := k.enterWait child
        waits := ⟨caller, (s.kernel.process caller).pid, pid, child⟩ :: s.waits }
  | waitMet {s : System W} {caller child : ProcessId} {pid : Pid} {options : Int32}
    {signal : Semaphore} {r : Except Errno Waited} {k k' : Kernel W} :
    caller < s.kernel.records.size →
    Kernel.beginWait caller pid options s.kernel = .ok child k →
    (k.process child).exitSignal.tryDown = some signal →
    (Kernel.endWait S (s.kernel.process caller).pid pid child).result (k.putSignal child signal) =
      (r, k') →
    Step S s (.ofWait caller child r) { s with kernel := k' }
  | waitWoken {s : System W} {w : PendingWait} {signal : Semaphore} {r : Except Errno Waited}
    {k : Kernel W} : w ∈ s.waits →
    (s.kernel.process w.child).exitSignal.tryDown = some signal →
    (Kernel.endWait S w.callerPid w.pid w.child).result
      (s.kernel.putSignal w.child signal.leave) = (r, k) →
    Step S s (.ofWait w.caller w.child r) { s with kernel := k, waits := s.waits.erase w }

/-- The states that steps with certain labels lead to. -/
inductive Steps {σ α : Type} (next : σ → α → σ → Prop) (s₀ : σ) : List α → σ → Prop
  | start : Steps next s₀ [] s₀
  | step {labels : List α} {l : α} {s s' : σ} : Steps next s₀ labels s → next s l s' →
    Steps next s₀ (labels ++ [l]) s'

namespace Steps

variable {σ α β : Type} {next : σ → α → σ → Prop} {next' : σ → β → σ → Prop} {s₀ s s' : σ}
  {labels labels' : List α}

theorem trans (h : Steps next s₀ labels s) (h' : Steps next s labels' s') :
    Steps next s₀ (labels ++ labels') s' := by
  induction h' with
  | start => rwa [List.append_nil]
  | step _ hstep ih =>
    rw [← List.append_assoc]
    exact ih.step hstep

theorem preserves {P : σ → Prop} (hstep : ∀ {s l s'}, P s → next s l s' → P s')
    (h : Steps next s₀ labels s) (h₀ : P s₀) : P s := by
  induction h with
  | start => exact h₀
  | step _ hs ih => exact hstep ih hs

theorem map {f : α → β} (hstep : ∀ {s l s'}, next s l s' → next' s (f l) s')
    (h : Steps next s₀ labels s) : Steps next' s₀ (labels.map f) s := by
  induction h with
  | start => exact .start
  | step _ hs ih =>
    rw [List.map_append]
    exact ih.step (hstep hs)

end Steps

/-- What happens between two steps of a call: others make steps, and leave none of their calls under
way. -/
def Interlude {α : Type} (next : System W → α → System W → Prop) (k k' : Kernel W) : Prop :=
  ∀ forks waits, ∃ labels, Steps next ⟨k, forks, waits⟩ labels ⟨k', forks, waits⟩

namespace Interlude

variable {α : Type} {next : System W → α → System W → Prop} {k k' k'' : Kernel W}

theorem refl (k : Kernel W) : Interlude next k k := fun _ _ => ⟨[], .start⟩

theorem trans (h : Interlude next k k') (h' : Interlude next k' k'') : Interlude next k k'' := by
  intro forks waits
  obtain ⟨labels, hsteps⟩ := h forks waits
  obtain ⟨labels', hsteps'⟩ := h' forks waits
  exact ⟨labels ++ labels', hsteps.trans hsteps'⟩

theorem preserves {P : System W → Prop} (hstep : ∀ {s l s'}, P s → next s l s' → P s')
    (h : Interlude next k k') (h₀ : P { kernel := k }) : P { kernel := k' } := by
  obtain ⟨_, hsteps⟩ := h [] []
  exact hsteps.preserves hstep h₀

end Interlude

abbrev Run (S : Services W) : System W → List Label → System W → Prop := Steps (Step S)

def System.empty (config : Config) (world : W) : System W where
  kernel := { config, table := { capacity := config.maxProcesses }, shared := { world } }

def smallWorld : Ram :=
  ({ shape := { size := 64, stackTop := 0x1040 } } : Ram).withConsole.withPrograms

theorem Kernel.boot_eq_ok {config : Config} {world : W} {k : Kernel W}
    (h : Kernel.boot config world = .ok k) : k = (System.empty config world).kernel := by
  unfold Kernel.boot at h
  cases hvalid : config.validate with
  | error e =>
    rw [hvalid] at h
    cases h
  | ok _ =>
    rw [hvalid] at h
    exact (Except.ok.inj h).symm

end UnixCore
