import UnixCore.Proofs.Parenthood.Rounds
import UnixCore.Proofs.Rendezvous.Displaced
import UnixCore.Proofs.System.Calls

/-! Exit and wait meet exactly once: in every run the exit code of a process is returned by at most
one wait, none is lost unless the process was displaced, and a wait that fails takes nothing. Nobody
is displaced unless a fork fails so late that the id of its child belongs to another process. -/

namespace UnixCore

variable {W : Type} {S : Services W} {labels : List Label} {s s' : System W} {a : ProcessId}

/-- What the steps so far and a system say about the exit of a process and the waits for it, at
present and in every future of the system. -/
structure Rendezvous (S : Services W) (labels : List Label) (s : System W) (a : ProcessId) :
    Prop where
  /-- At most one wait returned. -/
  once : collections a labels ≤ 1
  /-- A wait that returns does so after the first exit, with its code and the id of the process.
  From then on the process is not registered, and waits for its id fail unless the id has been given
  to a process that was made since. -/
  collected : ∀ caller pid code t, Step S s (.collected caller a pid code) t →
    pid = (s.kernel.process a).pid ∧ firstExit a labels = some code ∧
      ∀ after u, Run S t after u → ¬ u.kernel.Registered a ∧
        ((∀ b, t.kernel.records.size ≤ b → b < u.kernel.records.size →
            (u.kernel.process b).pid ≠ pid) →
          ∀ threads p options, (Kernel.wait S threads p pid options).result u.kernel =
            (.error (if options ≠ 0 then .invalidArgument else .noSuchProcess), u.kernel))
  /-- An exit that no wait has returned yet is there for the next one: as long as the process is
  registered, a wait by the parent returns its code, and what the others would do meanwhile makes no
  difference. The process is registered unless it was displaced, and it was displaced only if a fork
  failed although a wait had already collected its child, and this child had the id of the
  process. -/
  kept : ∀ after u parent, Run S s after u → .forked parent a ∈ labels ++ after →
    ∀ code, firstExit a labels = some code → collections a labels = 0 →
      (s.kernel.Registered a ↔ ¬ Displaced labels s.kernel a) ∧
        (Displaced labels s.kernel a → Overtaken labels s.kernel (s.kernel.process a).pid) ∧
        (s.kernel.Registered a → ∀ p,
          (s.kernel.process a).parent = some (s.kernel.process p).pid → ∀ options, ∃ k,
            ∀ threads, (Kernel.wait S threads p (s.kernel.process a).pid options).result s.kernel =
              (if options ≠ 0 then .error .invalidArgument
                else if (s.kernel.process a).pid = (s.kernel.process p).pid then .error .notAChild
                else .ok (.reaped code (s.kernel.process a).pid), k)) ∧
        (s.kernel.table.get? (s.kernel.process a).pid = none → ∀ threads p options,
          (Kernel.wait S threads p (s.kernel.process a).pid options).result s.kernel =
            (.error (if options ≠ 0 then .invalidArgument else .noSuchProcess), s.kernel))
  /-- A wait that fails unregisters and reaps nobody, and nothing happens to the process. -/
  failed : ∀ after u parent, Run S s after u → .forked parent a ∈ labels ++ after →
    ∀ caller e t, Step S s (.waitFailed caller e) t →
      t.kernel.table = s.kernel.table ∧
        (∀ p, (t.kernel.process p).state = (s.kernel.process p).state) ∧
          t.kernel.process a = s.kernel.process a

/-! ### Runs -/

theorem orderly_empty (config : Config) (world : W) : Orderly [] (System.empty config world) := by
  refine ⟨⟨fun pid a h => ?_, nofun, List.nodup_nil, nofun⟩, nofun, fun _ _ => ⟨rfl, rfl⟩, nofun,
    nofun⟩
  have hnone : (System.empty config world).kernel.table.get? pid = none :=
    Std.TreeMap.getElem?_emptyc
  rw [hnone] at h
  cases h

theorem placed_empty (config : Config) (world : W) : Placed [] (System.empty config world) :=
  ⟨nofun, nofun, nofun, nofun, nofun⟩

theorem Run.orderly {config : Config} {world : W}
    (run : Run S (System.empty config world) labels s) : Orderly labels s := by
  induction run with
  | start => exact orderly_empty config world
  | step _ hstep ih => exact ih.step hstep

theorem Run.placed {config : Config} {world : W}
    (run : Run S (System.empty config world) labels s) : Placed labels s := by
  induction run with
  | start => exact placed_empty config world
  | step run hstep ih => exact ih.step (Run.orderly run).sound hstep

theorem Unforked.run {after : List Label} (h : Unforked labels s a) (hs : Orderly labels s)
    (ha : a < s.kernel.records.size) (run : Run S s after s') :
    Unforked (labels ++ after) s' a ∧ Orderly (labels ++ after) s' ∧
      a < s'.kernel.records.size := by
  induction run with
  | start =>
    rw [List.append_nil]
    exact ⟨h, hs, ha⟩
  | step _ hstep ih =>
    obtain ⟨hu, ho, ha⟩ := ih
    rw [← List.append_assoc]
    exact ⟨hu.step ha hstep, ho.step hstep,
      Nat.lt_of_lt_of_le ha (hstep.change ho.sound).after.size_le⟩

theorem Run.after {after : List Label} (h : s.Sound) (run : Run S s after s') :
    s.kernel.After s'.kernel ∧ s'.Sound := by
  induction run with
  | start => exact ⟨.refl _, h⟩
  | step _ hstep ih =>
    obtain ⟨hafter, hsound⟩ := ih
    exact ⟨hafter.trans (hstep.change hsound).after, hsound.step hstep⟩

/-! ### Waits -/

open Kernel

theorem result_wait_of_options {k : Kernel W} {pid : Pid} {options : Int32} (h : options ≠ 0)
    (threads : Threads W) (p : ProcessId) :
    (wait S threads p pid options).result k = (.error .invalidArgument, k) := by
  rw [Action.result_eq_iff]
  simp only [wait, beginWait, Action.ensures_bind, Action.ensures_get, if_pos h]
  exact ⟨rfl, rfl⟩

theorem result_wait_of_free {k : Kernel W} {pid : Pid} (h : k.table.get? pid = none)
    (threads : Threads W) (p : ProcessId) (options : Int32) :
    (wait S threads p pid options).result k =
      (.error (if options ≠ 0 then .invalidArgument else .noSuchProcess), k) := by
  by_cases hoptions : options ≠ 0
  · rw [result_wait_of_options hoptions, if_pos hoptions]
  · rw [Action.result_eq_iff]
    simp only [wait, beginWait, Action.ensures_bind, Action.ensures_get, if_neg hoptions]
    rw [h]
    exact ⟨rfl, rfl⟩

theorem result_wait_of_stranger {k : Kernel W} {pid : Pid} {p : ProcessId}
    (hfound : k.table.get? pid = some a)
    (h : pid = (k.process p).pid ∨ (k.process a).parent ≠ some (k.process p).pid)
    (threads : Threads W) :
    (wait S threads p pid 0).result k = (.error .notAChild, k) := by
  rw [Action.result_eq_iff]
  simp only [wait, beginWait, Action.ensures_bind, Action.ensures_get, ne_eq, not_true_eq_false,
    if_false]
  rw [hfound]
  simp only [if_pos h]
  exact ⟨rfl, rfl⟩

theorem beginWait_of_child {k : Kernel W} {pid : Pid} {p : ProcessId}
    (hfound : k.table.get? pid = some a) (hself : pid ≠ (k.process p).pid)
    (hparent : (k.process a).parent = some (k.process p).pid) :
    beginWait p pid 0 k = .ok a k := by
  have hchild : ¬ (pid = (k.process p).pid ∨ (k.process a).parent ≠ some (k.process p).pid) :=
    not_or.2 ⟨hself, Decidable.not_not.2 hparent⟩
  rw [Action.eq_ok_iff]
  simp only [beginWait, Action.ensures_bind, Action.ensures_get, ne_eq, not_true_eq_false, if_false]
  rw [hfound]
  simp only [if_neg hchild]
  exact ⟨rfl, rfl⟩

/-- The kernel when a wait that has taken the exit signal of a zombie has ended. -/
def Kernel.collected (k : Kernel W) (S : Services W) (a : ProcessId) (callerPid pid : Pid)
    (code : Int32) (signal : Semaphore) : Kernel W :=
  report (.childReaped callerPid pid code) (reap S a ((k.putSignal a signal).unregister pid))

section Collected

variable {k : Kernel W} {callerPid pid : Pid} {code : Int32} {signal : Semaphore}

theorem Kernel.process_collected_self (ha : a < k.records.size) :
    (k.collected S a callerPid pid code signal).process a =
      { (k.process a).reaped (k.process a).descriptors.clear with exitSignal := signal } := by
  have hput : ((k.putSignal a signal).unregister pid).process a =
      { k.process a with exitSignal := signal } := process_modifyProcess_self _ ha
  rw [collected, process_report, process_reap_self S (by simpa [putSignal, unregister] using ha),
    cleared, hput]
  rfl

theorem Kernel.process_collected_ne {q : ProcessId} (h : q ≠ a) :
    (k.collected S a callerPid pid code signal).process q = k.process q := by
  rw [collected, process_report, process_reap_ne S h]
  exact process_modifyProcess_ne _ h

theorem Kernel.table_collected :
    (k.collected S a callerPid pid code signal).table = k.table.remove pid :=
  table_reap (k := (k.putSignal a signal).unregister pid) S

end Collected

/-- Whatever is left of the exit signal, the end of a wait for a zombie gives its code. -/
theorem endWait_of_zombie {k : Kernel W} {code : Int32}
    (hstate : (k.process a).state = .zombie code) (callerPid pid : Pid) (signal : Semaphore) :
    endWait S callerPid pid a (k.putSignal a signal) =
      .ok (.reaped code pid) (k.collected S a callerPid pid code signal) := by
  have hcode : ((k.putSignal a signal).process a).exitCode = some code := by
    rw [Process.exitCode, (state_putSignal a).trans hstate]
  rw [Action.eq_ok_iff]
  simp only [endWait, Action.ensures_bind, Action.ensures_get, hcode, Action.ensures_modify]
  exact ⟨rfl, rfl⟩

theorem exists_tryDown_of_units {signal : Semaphore} (hunits : signal.count = 1) :
    ∃ signal', signal.tryDown = some signal' := by
  rw [← Option.ne_none_iff_exists', Ne, Semaphore.tryDown_eq_none_iff, hunits]
  decide

/-- A wait that finds the exit signal there does not yield. -/
theorem wait_of_zombie {k : Kernel W} {code : Int32} {signal : Semaphore} {p : ProcessId}
    (hreg : k.Registered a) (hstate : (k.process a).state = .zombie code)
    (hsignal : (k.process a).exitSignal.tryDown = some signal)
    (hparent : (k.process a).parent = some (k.process p).pid)
    (hself : (k.process a).pid ≠ (k.process p).pid) (threads : Threads W) :
    wait S threads p (k.process a).pid 0 k = .ok (.reaped code (k.process a).pid)
      (k.collected S a (k.process p).pid (k.process a).pid code signal) := by
  have hbegun := beginWait_of_child hreg hself hparent
  rw [wait, Action.get_bind, Action.bind_of_ok hbegun, Action.modifyGet_bind,
    awaitExit_of_tryDown hsignal]
  exact endWait_of_zombie hstate _ _ signal

theorem exists_result_wait_of_zombie {k : Kernel W} {code : Int32} (hreg : k.Registered a)
    (hstate : (k.process a).state = .zombie code)
    (hunits : (k.process a).exitSignal.count = 1) {p : ProcessId}
    (hparent : (k.process a).parent = some (k.process p).pid) (options : Int32) : ∃ k',
      ∀ threads, (wait S threads p (k.process a).pid options).result k =
        (if options ≠ 0 then .error .invalidArgument
          else if (k.process a).pid = (k.process p).pid then .error .notAChild
          else .ok (.reaped code (k.process a).pid), k') := by
  by_cases hoptions : options = 0
  · subst hoptions
    by_cases hself : (k.process a).pid = (k.process p).pid
    · refine ⟨k, fun threads => ?_⟩
      rw [result_wait_of_stranger hreg (.inl hself), if_neg fun h => h rfl, if_pos hself]
    · obtain ⟨signal, hsignal⟩ := exists_tryDown_of_units hunits
      refine ⟨k.collected S a (k.process p).pid (k.process a).pid code signal, fun threads => ?_⟩
      rw [Action.result, wait_of_zombie hreg hstate hsignal hparent hself threads]
      simp [hself]
  · refine ⟨k, fun threads => ?_⟩
    rw [result_wait_of_options hoptions, if_pos hoptions]

/-! ### Every run -/

namespace Orderly

theorem lt_of_firstExit (h : Orderly labels s) {code : Int32}
    (hfirst : firstExit a labels = some code) : a < s.kernel.records.size := by
  apply Nat.lt_of_not_le
  intro hge
  cases hfirst.symm.trans (h.unborn a hge).1

theorem collections_le (h : Orderly labels s) (a : ProcessId) : collections a labels ≤ 1 := by
  rcases Nat.lt_or_ge a s.kernel.records.size with hlt | hge
  · exact (h.stage a hlt).collections_le
  · rw [(h.unborn a hge).2]
    exact Nat.zero_le 1

/-- A process whose fork succeeds at some time has not been given up. -/
theorem not_unforked (h : Orderly labels s) (ha : a < s.kernel.records.size) {after : List Label}
    {u : System W} (run : Run S s after u) {parent : ProcessId}
    (hforked : .forked parent a ∈ labels ++ after) : ¬ Unforked labels s a :=
  fun hu => (hu.run h ha run).1.2 parent hforked

theorem free_after_collected (h : Orderly labels s) {caller : ProcessId} {pid : Pid} {code : Int32}
    {t u : System W} (hstep : Step S s (.collected caller a pid code) t) {after : List Label}
    (run : Run S t after u) :
    ¬ u.kernel.Registered a ∧ ((∀ b, t.kernel.records.size ≤ b → b < u.kernel.records.size →
      (u.kernel.process b).pid ≠ pid) → u.kernel.table.get? pid = none) := by
  obtain ⟨hafter, -⟩ := run.after (h.sound.step hstep)
  have hstart := (hstep.change h.sound).after
  obtain ⟨rfl, ha, -, hfree⟩ := (hstep.change h.sound).of_collected
  have hfound (b : ProcessId) (hb : u.kernel.table.get? (s.kernel.process a).pid = some b) :
      t.kernel.records.size ≤ b ∧ b < u.kernel.records.size ∧
        (u.kernel.process b).pid = (s.kernel.process a).pid := by
    rcases hafter.found _ b hb with hold | hnew
    · cases hfree.symm.trans hold
    · exact hnew
  have ha' := Nat.lt_of_lt_of_le ha hstart.size_le
  refine ⟨fun hreg => ?_, fun hnone => ?_⟩
  · rw [Registered, hafter.pid a ha', hstart.pid a ha] at hreg
    exact Nat.not_lt_of_le (hfound a hreg).1 ha'
  · cases hget : u.kernel.table.get? (s.kernel.process a).pid with
    | none => rfl
    | some b =>
      obtain ⟨hle, hlt, hpid⟩ := hfound b hget
      exact absurd hpid (hnone b hle hlt)

theorem firstExit_of_collected (h : Orderly labels s) {caller : ProcessId} {pid : Pid}
    {code : Int32} {t : System W} (hstep : Step S s (.collected caller a pid code) t) :
    pid = (s.kernel.process a).pid ∧ firstExit a labels = some code := by
  obtain ⟨rfl, ha, hzombie, -⟩ := (hstep.change h.sound).of_collected
  obtain ⟨-, -, hfirst⟩ := (h.stage a ha).of_zombie hzombie
  exact ⟨rfl, hfirst⟩

theorem zombie_of_firstExit (h : Orderly labels s) {code : Int32}
    (hfirst : firstExit a labels = some code) (hnone : collections a labels = 0)
    (hforked : ¬ Unforked labels s a) :
    (s.kernel.process a).state ≠ .reaped ∧ (s.kernel.Registered a →
      (s.kernel.process a).state = .zombie code ∧ (s.kernel.process a).exitSignal.count = 1) := by
  cases h.stage a (h.lt_of_firstExit hfirst) with
  | running hstate _ _ hexit =>
    refine ⟨fun hreaped => ?_, fun hreg => ?_⟩
    · cases hreaped.symm.trans hstate
    · cases hfirst.symm.trans (hexit hreg)
  | zombie code' hstate hunits _ hexit =>
    cases hfirst.symm.trans hexit
    refine ⟨fun hreaped => ?_, fun _ => ⟨hstate, hunits⟩⟩
    cases hreaped.symm.trans hstate
  | collected _ _ hone => cases hnone.symm.trans hone
  | rejected _ _ hu => exact (hforked hu).elim

/-- A wait that fails has found nothing, or has taken the signal of a process that was given up. -/
theorem untouched_of_waitFailed (h : Orderly labels s) {caller : ProcessId} {e : Errno}
    {t : System W} (hstep : Step S s (.waitFailed caller e) t)
    (hforked : a < s.kernel.records.size → ¬ Unforked labels s a) :
    t.kernel.table = s.kernel.table ∧
      (∀ p, (t.kernel.process p).state = (s.kernel.process p).state) ∧
        t.kernel.process a = s.kernel.process a := by
  have hchange := hstep.change h.sound
  generalize t.kernel = k' at hchange
  cases hchange with
  | calm hl => exact hl.elim
  | born hl => exact hl.elim
  | stillborn hl => exact hl.elim
  | refused => exact ⟨rfl, fun _ => rfl, rfl⟩
  | @wasted _ b signal hb hnozombie hunits =>
    have hpos : (s.kernel.process b).exitSignal.count ≠ 0 := by
      intro hzero
      rw [hzero] at hunits
      exact Nat.succ_ne_zero _ hunits
    obtain ⟨-, hu⟩ := (h.stage b hb).unforked_of_units hnozombie hpos
    refine ⟨rfl, fun p => ?_, process_modifyProcess_ne _ fun hab => ?_⟩
    · by_cases hp : p = b
      · subst hp
        exact congrArg Life.state (life_putSignal_self hb)
      · exact congrArg Life.state (life_putSignal_ne hp)
    · subst hab
      exact hforked hb hu

end Orderly

/-- Exit and wait meet exactly once, for every process and after every run. -/
theorem rendezvous_exactly_once {config : Config} {world : W}
    (run : Run S (System.empty config world) labels s) (a : ProcessId) :
    Rendezvous S labels s a := by
  have h := run.orderly
  refine ⟨h.collections_le a, fun caller pid code t hstep => ?_, ?_, ?_⟩
  · obtain ⟨hpid, hfirst⟩ := h.firstExit_of_collected hstep
    refine ⟨hpid, hfirst, fun after u run' => ?_⟩
    obtain ⟨hreg, hfree⟩ := h.free_after_collected hstep run'
    exact ⟨hreg, fun hnone => result_wait_of_free (hfree hnone)⟩
  · intro after u parent run' hforked code hfirst hnone
    have ha := h.lt_of_firstExit hfirst
    obtain ⟨hlive, hzombie⟩ :=
      h.zombie_of_firstExit hfirst hnone (h.not_unforked ha run' hforked)
    obtain ⟨parent', hbegun⟩ := run.placed.exists_begun (h.not_unforked ha run' hforked)
    have hregistered := run.placed.registered parent' a hbegun hlive
    refine ⟨hregistered, fun hdisplaced => ?_, fun hreg p hparent options => ?_,
      result_wait_of_free⟩
    · apply Classical.byContradiction
      intro hnot
      exact hregistered.1 (h.kept a ha hlive hnot) hdisplaced
    · obtain ⟨hstate, hunits⟩ := hzombie hreg
      exact exists_result_wait_of_zombie hreg hstate hunits hparent options
  · intro after u parent run' hforked caller e t hstep
    exact h.untouched_of_waitFailed hstep fun ha => h.not_unforked ha run' hforked

/-! ### A child that exits and is collected -/

def firstProcess : Kernel Ram :=
  (Operation.spawnInitial "bin/init" ["init"]).run Ram.services
    (System.empty { openMax := 4 } smallWorld).kernel

/-- The first process and a child of it whose fork is under way. -/
def firstFork : System Ram where
  kernel := ((beginFork Ram.services 0).result firstProcess).2
  forks := [⟨0, (firstProcess.process 0).pid, 1⟩]

theorem run_firstFork : Run Ram.services (System.empty { openMax := 4 } smallWorld)
    [.worked, .forkBegun 0 1] firstFork := by
  have hstart : Run Ram.services (System.empty { openMax := 4 } smallWorld) [] _ := .start
  have hstarted := hstart.step
    (@Step.operate _ _ _ (.spawnInitial "bin/init" ["init"]) trivial)
  exact hstarted.step (@Step.forkBegun _ _ _ 0 1 _ (by decide +kernel)
    (Action.eq_ok_of_result (Action.result_eq_ok (by decide +kernel))))

/-- The fork has succeeded. -/
def firstChild : Kernel Ram :=
  ((endFork Ram.services (firstProcess.process 0).pid 1 (.ok ())).result firstFork.kernel).2

theorem run_firstChild : Run Ram.services (System.empty { openMax := 4 } smallWorld)
    [.worked, .forkBegun 0 1, .forked 0 1] { kernel := firstChild } := by
  have hended : endFork Ram.services _ 1 (.ok ()) firstFork.kernel = .ok 3 firstChild :=
    Action.eq_ok_of_result (Action.result_eq_ok (by decide +kernel))
  have hforked := run_firstFork.step (.forked (List.mem_cons_self ..) hended)
  rwa [firstFork, List.erase_cons_head] at hforked

def exitedChild : Kernel Ram :=
  let started := (Operation.spawnInitial "bin/init" ["init"]).run Ram.services
    (System.empty { openMax := 4 } smallWorld).kernel
  let begun := ((beginFork Ram.services 0).result started).2
  let forked := ((endFork Ram.services (started.process 0).pid 1 (.ok ())).result begun).2
  forked.exit 1 7

theorem run_exitedChild : Run Ram.services (System.empty { openMax := 4 } smallWorld)
    [.worked, .forkBegun 0 1, .forked 0 1, .exited 1 7] { kernel := exitedChild } :=
  run_firstChild.step
    (@Step.operate _ _ { kernel := firstChild } (.exit 1 7) (show 1 < _ by decide +kernel))

/-- The child exited with 7, and any wait for it by its parent returns that. -/
theorem rendezvous_exactly_once_exitedChild : ∃ k, ∀ threads,
    (wait Ram.services threads 0 3 0).result exitedChild = (.ok (.reaped 7 3), k) := by
  have hpid : (exitedChild.process 1).pid = 3 := by decide +kernel
  have hparent : (exitedChild.process 1).parent = some (exitedChild.process 0).pid := by
    decide +kernel
  have hforked : Label.forked 0 1 ∈ [.worked, .forkBegun 0 1, .forked 0 1, .exited 1 7] ++ [] :=
    .tail _ (.tail _ (.head _))
  obtain ⟨-, -, hwait, -⟩ :=
    (rendezvous_exactly_once run_exitedChild 1).kept [] _ 0 .start hforked 7
    rfl rfl
  have hreg : exitedChild.Registered 1 := by decide +kernel
  obtain ⟨k, hk⟩ := hwait hreg 0 hparent 0
  refine ⟨k, fun threads => ?_⟩
  rw [hpid, if_neg (by decide), if_neg (by decide +kernel)] at hk
  exact hk threads

theorem step_exitedChild :
    ∃ t, Step Ram.services { kernel := exitedChild } (.collected 0 1 3 7) t := by
  have hbegun : (beginWait 0 3 0).result exitedChild = (.ok 1, _) :=
    Action.result_eq_ok (by decide +kernel)
  have hended : (endWait Ram.services (exitedChild.process 0).pid 3 1).result
      (((beginWait 0 3 0).result exitedChild).2.putSignal 1 {}) = (.ok (.reaped 7 3), _) :=
    Action.result_eq_ok (by decide +kernel)
  have hcaller : 0 < exitedChild.records.size := by decide +kernel
  have hdown :
      (((beginWait 0 3 0).result exitedChild).2.process 1).exitSignal.tryDown = some {} := by
    decide +kernel
  exact ⟨_, Step.waitMet (s := { kernel := exitedChild }) hcaller (Action.eq_ok_of_result hbegun)
    hdown hended⟩

/-! ### A fork that is overtaken -/

/-- A fork that fails although the id of its child belongs to another process by now unregisters
that process. If it has exited and was not waited for, its code cannot be had any more. -/
theorem Orderly.exists_run_lost (h : Orderly labels s) {f : PendingFork} (hf : f ∈ s.forks)
    (hreg : s.kernel.Registered a) (hrunning : (s.kernel.process a).state = .running)
    (hne : a ≠ f.child) (hpid : (s.kernel.process f.child).pid = (s.kernel.process a).pid)
    (code : Int32) : ∃ t, Run S s [.exited a code, .forkFailed f.parent f.child] t ∧
      firstExit a (labels ++ [.exited a code, .forkFailed f.parent f.child]) = some code ∧
      collections a (labels ++ [.exited a code, .forkFailed f.parent f.child]) = 0 ∧
      t.kernel.process a = (s.kernel.process a).exited code ∧
      t.kernel.table.get? (s.kernel.process a).pid = none := by
  obtain ⟨ha, -⟩ := h.sound.table _ a hreg
  obtain ⟨-, hcount, hfirst⟩ := (h.stage a ha).of_running hrunning
  let k := report (.processExited (s.kernel.process a).pid code)
    (modifyProcess a (Process.exited code) s.kernel)
  have hexited : Step S s (.exited a code) { s with kernel := k } := by
    show Step S s _ { s with kernel := report _ _ }
    rw [← exit_of_running code hreg hrunning]
    exact @Step.operate _ _ _ (.exit a code) ha
  have hfailed : Step S { s with kernel := k } (.forkFailed f.parent f.child) _ :=
    .forkFailed (e := .outOfMemory) hf rfl
  refine ⟨_, (Steps.start.step hexited).step hfailed, ?_, ?_, ?_, ?_⟩
  · rw [List.append_cons, firstExit_append_singleton, firstExit_append_exited, hfirst hreg]
    rfl
  · rw [List.append_cons, collections_append_singleton, collections_append_exited, hcount]
    rfl
  · rw [process_discard_ne S hne]
    exact (process_modifyProcess_ne _ hne).trans (process_modifyProcess_self _ ha)
  · obtain ⟨-, hfree⟩ := (hfailed.change (h.sound.step hexited)).cleared rfl
    have hsame : (k.process f.child).pid = (s.kernel.process a).pid :=
      (congrArg Process.pid (process_modifyProcess_ne _ hne.symm)).trans hpid
    exact hsame ▸ hfree

/-- The child has exited with 7, and its fork is still under way. -/
def earlyExit : System Ram := { firstFork with kernel := firstFork.kernel.exit 1 7 }

/-- The child has been collected. -/
def earlyCollected : System Ram :=
  { earlyExit with kernel := ((endWait Ram.services (earlyExit.kernel.process 0).pid 3 1).result
      (earlyExit.kernel.putSignal 1 {})).2 }

theorem run_earlyCollected : Run Ram.services (System.empty { openMax := 4 } smallWorld)
    [.worked, .forkBegun 0 1, .exited 1 7, .collected 0 1 3 7] earlyCollected := by
  have hexited : Run Ram.services (System.empty { openMax := 4 } smallWorld)
      [.worked, .forkBegun 0 1, .exited 1 7] earlyExit :=
    run_firstFork.step (@Step.operate _ _ _ (.exit 1 7) (show 1 < _ by decide +kernel))
  have hfound : (beginWait 0 3 0).result earlyExit.kernel = (.ok 1, _) :=
    Action.result_eq_ok (by decide +kernel)
  have hfound' := Action.eq_ok_of_result hfound
  rw [(ensures_beginWait.of_ok hfound').1] at hfound'
  have hcaller : 0 < earlyExit.kernel.records.size := by decide +kernel
  have hdown : (earlyExit.kernel.process 1).exitSignal.tryDown = some {} := by decide +kernel
  have hended : (endWait Ram.services (earlyExit.kernel.process 0).pid 3 1).result
      (earlyExit.kernel.putSignal 1 {}) = (.ok (.reaped 7 3), _) :=
    Action.result_eq_ok (by decide +kernel)
  exact hexited.step (Step.waitMet hcaller hfound' hdown hended)

/-- The id 3 is free, and 4 is the next one. -/
theorem earlyCollected_table : earlyCollected.kernel.table.nextPid = 4 ∧
    earlyCollected.kernel.table.size < earlyCollected.kernel.table.capacity ∧
      earlyCollected.kernel.table.pids.all (· < earlyCollected.kernel.table.nextPid) = true ∧
        earlyCollected.kernel.table.get? Pid.lowest ≠ none ∧
          earlyCollected.kernel.table.get? 3 = none := by
  decide +kernel

theorem earlyCollected_records : earlyCollected.kernel.records.size = 2 ∧
    (earlyCollected.kernel.process 1).pid = 3 := by
  decide +kernel

/-- The first process forks in vain until the id 3 comes up again, and then forks a child that gets
it and exits with 9. When the first fork fails now, the code of that child is lost. -/
theorem exists_run_exit_lost : ∃ labels s a,
    Run Ram.services (System.empty { openMax := 4 } smallWorld) labels s ∧
      .forked 0 a ∈ labels ∧ firstExit a labels = some 9 ∧ collections a labels = 0 ∧
      (s.kernel.process a).state = .zombie 9 ∧
      (s.kernel.process a).parent = some (s.kernel.process 0).pid ∧
      ∀ threads, (wait Ram.services threads 0 (s.kernel.process a).pid 0).result s.kernel =
        (.error .noSuchProcess, s.kernel) := by
  obtain ⟨hnext, hroom, hpids, htaken, hfree⟩ := earlyCollected_table
  obtain ⟨hsize, hchild⟩ := earlyCollected_records
  have hduplicable := Ram.duplicateError_of_all (r := earlyCollected.kernel.shared.world)
    (by decide +kernel)
  have hp : 0 < earlyCollected.kernel.records.size := by
    rw [hsize]
    decide
  have hn : earlyCollected.kernel.table.nextPid.toNat + 32763 = Pid.highest.toNat := by
    rw [hnext]
    decide
  obtain ⟨labels, k, k', hround, hspent, -, hmade⟩ :=
    exists_run_round Ram.obliging hduplicable hp hroom
      (fun i hi => of_decide_eq_true (List.all_eq_true.1 hpids i hi)) hn htaken hfree
  have hforked : Run Ram.services _ _ _ := run_earlyCollected.trans hround
  have hgrown (q : ProcessId) (hq : q < 2) : q < k.records.size := by
    rw [hspent.records, hsize]
    exact Nat.lt_add_right _ hq
  have hreg : k'.Registered k.records.size := by
    rw [Registered, hmade.pid_eq, hmade.born.table, if_pos rfl]
  have hsame : (k'.process 1).pid = (k'.process k.records.size).pid := by
    rw [hmade.others 1 (hgrown 1 (by decide)), hspent.others 1 (hsize ▸ by decide), hchild,
      hmade.pid_eq]
    rfl
  obtain ⟨t, hlost, hfirst, hcount, hprocess, hnone⟩ :=
    hforked.orderly.exists_run_lost (S := Ram.services) (List.mem_cons_self ..) hreg
      (congrArg Life.state hmade.life) (Nat.ne_of_gt (hgrown 1 (by decide))) hsame 9
  have hafter := (Run.after hforked.orderly.sound hlost).1
  have hinit : (t.kernel.process 0).pid = (k.process 0).pid := by
    rw [hafter.pid 0 (Nat.lt_trans (hgrown 0 (by decide)) hmade.lt_size)]
    exact congrArg Process.pid (hmade.others 0 (hgrown 0 (by decide)))
  refine ⟨_, t, k.records.size, hforked.trans hlost, by simp, hfirst, hcount, ?_, ?_,
    fun threads => ?_⟩
  · rw [hprocess]
    rfl
  · rw [hprocess, hinit]
    exact congrArg Life.parent hmade.life
  · refine result_wait_of_free ?_ threads 0 0
    rw [hprocess]
    exact hnone

/-- A wait for a child that was collected fails with `invalidArgument` if it has options, and the
code of a child that has exited can be lost to a fork that was overtaken. -/
theorem rendezvous_exceptions :
    (∃ labels s t, Run Ram.services (System.empty { openMax := 4 } smallWorld) labels s ∧
      Step Ram.services s (.collected 0 1 3 7) t ∧
      ∀ threads, (wait Ram.services threads 0 3 1).result t.kernel =
        (.error .invalidArgument, t.kernel)) ∧
    ∃ labels s a, Run Ram.services (System.empty { openMax := 4 } smallWorld) labels s ∧
      .forked 0 a ∈ labels ∧ firstExit a labels = some 9 ∧ collections a labels = 0 ∧
      (s.kernel.process a).state = .zombie 9 ∧
      (s.kernel.process a).parent = some (s.kernel.process 0).pid ∧
      ∀ threads, (wait Ram.services threads 0 (s.kernel.process a).pid 0).result s.kernel =
        (.error .noSuchProcess, s.kernel) := by
  obtain ⟨t, hstep⟩ := step_exitedChild
  exact ⟨⟨_, _, t, run_exitedChild, hstep, fun threads => result_wait_of_options (by decide) _ _⟩,
    exists_run_exit_lost⟩

end UnixCore
