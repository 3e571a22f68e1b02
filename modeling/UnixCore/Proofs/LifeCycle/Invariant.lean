import UnixCore.Proofs.Descriptor.Linear
import UnixCore.Proofs.LifeCycle.Moves
import UnixCore.Proofs.Rendezvous.ExactlyOnce

/-! The life cycle of a process: its state, its registration, its exit signal, its threads and what
it holds agree between any two steps, whatever runs while a fork starts its child. -/

namespace UnixCore

open Kernel

variable {W : Type} {S : Services W} {k k' : Kernel W} {s s' : System W} {a p : ProcessId}

/-! ### Threads and holdings -/

/-- A running process has one thread and any other none, and one that was reaped holds nothing. -/
structure Process.Tidy (r : Process) : Prop where
  threads : r.threads = if r.state = .running then 1 else 0
  descriptors : r.state = .reaped → ∀ fd, r.descriptors.get? fd = none
  space : r.state = .reaped → r.space = none
  directory : r.state = .reaped → r.directory = none

namespace Process

variable {r : Process}

theorem Tidy.of_running (hstate : r.state = .running) (hthreads : r.threads = 1) : r.Tidy := by
  have hlive : r.state ≠ .reaped := by
    rw [hstate]
    nofun
  exact ⟨by rw [hthreads, if_pos hstate], fun h => (hlive h).elim, fun h => (hlive h).elim,
    fun h => (hlive h).elim⟩

theorem Tidy.threads_of_running (h : r.Tidy) (hstate : r.state = .running) : r.threads = 1 :=
  h.threads.trans (if_pos hstate)

theorem Tidy.threads_of_zombie (h : r.Tidy) {code : Int32} (hstate : r.state = .zombie code) :
    r.threads = 0 := by
  refine h.threads.trans (if_neg ?_)
  rw [hstate]
  nofun

theorem Tidy.detached (h : r.Tidy) : r.detachThread.threads = 0 := by
  show r.threads - 1 = 0
  rw [h.threads]
  split <;> rfl

theorem Tidy.exited (h : r.Tidy) (code : Int32) : (r.exited code).Tidy :=
  ⟨h.detached, nofun, nofun, nofun⟩

theorem tidy_reaped (hthreads : r.threads = 0) (t : DescriptorTable) : (r.reaped t.clear).Tidy :=
  ⟨hthreads, fun _ fd => DescriptorTable.get?_clear t fd, fun _ => rfl, fun _ => rfl⟩

end Process

namespace Kernel

def Tidy (k : Kernel W) : Prop := ∀ a < k.records.size, (k.process a).Tidy

theorem Tidy.of_records (h : k.Tidy) (hrecords : k'.records = k.records) : k'.Tidy := by
  intro a ha
  rw [hrecords] at ha
  rw [process, hrecords]
  exact h a ha

theorem Tidy.modifyProcess {f : Process → Process} (h : k.Tidy)
    (hf : p < k.records.size → (f (k.process p)).Tidy) : (modifyProcess p f k).Tidy := by
  intro a ha
  rw [size_modifyProcess] at ha
  by_cases hap : a = p
  · subst hap
    rw [process_modifyProcess_self f ha]
    exact hf ha
  · rw [process_modifyProcess_ne f hap]
    exact h a ha

/-- A running process keeps its thread whatever happens within its record. -/
theorem Tidy.within (h : k.Tidy) (hwithin : Within p k k')
    (hrunning : (k.process p).state = .running) : k'.Tidy := by
  intro a ha
  rw [hwithin.size] at ha
  by_cases hap : a = p
  · subst hap
    refine .of_running ?_ ?_
    · exact (congrArg Life.state hwithin.life).trans hrunning
    · exact hwithin.threads.trans ((h a ha).threads_of_running hrunning)
  · rw [hwithin.others a hap]
    exact h a ha

theorem Tidy.putSignal (h : k.Tidy) (signal : Semaphore) : (k.putSignal a signal).Tidy := by
  refine h.modifyProcess fun ha => ?_
  obtain ⟨hthreads, hdescriptors, hspace, hdirectory⟩ := h a ha
  exact ⟨hthreads, hdescriptors, hspace, hdirectory⟩

theorem Tidy.enterWait (h : k.Tidy) : (k.enterWait a).Tidy := by
  unfold Kernel.enterWait
  dsimp only
  split
  · exact Tidy.putSignal (k := report .secondWaiter k) h _
  · exact h.putSignal _

theorem tidy_reap (hothers : ∀ a < k.records.size, a ≠ p → (k.process a).Tidy)
    (hthreads : (k.process p).threads = 0) : (reap S p k).Tidy := by
  intro a ha
  rw [size_reap] at ha
  by_cases hap : a = p
  · subst hap
    rw [process_reap_self S ha]
    exact Process.tidy_reaped hthreads _
  · rw [process_reap_ne S hap]
    exact hothers a ha hap

theorem Tidy.made {pid : Pid} {parent : Option Pid} (h : k.Tidy)
    (hmade : Made pid parent 1 k k') : k'.Tidy := by
  intro a ha
  by_cases hlt : a < k.records.size
  · rw [hmade.others a hlt]
    exact h a hlt
  · have hself : a = k.records.size :=
      Nat.le_antisymm (Nat.le_of_lt_succ (Nat.lt_of_lt_of_eq ha hmade.size))
        (Nat.le_of_not_lt hlt)
    rw [hself]
    exact .of_running (congrArg Life.state hmade.life) hmade.threads

theorem Tidy.givenUp (h : k.Tidy) (hgiven : GivenUp S k k') : k'.Tidy := by
  obtain ⟨pid, k₁, hmade, rfl⟩ := hgiven
  refine tidy_reap (fun a ha hne => ?_) hmade.threads
  have hlt : a < k.records.size :=
    Nat.lt_of_le_of_ne (Nat.le_of_lt_succ (Nat.lt_of_lt_of_eq ha hmade.size)) hne
  show (k₁.process a).Tidy
  rw [hmade.others a hlt]
  exact h a hlt

theorem Tidy.setSpace_none (h : k.Tidy) : (setSpace S p none k).Tidy := by
  refine (h.modifyProcess (p := p) (f := ({ · with space := none })) fun hp => ?_).of_records
    (records_destroySpace S _)
  obtain ⟨hthreads, hdescriptors, -, hdirectory⟩ := h p hp
  exact ⟨hthreads, hdescriptors, fun _ => rfl, hdirectory⟩

theorem Tidy.setDirectory_none (h : k.Tidy) : (setDirectory S p none k).Tidy := by
  refine (h.modifyProcess (p := p) (f := ({ · with directory := none })) fun hp => ?_).of_records
    (records_dropDirectory S _)
  obtain ⟨hthreads, hdescriptors, hspace, -⟩ := h p hp
  exact ⟨hthreads, hdescriptors, hspace, fun _ => rfl⟩

theorem Tidy.clear (h : k.Tidy) :
    (onDescriptors p (modify (Descriptors.clear S))).Ensures k (fun _ k' => k'.Tidy)
      fun _ k' => k'.Tidy := by
  rw [onDescriptors, Action.ensures_onPart, Action.ensures_modify]
  refine (h.modifyProcess (p := p) (f := ({ · with
    descriptors := (k.process p).descriptors.clear })) fun hp => ?_).of_records rfl
  obtain ⟨hthreads, -, hspace, hdirectory⟩ := h p hp
  exact ⟨hthreads, fun _ fd => DescriptorTable.get?_clear _ fd, hspace, hdirectory⟩

end Kernel

theorem Operation.tidy {op : Operation} {r : Except Errno Unit} (h : k.Tidy)
    (hissued : op.Issued k) (hresult : (op.action S).result k = (r, k')) : k'.Tidy := by
  have hwithin {p : ProcessId} (hp : (k.process p).state = .running)
      (hact : WithinAction p (op.action S)) : k'.Tidy :=
    h.within ((hact k).result (P := fun k' => k.Within p k') hresult) hp
  cases op with
  | spawnInitial path args =>
    have hspawn : (action S (.spawnInitial path args)).Ensures k (fun _ k' => k'.Tidy)
        fun _ k' => k'.Tidy := by
      refine Action.ensures_map.2 (ensures_spawnInitial_made.mono ?_ ?_)
      · rintro - k' ⟨pid, hmade⟩
        exact h.made hmade
      · rintro - k' (rfl | hgiven)
        · exact h
        · exact h.givenUp hgiven
    exact hspawn.result hresult
  | exec p path args => exact hwithin hissued (withinAction_exec path args).map
  | exit p code =>
    have hexit : k' = k.exit p code := congrArg Prod.snd hresult.symm
    rw [hexit]
    rcases exit_cases p code k with ⟨-, heq⟩ | ⟨-, -, heq⟩ | ⟨-, -, heq⟩ <;> rw [heq]
    · exact h.of_records rfl
    · exact h
    · have hexited : (modifyProcess p (Process.exited code) k).Tidy :=
        h.modifyProcess fun hp => (h p hp).exited code
      exact hexited.of_records rfl
  | descriptors p call => exact hwithin hissued (withinAction_onDescriptors _)
  | enterDirectory p path flags =>
    refine hwithin hissued ((withinAction_onWorld _).bind fun vnode => ?_)
    exact withinAction_modify fun _ => within_setDirectory _
  | leaveDirectory p =>
    have hleave : k' = setDirectory S p none k := congrArg Prod.snd hresult.symm
    exact hleave ▸ h.setDirectory_none
  | shareDirectory p other =>
    exact hwithin hissued (withinAction_modify fun _ => within_shareDirectory _)
  | abandon p =>
    have habandon : (action S (.abandon p)).Ensures k (fun _ k' => k'.Tidy)
        fun _ k' => k'.Tidy := by
      simp only [action, Action.ensures_bind, Action.ensures_modify]
      exact h.setSpace_none.setDirectory_none.clear
    exact habandon.result hresult

theorem Effect.tidy {l : Label} (h : Effect S k l k') (hl : l.OfCall) (htidy : k.Tidy) :
    k'.Tidy := by
  cases h with
  | within | spawned | spawnFailed | exited => exact hl.elim
  | forkRefused | waitRefused => exact htidy
  | forkGivenUp h => exact htidy.givenUp h
  | forkBegun _ h => exact htidy.made h
  | forked => exact htidy.of_records rfl
  | @forkFailed _ a e ha =>
    let lost := Kernel.modifyProcess a Process.detachThread k
    refine tidy_reap (fun b hb hne => ?_) ?_
    · show (lost.process b).Tidy
      rw [process_modifyProcess_ne _ hne]
      exact htidy b (Nat.lt_of_lt_of_eq hb (size_modifyProcess _))
    · -- The child may have exited, and then its thread is gone already.
      show (lost.process a).threads = 0
      rw [process_modifyProcess_self _ ha]
      exact (htidy a ha).detached
  | waitBlocked => exact htidy.enterWait
  | wasted => exact htidy.putSignal _
  | @collected _ a code signal e ha hzombie =>
    have hput : (k.putSignal a signal).Tidy := htidy.putSignal signal
    have ha' : a < (k.putSignal a signal).records.size :=
      Nat.lt_of_lt_of_eq ha size_putSignal.symm
    have hreaped : (reap S a ((k.putSignal a signal).unregister (k.process a).pid)).Tidy :=
      tidy_reap (fun b hb _ => hput b hb)
        ((hput a ha').threads_of_zombie ((state_putSignal a).trans hzombie))
    exact hreaped.of_records rfl

theorem LiveStep.tidy {d : Deed} (hs : s.Sound) (hstep : LiveStep S s d s')
    (h : s.kernel.Tidy) : s'.kernel.Tidy := by
  cases hstep with
  | operate _ hissued hresult => exact Operation.tidy h hissued hresult
  | call hl hstep => exact (hstep.effect hs).tidy hl h

/-! ### Registration -/

theorem Move.reaped_cases {d : Deed} {st : ProcessState} (h : Move a d (some st) (some .reaped)) :
    st = .reaped ∨ (∃ caller pid code, d = .call (.collected caller a pid code)) ∨
      ∃ parent, d = .call (.forkFailed parent a) := by
  cases h with
  | stays => exact .inl rfl
  | collected => exact .inr (.inl ⟨_, _, _, rfl⟩)
  | forkFailed => exact .inr (.inr ⟨_, rfl⟩)

/-- A process is unregistered by the step that reaps it. -/
theorem LiveStep.unregisters {d : Deed} (hs : s.Sound) (hstep : LiveStep S s d s')
    (ha : a < s.kernel.records.size) (hstate : (s.kernel.process a).state ≠ .reaped)
    (hreaped : s'.kernel.state? a = some .reaped) :
    s'.kernel.table.get? (s.kernel.process a).pid = none := by
  have hmove := hstep.move hs a
  rw [state?_of_lt ha, hreaped] at hmove
  have hchange := hstep.step.change hs
  rcases hmove.reaped_cases with hst | ⟨caller, pid, code, rfl⟩ | ⟨parent, rfl⟩
  · exact (hstate hst).elim
  · exact (hchange.cleared rfl).2
  · exact (hchange.cleared rfl).2

/-- What holds between any two steps besides what is told from the steps so far. -/
structure System.Settled (s : System W) : Prop where
  tidy : s.kernel.Tidy
  live : ∀ pid a, s.kernel.table.get? pid = some a → (s.kernel.process a).state ≠ .reaped

theorem System.Settled.step {d : Deed} (h : s.Settled) (hs : s.Sound)
    (hstep : LiveStep S s d s') : s'.Settled := by
  refine ⟨hstep.tidy hs h.tidy, fun pid a hfound hreaped => ?_⟩
  have hchange := hstep.step.change hs
  rcases hchange.after.found pid a hfound with hold | ⟨hle, hlt, hpid⟩
  · obtain ⟨ha, hpid⟩ := hs.table pid a hold
    have hstate : s'.kernel.state? a = some .reaped := by
      rw [state?_of_lt (Nat.lt_of_lt_of_le ha hchange.after.size_le), hreaped]
    have hfree := hstep.unregisters hs ha (h.live pid a hold) hstate
    rw [hpid] at hfree
    cases hfree.symm.trans hfound
  · obtain ⟨rfl, -, ⟨_, _, hborn⟩ | ⟨-, hborn⟩⟩ := hchange.new hle hlt
    · cases (congrArg Life.state hborn.born).symm.trans hreaped
    · rw [hborn.table] at hfound
      exact Nat.lt_irrefl _ (hs.table pid _ hfound).1

theorem settled_empty (config : Config) (world : W) : (System.empty config world).Settled := by
  refine ⟨nofun, fun pid a hfound => ?_⟩
  cases (Std.TreeMap.getElem?_emptyc (a := pid)).symm.trans hfound

variable {deeds : List Deed}

theorem LiveRun.settled {config : Config} {world : W}
    (run : LiveRun S (System.empty config world) deeds s) : s.Settled := by
  induction run with
  | start => exact settled_empty config world
  | step run hstep ih => exact ih.step (LiveRun.run run).orderly.sound hstep

/-! ### The life cycle -/

/-- What a state can be followed by, at once or later. The code of a zombie never changes. -/
inductive ProcessState.Precedes : ProcessState → ProcessState → Prop
  | refl (st : ProcessState) : Precedes st st
  | exited (code : Int32) : Precedes .running (.zombie code)
  | reaped (st : ProcessState) : Precedes st .reaped

theorem ProcessState.Precedes.trans {st st' st'' : ProcessState} (h : st.Precedes st')
    (h' : st'.Precedes st'') : st.Precedes st'' := by
  cases h' with
  | refl => exact h
  | reaped => exact .reaped st
  | exited code =>
    cases h with
    | refl => exact .exited code

theorem Move.precedes {d : Deed} {st : ProcessState} {st' : Option ProcessState}
    (h : Move a d (some st) st') : ∃ st'', st' = some st'' ∧ st.Precedes st'' := by
  cases h with
  | stays => exact ⟨st, rfl, .refl st⟩
  | exited => exact ⟨_, rfl, .exited _⟩
  | collected => exact ⟨_, rfl, .reaped _⟩
  | forkFailed => exact ⟨_, rfl, .reaped st⟩

theorem LiveRun.precedes {st : ProcessState} (hs : s.Sound) (run : LiveRun S s deeds s')
    (hst : s.kernel.state? a = some st) :
    ∃ st', s'.kernel.state? a = some st' ∧ st.Precedes st' := by
  induction run with
  | start => exact ⟨st, hst, .refl st⟩
  | step run hstep ih =>
    obtain ⟨st', hst', hprecedes⟩ := ih
    have hmove := hstep.move ((LiveRun.run run).after hs).2 a
    rw [hst'] at hmove
    obtain ⟨st'', hst'', hprecedes'⟩ := hmove.precedes
    exact ⟨st'', hst'', hprecedes.trans hprecedes'⟩

theorem Deed.eq_call_of_label {d : Deed} {parent child : ProcessId}
    (h : d.label = .forkBegun parent child) : d = .call (.forkBegun parent child) := by
  cases d with
  | operation op r => cases op <;> cases h
  | call l => exact congrArg Deed.call h

theorem LiveRun.forkBegun_of_pending {config : Config} {world : W}
    (run : LiveRun S (System.empty config world) deeds s) :
    ∀ f ∈ s.forks, .call (.forkBegun f.parent f.child) ∈ deeds := by
  induction run with
  | start => nofun
  | @step deeds d s s' _ hstep ih =>
    have hkeep : ∀ f ∈ s.forks, .call (.forkBegun f.parent f.child) ∈ deeds ++ [d] :=
      fun f hf => List.mem_append_left _ (ih f hf)
    rcases hstep.step.forks_cases with ⟨heq, -⟩ | ⟨g, -, heq, -⟩ | ⟨parent, pid, heq, -, hl⟩ <;>
      rw [heq]
    · exact hkeep
    · exact fun f hf => hkeep f (List.mem_of_mem_erase hf)
    · intro f hf
      rcases List.mem_cons.1 hf with rfl | hf
      · rw [Deed.eq_call_of_label hl]
        exact List.mem_append_right _ (List.mem_singleton_self _)
      · exact hkeep f hf

theorem LiveStep.pending_of_forkFailed {parent : ProcessId}
    (hstep : LiveStep S s (.call (.forkFailed parent a)) s') :
    ∃ f ∈ s.forks, f.parent = parent ∧ f.child = a := by
  rcases hstep.step.forks_cases with ⟨-, hnone⟩ | ⟨f, hf, -, hl | hl⟩ | ⟨_, _, _, _, hl⟩
  · exact (hnone a rfl).elim
  · cases hl
  · obtain ⟨hparent, hchild⟩ := Label.forkFailed.inj hl
    exact ⟨f, hf, hparent.symm, hchild.symm⟩
  · cases hl

/-- What holds of every process between any two steps. -/
structure LifeCycle (S : Services W) (deeds : List Deed) (s : System W) : Prop where
  /-- A state moves in the ways listed by `Move` only: it is `reaped` by a wait that returns a code,
  or because a fork or a start failed. -/
  moves : ∀ d t, LiveStep S s d t → ∀ a, Move a d (s.kernel.state? a) (t.kernel.state? a)
  /-- The process that a failed fork gives up is the one it made. -/
  begun : ∀ parent a t, LiveStep S s (.call (.forkFailed parent a)) t →
    .call (.forkBegun parent a) ∈ deeds
  later : ∀ after t, LiveRun S s after t → ∀ a st, s.kernel.state? a = some st →
    ∃ st', t.kernel.state? a = some st' ∧ st.Precedes st'
  registered : ∀ pid a, s.kernel.table.get? pid = some a →
    a < s.kernel.records.size ∧ (s.kernel.process a).pid = pid ∧
      ((s.kernel.process a).state = .running ∧ (s.kernel.process a).exitSignal.count = 0 ∨
        ∃ code, (s.kernel.process a).state = .zombie code ∧
          (s.kernel.process a).exitSignal.count = 1)
  threads : ∀ a < s.kernel.records.size, (s.kernel.process a).threads =
    if (s.kernel.process a).state = .running then 1 else 0
  reaped : ∀ a < s.kernel.records.size, (s.kernel.process a).state = .reaped →
    (∀ pid, s.kernel.table.get? pid ≠ some a) ∧
      (∀ fd, (s.kernel.process a).descriptors.get? fd = none) ∧
        (s.kernel.process a).space = none ∧ (s.kernel.process a).directory = none
  /-- An exit of a record that is not the registered one under its id is only noted in the log. -/
  strayExit : ∀ a code, ¬ s.kernel.Registered a →
    s.kernel.exit a code = s.kernel.report (.strayExit (s.kernel.process a).pid)
  /-- An exit of a process that has exited already does nothing. -/
  secondExit : ∀ a code, s.kernel.Registered a → (s.kernel.process a).state ≠ .running →
    s.kernel.exit a code = s.kernel

theorem System.Settled.registered (h : s.Settled) {labels : List Label} (ho : Orderly labels s)
    {pid : Pid} (hfound : s.kernel.table.get? pid = some a) :
    (s.kernel.process a).state = .running ∧ (s.kernel.process a).exitSignal.count = 0 ∨
      ∃ code, (s.kernel.process a).state = .zombie code ∧
        (s.kernel.process a).exitSignal.count = 1 := by
  have hstage := ho.stage a (ho.sound.table pid a hfound).1
  cases hstate : (s.kernel.process a).state with
  | running => exact .inl ⟨rfl, (hstage.of_running hstate).1⟩
  | zombie code => exact .inr ⟨code, rfl, (hstage.of_zombie hstate).1⟩
  | reaped => exact (h.live pid a hfound hstate).elim

/-- The life cycle of the processes, in every run and whatever runs while a fork starts its child.
-/
theorem life_cycle {config : Config} {world : W}
    (run : LiveRun S (System.empty config world) deeds s) : LifeCycle S deeds s := by
  have ho := run.run.orderly
  have h := run.settled
  refine ⟨fun d t hstep a => hstep.move ho.sound a, fun parent a t hstep => ?_,
    fun after t run' a st hst => run'.precedes ho.sound hst, fun pid a hfound => ?_,
    fun a ha => (h.tidy a ha).threads, fun a ha hreaped => ?_, fun a code hreg => ?_,
    fun a code hreg hstate => ?_⟩
  · obtain ⟨f, hf, rfl, rfl⟩ := hstep.pending_of_forkFailed
    exact run.forkBegun_of_pending f hf
  · obtain ⟨ha, hpid⟩ := ho.sound.table pid a hfound
    exact ⟨ha, hpid, h.registered ho hfound⟩
  · obtain ⟨-, hdescriptors, hspace, hdirectory⟩ := h.tidy a ha
    exact ⟨fun pid hfound => h.live pid a hfound hreaped, hdescriptors hreaped, hspace hreaped,
      hdirectory hreaped⟩
  · rcases exit_cases a code s.kernel with ⟨-, heq⟩ | ⟨hreg', -⟩ | ⟨hreg', -⟩
    · exact heq
    · exact (hreg hreg').elim
    · exact (hreg hreg').elim
  · rcases exit_cases a code s.kernel with ⟨hreg', -⟩ | ⟨-, -, heq⟩ | ⟨-, hrunning, -⟩
    · exact (hreg' hreg).elim
    · exact heq
    · exact (hstate hrunning).elim

theorem exists_liveRun_exitedChild : ∃ deeds, LiveRun Ram.services
    (System.empty { openMax := 4 } smallWorld) deeds { kernel := exitedChild } := by
  have hstart : LiveRun Ram.services (System.empty { openMax := 4 } smallWorld) [] _ := .start
  have hstarted := hstart.step
    (@LiveStep.operate _ _ _ (.spawnInitial "bin/init" ["init"]) _ _ trivial trivial rfl)
  have hbegun := hstarted.step (.call (l := .forkBegun 0 1) trivial
    (.forkBegun (by decide +kernel)
      (Action.eq_ok_of_result (Action.result_eq_ok (by decide +kernel)))))
  have hforked := hbegun.step (.call (l := .forked _ _) trivial
    (@Step.forked _ _ _ _ 3 _ (List.mem_cons_self ..)
      (Action.eq_ok_of_result (Action.result_eq_ok (by decide +kernel)))))
  rw [List.erase_cons_head] at hforked
  exact ⟨_, hforked.step
    (@LiveStep.operate _ _ _ (.exit 1 7) _ _ (show 1 < _ by decide +kernel) trivial rfl)⟩

/-- The child that exited has no thread, and its code stays 7 until it is collected. -/
theorem life_cycle_exitedChild : (exitedChild.process 0).threads = 1 ∧
    (exitedChild.process 1).threads = 0 ∧ (exitedChild.process 1).exitSignal.count = 1 ∧
      ∀ after t, LiveRun Ram.services { kernel := exitedChild } after t →
        t.kernel.state? 1 = some (.zombie 7) ∨ t.kernel.state? 1 = some .reaped := by
  obtain ⟨deeds, run⟩ := exists_liveRun_exitedChild
  have h := life_cycle run
  have hsize : exitedChild.records.size = 2 := by decide +kernel
  have hrunning : (exitedChild.process 0).state = .running := by decide +kernel
  have hzombie : (exitedChild.process 1).state = .zombie 7 := by decide +kernel
  have hfound : exitedChild.table.get? 3 = some 1 := by decide +kernel
  have hchild : 1 < exitedChild.records.size := hsize ▸ Nat.lt_succ_self 1
  refine ⟨?_, ?_, ?_, fun after t run' => ?_⟩
  · exact (h.threads 0 (Nat.lt_trans Nat.zero_lt_one hchild)).trans (if_pos hrunning)
  · exact (h.threads 1 hchild).trans (if_neg (hzombie ▸ nofun))
  · obtain ⟨-, -, ⟨hrunning, -⟩ | ⟨-, -, hunits⟩⟩ := h.registered 3 1 hfound
    · cases hzombie.symm.trans hrunning
    · exact hunits
  · obtain ⟨st, hst, hprecedes⟩ := h.later after t run' 1 (.zombie 7)
      ((state?_of_lt hchild).trans (congrArg some hzombie))
    cases hprecedes with
    | refl => exact .inl hst
    | reaped => exact .inr hst

end UnixCore
