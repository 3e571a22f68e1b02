import UnixCore.Proofs.Fork.Stages
import UnixCore.Proofs.Kernel.Lives

/-! What one step of a system can do to the lives of the processes. -/

namespace UnixCore

variable {W : Type} {S : Services W}

/-- A record is the one registered under its id. -/
def Kernel.Registered (k : Kernel W) (a : ProcessId) : Prop :=
  k.table.get? (k.process a).pid = some a

instance (k : Kernel W) (a : ProcessId) : Decidable (k.Registered a) :=
  inferInstanceAs (Decidable (_ = _))

/-- The records that the registry and the calls under way refer to are there and have the ids by
which they were found, and no two forks are of one child. -/
structure System.Sound (s : System W) : Prop where
  table : ∀ pid a, s.kernel.table.get? pid = some a →
    a < s.kernel.records.size ∧ (s.kernel.process a).pid = pid
  forks_lt : ∀ f ∈ s.forks, f.child < s.kernel.records.size
  forks_nodup : (s.forks.map (·.child)).Nodup
  waits : ∀ w ∈ s.waits,
    w.child < s.kernel.records.size ∧ (s.kernel.process w.child).pid = w.pid

namespace Kernel

variable {k k' k'' : Kernel W} {a p : ProcessId} {pid : Pid} {signal : Semaphore}

/-- Nothing happens to the life of any process, but others may wait for its exit. -/
structure Calm (k k' : Kernel W) : Prop where
  table : k'.table = k.table
  size : k'.records.size = k.records.size
  pid : ∀ p, (k'.process p).pid = (k.process p).pid
  parent : ∀ p, (k'.process p).parent = (k.process p).parent
  state : ∀ p, (k'.process p).state = (k.process p).state
  units : ∀ p, (k'.process p).exitSignal.count = (k.process p).exitSignal.count

theorem Quiet.calm (h : Quiet k k') : Calm k k' where
  table := h.table
  size := h.size
  pid p := congrArg Life.pid (h.life p)
  parent p := congrArg Life.parent (h.life p)
  state p := congrArg Life.state (h.life p)
  units p := congrArg (·.signal.count) (h.life p)

@[simp] theorem size_putSignal : (k.putSignal a signal).records.size = k.records.size :=
  size_modifyProcess _

theorem life_putSignal_self (ha : a < k.records.size) :
    ((k.putSignal a signal).process a).life = { (k.process a).life with signal } :=
  congrArg Process.life (process_modifyProcess_self _ ha)

theorem life_putSignal_ne (h : p ≠ a) :
    ((k.putSignal a signal).process p).life = (k.process p).life :=
  congrArg Process.life (process_modifyProcess_ne _ h)

theorem state_putSignal (p : ProcessId) :
    ((k.putSignal a signal).process p).state = (k.process p).state := by
  by_cases hp : p = a
  · subst hp
    by_cases hlt : p < k.records.size
    · exact congrArg Life.state (life_putSignal_self hlt)
    · rw [process, putSignal, modifyProcess, records_modify_of_le (Nat.le_of_not_lt hlt), process]
  · exact congrArg Life.state (life_putSignal_ne hp)

theorem calm_enterWait (ha : a < k.records.size) : Calm k (k.enterWait a) := by
  -- `k'` is `k` or `k` with one line more in the log
  have hput (k' : Kernel W) (h : Quiet k k') :
      Calm k (k'.putSignal a (k.process a).exitSignal.enter) := by
    have ha' : a < k'.records.size := by
      rw [h.size]
      exact ha
    have hlife (p : ProcessId) :
        ((k'.putSignal a (k.process a).exitSignal.enter).process p).life =
          { (k.process p).life with
            signal := if p = a then (k.process p).exitSignal.enter
              else (k.process p).exitSignal } := by
      by_cases hp : p = a
      · subst hp
        rw [life_putSignal_self ha', h.life, if_pos rfl]
      · rw [life_putSignal_ne hp, h.life, if_neg hp]
        rfl
    refine ⟨h.table, (size_modifyProcess _).trans h.size, fun p => congrArg Life.pid (hlife p),
      fun p => congrArg Life.parent (hlife p), fun p => congrArg Life.state (hlife p), fun p => ?_⟩
    apply (congrArg (·.signal.count) (hlife p)).trans
    dsimp only
    split <;> rfl
  unfold enterWait
  dsimp only
  split
  · exact hput _ (quiet_report _)
  · exact hput k (.refl k)

end Kernel

/-! ### The effects -/

open Kernel in
/-- What a step can do to the kernel. -/
inductive Effect (S : Services W) (k : Kernel W) : Label → Kernel W → Prop
  | within {p : ProcessId} {k' : Kernel W} : Within p k k' → Effect S k .worked k'
  | spawned {pid : Pid} {k' : Kernel W} : Made pid none 1 k k' → Effect S k .worked k'
  | spawnFailed {k' : Kernel W} : GivenUp S k k' → Effect S k .worked k'
  | exited {a : ProcessId} {code : Int32} : a < k.records.size →
    Effect S k (.exited a code) (k.exit a code)
  | forkRefused {parent : ProcessId} {e : Errno} : Effect S k (.forkRefused parent e) k
  | forkGivenUp {parent : ProcessId} {e : Errno} {k' : Kernel W} : GivenUp S k k' →
    Effect S k (.forkRefused parent e) k'
  | forkBegun {parent : ProcessId} {pid : Pid} {k' : Kernel W} : parent < k.records.size →
    Made pid (some (k.process parent).pid) 1 k k' →
    Effect S k (.forkBegun parent k.records.size) k'
  | forked {parent a : ProcessId} (e : Event) : Effect S k (.forked parent a) (k.report e)
  | forkFailed {parent a : ProcessId} (e : Event) : a < k.records.size →
    Effect S k (.forkFailed parent a)
      (discard S a (report e (modifyProcess a Process.detachThread k)))
  | waitRefused {caller : ProcessId} {e : Errno} : Effect S k (.waitFailed caller e) k
  | waitBlocked {caller a : ProcessId} : a < k.records.size →
    Effect S k (.waitBlocked caller a) (k.enterWait a)
  /-- A wait takes the exit signal of a process that is no zombie. -/
  | wasted {caller a : ProcessId} {signal : Semaphore} : a < k.records.size →
    (∀ code, (k.process a).state ≠ .zombie code) →
    signal.count.toNat + 1 = (k.process a).exitSignal.count.toNat →
    Effect S k (.waitFailed caller .noSuchProcess) (k.putSignal a signal)
  | collected {caller a : ProcessId} {code : Int32} {signal : Semaphore} (e : Event) :
    a < k.records.size → (k.process a).state = .zombie code →
    signal.count.toNat + 1 = (k.process a).exitSignal.count.toNat →
    Effect S k (.collected caller a (k.process a).pid code)
      (report e (reap S a ((k.putSignal a signal).unregister (k.process a).pid)))

/-- An operation that is not about the end of a process and makes none works within one record. -/
theorem Operation.exists_within {op : Operation} (hworked : op.label = .worked)
    (hspawn : ∀ path args, op ≠ .spawnInitial path args) :
    ∃ p, Kernel.WithinAction p (op.action S) := by
  cases op with
  | spawnInitial path args => exact (hspawn path args rfl).elim
  | exec p path args => exact ⟨p, (Kernel.withinAction_exec path args).map⟩
  | exit p code => cases hworked
  | descriptors p call => exact ⟨p, Kernel.withinAction_onDescriptors _⟩
  | enterDirectory p path flags =>
    refine ⟨p, (Kernel.withinAction_onWorld _).bind fun vnode => ?_⟩
    exact Kernel.withinAction_modify fun _ => Kernel.within_setDirectory _
  | leaveDirectory p =>
    exact ⟨p, Kernel.withinAction_modify fun _ => Kernel.within_setDirectory _⟩
  | shareDirectory p other =>
    exact ⟨p, Kernel.withinAction_modify fun _ => Kernel.within_shareDirectory _⟩
  | abandon p =>
    refine ⟨p, (Kernel.withinAction_modify fun _ => Kernel.within_setSpace _).bind fun _ => ?_⟩
    refine (Kernel.withinAction_modify fun _ => Kernel.within_setDirectory _).bind fun _ => ?_
    exact Kernel.withinAction_onDescriptors _

theorem Operation.effect {op : Operation} {k : Kernel W} (hvalid : op.Valid k) :
    Effect S k op.label (op.run S k) := by
  have hwithin (hworked : op.label = .worked) (hspawn : ∀ path args, op ≠ .spawnInitial path args) :
      Effect S k op.label (op.run S k) := by
    obtain ⟨p, hwithin⟩ := exists_within (S := S) hworked hspawn
    rw [hworked]
    exact .within ((hwithin k).result (P := fun k' => k.Within p k') rfl)
  cases op with
  | spawnInitial path args =>
    have hspawn : (action S (.spawnInitial path args)).Ensures k
        (fun _ k' => Effect S k .worked k') fun _ k' => Effect S k .worked k' := by
      refine Action.ensures_map.2 (Kernel.ensures_spawnInitial_made.mono ?_ ?_)
      · rintro - k' ⟨pid, h⟩
        exact .spawned h
      · rintro - k' (rfl | h)
        · exact .within (.refl (p := 0) k')
        · exact .spawnFailed h
    exact hspawn.result rfl
  | exit p code => exact .exited hvalid
  | _ => exact hwithin rfl nofun

open Kernel in
theorem effect_endWait {k k' : Kernel W} {caller a : ProcessId} {callerPid pid : Pid}
    {signal : Semaphore} {r : Except Errno Waited}
    (ha : a < k.records.size ∧ (k.process a).pid = pid)
    (hunits : signal.count.toNat + 1 = (k.process a).exitSignal.count.toNat)
    (hend : (endWait S callerPid pid a).result (k.putSignal a signal) = (r, k')) :
    Effect S k (.ofWait caller a r) k' := by
  obtain ⟨hlt, rfl⟩ := ha
  have hended := (ensures_endWait_eq (S := S)).of_result hend
  cases r with
  | ok r =>
    obtain ⟨code, hzombie, rfl, rfl⟩ := hended
    rw [state_putSignal] at hzombie
    exact .collected _ hlt hzombie hunits
  | error e =>
    obtain ⟨hnozombie, rfl, rfl⟩ := hended
    refine .wasted hlt (fun code => ?_) hunits
    rw [← state_putSignal a]
    exact hnozombie code

theorem Step.effect {s s' : System W} {l : Label} (h : s.Sound) (hstep : Step S s l s') :
    Effect S s.kernel l s'.kernel := by
  cases hstep with
  | operate hvalid => exact Operation.effect hvalid
  | forkRefused hparent hrun =>
    rcases (Kernel.ensures_beginFork_made hparent).of_error hrun with rfl | hgiven
    · exact .forkRefused
    · exact .forkGivenUp hgiven
  | forkBegun hparent hrun =>
    obtain ⟨rfl, pid, hmade⟩ := (Kernel.ensures_beginFork_made hparent).of_ok hrun
    exact .forkBegun hparent hmade
  | forked _ hrun =>
    obtain ⟨-, rfl⟩ := Kernel.ensures_endFork_eq.of_ok hrun
    exact .forked _
  | forkFailed hf hrun =>
    obtain ⟨e, -, rfl⟩ := Kernel.ensures_endFork_eq.of_error hrun
    exact .forkFailed _ (h.forks_lt _ hf)
  | waitRefused _ hrun =>
    obtain ⟨-, rfl⟩ := Kernel.ensures_beginWait.of_error hrun
    exact .waitRefused
  | waitBlocked _ hrun =>
    obtain ⟨rfl, -, hfound, -⟩ := Kernel.ensures_beginWait.of_ok hrun
    exact .waitBlocked (h.table _ _ hfound).1
  | waitMet _ hrun hdown hend =>
    obtain ⟨rfl, -, hfound, -⟩ := Kernel.ensures_beginWait.of_ok hrun
    exact effect_endWait (h.table _ _ hfound) (Semaphore.toNat_count_of_tryDown hdown).1 hend
  | waitWoken hw hdown hend =>
    refine effect_endWait (h.waits _ hw) ?_ hend
    exact (Semaphore.toNat_count_of_tryDown hdown).1

/-! ### The changes -/

/-- A step that is about the end of no process. -/
def Label.Silent : Label → Prop
  | .worked | .forkRefused _ _ | .forkBegun _ _ | .forked _ _ | .waitBlocked _ _ => True
  | _ => False

open Kernel in
inductive Change (k : Kernel W) : Label → Kernel W → Prop
  | calm {l : Label} {k' : Kernel W} : l.Silent → Calm k k' → Change k l k'
  | born {l : Label} {pid : Pid} {parent : Option Pid} {k' : Kernel W} :
    l.Silent → Born pid parent k k' → Change k l k'
  | stillborn {l : Label} {k' : Kernel W} :
    l.Silent → (∀ parent child, l ≠ .forkBegun parent child) → Stillborn k k' → Change k l k'
  | exited {a : ProcessId} {code : Int32} {k' : Kernel W} :
    a < k.records.size → k.Registered a → (k.process a).state = .running →
    Quiet (modifyProcess a (Process.exited code) k) k' → Change k (.exited a code) k'
  | exitIgnored {a : ProcessId} {code : Int32} {k' : Kernel W} :
    a < k.records.size → (k.Registered a → (k.process a).state ≠ .running) → Quiet k k' →
    Change k (.exited a code) k'
  | forkFailed {parent a : ProcessId} {k' : Kernel W} :
    a < k.records.size → Gone (k.process a).pid a k k' → Change k (.forkFailed parent a) k'
  | refused {caller : ProcessId} {e : Errno} : Change k (.waitFailed caller e) k
  /-- A wait takes the exit signal of a process that is no zombie. -/
  | wasted {caller a : ProcessId} {signal : Semaphore} :
    a < k.records.size → (∀ code, (k.process a).state ≠ .zombie code) →
    signal.count.toNat + 1 = (k.process a).exitSignal.count.toNat →
    Change k (.waitFailed caller .noSuchProcess) (k.putSignal a signal)
  | collected {caller a : ProcessId} {code : Int32} {signal : Semaphore} {k' : Kernel W} :
    a < k.records.size → (k.process a).state = .zombie code →
    signal.count.toNat + 1 = (k.process a).exitSignal.count.toNat →
    Gone (k.process a).pid a (k.putSignal a signal) k' →
    Change k (.collected caller a (k.process a).pid code) k'

open Kernel in
theorem Effect.change {k k' : Kernel W} {l : Label} (h : Effect S k l k') : Change k l k' := by
  cases h with
  | within h => exact .calm trivial h.quiet.calm
  | spawned h => exact .born trivial h.born
  | spawnFailed h => exact .stillborn trivial nofun h.stillborn
  | @exited a code ha =>
    rcases exit_cases a code k with ⟨hreg, heq⟩ | ⟨-, hstate, heq⟩ | ⟨hreg, hstate, heq⟩ <;>
      rw [heq]
    · exact .exitIgnored ha (fun h => (hreg h).elim) (quiet_report _)
    · exact .exitIgnored ha (fun _ => hstate) (.refl k)
    · exact .exited ha hreg hstate (quiet_report _)
  | forkRefused => exact .calm trivial (Quiet.refl _).calm
  | forkGivenUp h => exact .stillborn trivial nofun h.stillborn
  | forkBegun _ h => exact .born trivial h.born
  | forked e => exact .calm trivial (quiet_report e).calm
  | forkFailed e ha => exact .forkFailed ha (gone_discard (quiet_lostThread e) ha)
  | waitRefused => exact .refused
  | waitBlocked ha => exact .calm trivial (calm_enterWait ha)
  | wasted ha hstate hunits => exact .wasted ha hstate hunits
  | @collected _ a _ signal e ha hstate hunits =>
    have ha' : a < (k.putSignal a signal).records.size := Nat.lt_of_lt_of_eq ha size_putSignal.symm
    exact .collected ha hstate hunits ((gone_reap ha').trans_quiet (quiet_report e))

/-- Every step is one of the changes. -/
theorem Step.change {s s' : System W} {l : Label} (h : s.Sound) (hstep : Step S s l s') :
    Change s.kernel l s'.kernel :=
  (hstep.effect h).change

/-! ### What every change leaves alone -/

namespace Kernel

/-- Records stay, with their ids and parents, and whoever is found under an id was found there
before or is new. -/
structure After (k k' : Kernel W) : Prop where
  size_le : k.records.size ≤ k'.records.size
  pid : ∀ p < k.records.size, (k'.process p).pid = (k.process p).pid
  parent : ∀ p < k.records.size, (k'.process p).parent = (k.process p).parent
  found : ∀ pid a, k'.table.get? pid = some a → k.table.get? pid = some a ∨
    k.records.size ≤ a ∧ a < k'.records.size ∧ (k'.process a).pid = pid

namespace After

variable {k k' k'' : Kernel W}

theorem refl (k : Kernel W) : After k k :=
  ⟨Nat.le_refl _, fun _ _ => rfl, fun _ _ => rfl, fun _ _ h => .inl h⟩

theorem trans (h : After k k') (h' : After k' k'') : After k k'' := by
  refine ⟨Nat.le_trans h.size_le h'.size_le, fun p hp => ?_, fun p hp => ?_, fun pid a ha => ?_⟩
  · exact (h'.pid p (Nat.lt_of_lt_of_le hp h.size_le)).trans (h.pid p hp)
  · exact (h'.parent p (Nat.lt_of_lt_of_le hp h.size_le)).trans (h.parent p hp)
  · rcases h'.found pid a ha with ha' | ⟨hle, hlt, hpid⟩
    · rcases h.found pid a ha' with hold | ⟨hle, hlt, hpid⟩
      · exact .inl hold
      · exact .inr ⟨hle, Nat.lt_of_lt_of_le hlt h'.size_le, (h'.pid a hlt).trans hpid⟩
    · exact .inr ⟨Nat.le_trans h.size_le hle, hlt, hpid⟩

theorem of_records (hsize : k'.records.size = k.records.size)
    (hrecords : ∀ p, (k'.process p).pid = (k.process p).pid ∧
      (k'.process p).parent = (k.process p).parent)
    (htable : ∀ pid a, k'.table.get? pid = some a → k.table.get? pid = some a) : After k k' where
  size_le := by omega
  pid p _ := (hrecords p).1
  parent p _ := (hrecords p).2
  found pid a ha := .inl (htable pid a ha)

end After

variable {k k' : Kernel W} {a : ProcessId} {pid : Pid} {parent : Option Pid} {signal : Semaphore}

theorem Calm.after (h : Calm k k') : After k k' :=
  .of_records h.size (fun p => ⟨h.pid p, h.parent p⟩) fun _ _ ha => h.table ▸ ha

theorem Gone.after (h : Gone pid a k k') : After k k' := by
  apply After.of_records h.size
  · intro p
    by_cases hp : p = a
    · subst hp
      exact ⟨congrArg Life.pid h.gone, congrArg Life.parent h.gone⟩
    · exact ⟨congrArg Life.pid (h.life p hp), congrArg Life.parent (h.life p hp)⟩
  · intro i b hb
    rw [h.table] at hb
    split at hb
    · cases hb
    · exact hb

theorem Born.after (h : Born pid parent k k') : After k k' := by
  have hlt := h.lt_size
  refine ⟨by omega, fun p hp => congrArg Life.pid (h.life p hp),
    fun p hp => congrArg Life.parent (h.life p hp), fun i b hb => ?_⟩
  rw [h.table] at hb
  split at hb
  case isTrue hi =>
    cases hb
    exact .inr ⟨Nat.le_refl _, hlt, h.pid_eq.trans hi.symm⟩
  case isFalse => exact .inl hb

theorem Stillborn.after (h : Stillborn k k') : After k k' := by
  have hsize := h.size
  exact ⟨by omega, fun p hp => congrArg Life.pid (h.life p hp),
    fun p hp => congrArg Life.parent (h.life p hp), fun i b hb => .inl (h.table i ▸ hb)⟩

theorem after_putSignal (ha : a < k.records.size) : After k (k.putSignal a signal) := by
  refine .of_records (size_modifyProcess _) (fun p => ?_) fun _ _ h => h
  by_cases hp : p = a
  · subst hp
    have hlife : ((k.putSignal p signal).process p).life = _ := life_putSignal_self ha
    exact ⟨congrArg Life.pid hlife, congrArg Life.parent hlife⟩
  · have hlife : ((k.putSignal a signal).process p).life = _ := life_putSignal_ne hp
    exact ⟨congrArg Life.pid hlife, congrArg Life.parent hlife⟩

theorem life_exited {code : Int32} (ha : a < k.records.size)
    (h : Quiet (modifyProcess a (Process.exited code) k) k') (p : ProcessId) :
    (k'.process p).life = if p = a then
      { (k.process a).life with
        state := .zombie code, signal := (k.process a).exitSignal.up }
      else (k.process p).life := by
  rw [h.life]
  split
  case isTrue hp =>
    subst hp
    rw [process_modifyProcess_self _ ha]
    rfl
  case isFalse hp => rw [process_modifyProcess_ne _ hp]

end Kernel

open Kernel

theorem Change.after {k k' : Kernel W} {l : Label} (h : Change k l k') : After k k' := by
  cases h with
  | calm _ h => exact h.after
  | born _ h => exact h.after
  | stillborn _ _ h => exact h.after
  | @exited a code _ ha _ _ h =>
    refine .of_records (h.size.trans (size_modifyProcess _)) (fun p => ?_)
      fun _ _ hb => h.table ▸ hb
    have hlife := life_exited ha h p
    by_cases hp : p = a
    · subst hp
      rw [if_pos rfl] at hlife
      exact ⟨congrArg Life.pid hlife, congrArg Life.parent hlife⟩
    · rw [if_neg hp] at hlife
      exact ⟨congrArg Life.pid hlife, congrArg Life.parent hlife⟩
  | exitIgnored _ _ h => exact h.calm.after
  | forkFailed _ h => exact h.after
  | refused => exact .refl k
  | wasted ha => exact after_putSignal ha
  | collected ha _ _ h => exact (after_putSignal ha).trans h.after

theorem Change.new {k k' : Kernel W} {l : Label} {a : ProcessId} (h : Change k l k')
    (hle : k.records.size ≤ a) (hlt : a < k'.records.size) :
    a = k.records.size ∧ l.Silent ∧ ((∃ pid parent, Born pid parent k k') ∨
      (∀ parent child, l ≠ .forkBegun parent child) ∧ Stillborn k k') := by
  have hone (hsize : k'.records.size = k.records.size + 1) : a = k.records.size :=
    Nat.le_antisymm (Nat.le_of_lt_succ (Nat.lt_of_lt_of_eq hlt hsize)) hle
  have hsame (hsize : k'.records.size = k.records.size) : False :=
    Nat.not_lt_of_le hle (Nat.lt_of_lt_of_eq hlt hsize)
  cases h with
  | born hl hborn => exact ⟨hone hborn.size, hl, .inl ⟨_, _, hborn⟩⟩
  | stillborn hl hbegun hborn => exact ⟨hone hborn.size, hl, .inr ⟨hbegun, hborn⟩⟩
  | calm _ hcalm => exact (hsame hcalm.size).elim
  | exited _ _ _ hquiet => exact (hsame (hquiet.size.trans (size_modifyProcess _))).elim
  | exitIgnored _ _ hquiet => exact (hsame hquiet.size).elim
  | forkFailed _ hgone => exact (hsame hgone.size).elim
  | refused => exact (hsame rfl).elim
  | wasted => exact (hsame (size_modifyProcess _)).elim
  | collected _ _ _ hgone => exact (hsame (hgone.size.trans (size_modifyProcess _))).elim

theorem Change.of_collected {k k' : Kernel W} {caller a : ProcessId} {pid : Pid} {code : Int32}
    (h : Change k (.collected caller a pid code) k') :
    pid = (k.process a).pid ∧ a < k.records.size ∧ (k.process a).state = .zombie code ∧
      k'.table.get? pid = none := by
  cases h with
  | collected ha hzombie hunits hgone =>
    refine ⟨rfl, ha, hzombie, ?_⟩
    rw [hgone.table, if_pos rfl]
  | calm hl => exact hl.elim
  | born hl => exact hl.elim
  | stillborn hl => exact hl.elim

/-! ### Who is unregistered -/

/-- A step unregisters the id of a process. -/
def Label.Clears (a : ProcessId) : Label → Prop
  | .forkFailed _ child | .collected _ child _ _ => child = a
  | _ => False

theorem Label.Clears.cases {l : Label} {a : ProcessId} (h : l.Clears a) :
    (∃ parent, l = .forkFailed parent a) ∨ ∃ caller pid code, l = .collected caller a pid code := by
  cases l with
  | forkFailed parent child => exact .inl ⟨parent, congrArg _ h⟩
  | collected caller child pid code =>
    cases h
    exact .inr ⟨caller, pid, code, rfl⟩
  | _ => exact h.elim

namespace Kernel

variable {k k' : Kernel W} {a b : ProcessId}

theorem Registered.keep (h : k.Registered a) (hpid : (k'.process a).pid = (k.process a).pid)
    (htable : k'.table.get? (k.process a).pid = k.table.get? (k.process a).pid) :
    k'.Registered a := by
  rw [Registered, hpid, htable]
  exact h

theorem Registered.pid_ne (ha : k.Registered a) (hb : k.Registered b) (hne : a ≠ b) :
    (k.process a).pid ≠ (k.process b).pid := by
  intro hpid
  rw [Registered, hpid, hb] at ha
  exact hne (Option.some.inj ha).symm

end Kernel

namespace Change

variable {k k' : Kernel W} {l : Label} {a : ProcessId}

theorem cleared (h : Change k l k') (hl : l.Clears a) :
    a < k.records.size ∧ k'.table.get? (k.process a).pid = none := by
  rcases hl.cases with ⟨parent, rfl⟩ | ⟨caller, pid, code, rfl⟩
  · cases h with
    | forkFailed ha hgone => exact ⟨ha, by rw [hgone.table, if_pos rfl]⟩
    | calm hl => exact hl.elim
    | born hl => exact hl.elim
    | stillborn hl => exact hl.elim
  · obtain ⟨rfl, ha, -, hfree⟩ := h.of_collected
    exact ⟨ha, hfree⟩

/-- A process that has not been reaped was not reaped before. -/
theorem live (h : Change k l k') (ha : a < k.records.size)
    (hstate : (k'.process a).state ≠ .reaped) : (k.process a).state ≠ .reaped := by
  have hlive (hlife : (k'.process a).life = (k.process a).life) : (k.process a).state ≠ .reaped :=
    fun hreaped => hstate ((congrArg Life.state hlife).trans hreaped)
  cases h with
  | calm _ hcalm => exact fun hreaped => hstate ((hcalm.state a).trans hreaped)
  | born _ hborn => exact hlive (hborn.life a ha)
  | stillborn _ _ hborn => exact hlive (hborn.life a ha)
  | @exited b code _ hb _ hrunning hquiet =>
    have hlife := life_exited hb hquiet a
    by_cases hab : a = b
    · rw [hab, hrunning]
      nofun
    · exact hlive (by rwa [if_neg hab] at hlife)
  | exitIgnored _ _ hquiet => exact hlive (hquiet.life a)
  | @forkFailed parent b _ _ hgone =>
    by_cases hab : a = b
    · exact absurd (hab ▸ congrArg Life.state hgone.gone) hstate
    · exact hlive (hgone.life a hab)
  | refused => exact hstate
  | wasted => exact fun hreaped => hstate ((state_putSignal a).trans hreaped)
  | @collected caller b code signal _ _ _ _ hgone =>
    by_cases hab : a = b
    · exact absurd (hab ▸ congrArg Life.state hgone.gone) hstate
    · exact hlive ((hgone.life a hab).trans (life_putSignal_ne hab))

/-- A process stays registered until it is reaped or its id is unregistered for another one. -/
theorem registered (h : Change k l k') (hreg : k.Registered a) (ha : a < k.records.size)
    (hstate : (k'.process a).state ≠ .reaped)
    (hnot : ∀ b, l.Clears b → b ≠ a → (k.process b).pid ≠ (k.process a).pid) :
    k'.Registered a := by
  apply hreg.keep (h.after.pid a ha)
  cases h with
  | calm _ hcalm => rw [hcalm.table]
  | born _ hborn =>
    rw [hborn.table, if_neg]
    intro heq
    rw [Registered, heq, hborn.free] at hreg
    cases hreg
  | stillborn _ _ hborn => exact hborn.table _
  | exited _ _ _ hquiet =>
    rw [hquiet.table]
    rfl
  | exitIgnored _ _ hquiet => rw [hquiet.table]
  | @forkFailed parent b _ _ hgone =>
    have hba : b ≠ a := fun hba => hstate (hba ▸ congrArg Life.state hgone.gone)
    rw [hgone.table, if_neg (hnot b rfl hba).symm]
  | refused => rfl
  | wasted => rfl
  | @collected caller b code signal _ _ _ _ hgone =>
    have hba : b ≠ a := fun hba => hstate (hba ▸ congrArg Life.state hgone.gone)
    rw [hgone.table, if_neg (hnot b rfl hba).symm]
    rfl

end Change

/-! ### Calls under way -/

def Label.EndsFork (a : ProcessId) : Label → Prop
  | .forked _ child | .forkFailed _ child => child = a
  | _ => False

theorem Operation.not_endsFork_label (op : Operation) (a : ProcessId) : ¬ op.label.EndsFork a := by
  cases op <;> exact id

theorem Label.not_endsFork_ofWait (caller child : ProcessId) (r : Except Errno Waited)
    (a : ProcessId) : ¬ (ofWait caller child r).EndsFork a := by
  rcases r with e | ⟨code, pid⟩ | _ <;> exact id

theorem Step.forks_cases {s s' : System W} {l : Label} (hstep : Step S s l s') :
    (s'.forks = s.forks ∧ ∀ a, ¬ l.EndsFork a) ∨
      (∃ f ∈ s.forks, s'.forks = s.forks.erase f ∧
        (l = .forked f.parent f.child ∨ l = .forkFailed f.parent f.child)) ∨
      ∃ parent pid, s'.forks = ⟨parent, pid, s.kernel.records.size⟩ :: s.forks ∧
        s'.kernel.records.size = s.kernel.records.size + 1 ∧
          l = .forkBegun parent s.kernel.records.size := by
  cases hstep with
  | operate => exact .inl ⟨rfl, Operation.not_endsFork_label _⟩
  | forkRefused => exact .inl ⟨rfl, fun _ => id⟩
  | forkBegun hparent hrun =>
    obtain ⟨rfl, pid, hmade⟩ := (ensures_beginFork_made hparent).of_ok hrun
    exact .inr (.inr ⟨_, _, rfl, hmade.size, rfl⟩)
  | forked hf => exact .inr (.inl ⟨_, hf, rfl, .inl rfl⟩)
  | forkFailed hf => exact .inr (.inl ⟨_, hf, rfl, .inr rfl⟩)
  | waitRefused => exact .inl ⟨rfl, fun _ => id⟩
  | waitBlocked => exact .inl ⟨rfl, fun _ => id⟩
  | waitMet => exact .inl ⟨rfl, Label.not_endsFork_ofWait _ _ _⟩
  | waitWoken => exact .inl ⟨rfl, Label.not_endsFork_ofWait _ _ _⟩

/-- No step begins a fork of a child that is there already. -/
theorem Step.forks_ne {s s' : System W} {l : Label} {a : ProcessId} (hstep : Step S s l s')
    (ha : a < s.kernel.records.size) (h : ∀ f ∈ s.forks, f.child ≠ a) :
    ∀ f ∈ s'.forks, f.child ≠ a := by
  rcases hstep.forks_cases with ⟨heq, -⟩ | ⟨f, -, heq, -⟩ | ⟨parent, pid, heq, -, -⟩ <;> rw [heq]
  · exact h
  · exact fun g hg => h g (List.mem_of_mem_erase hg)
  · intro f hf
    rcases List.mem_cons.1 hf with rfl | hf
    · exact Nat.ne_of_gt ha
    · exact h f hf

/-- A wait that is under way was so before, or has just found its child. -/
theorem Step.waits_cases {s s' : System W} {l : Label} (hstep : Step S s l s') :
    ∀ w ∈ s'.waits, w ∈ s.waits ∨ w.caller < s.kernel.records.size ∧
      w.callerPid = (s.kernel.process w.caller).pid ∧ s.kernel.table.get? w.pid = some w.child ∧
        (s.kernel.process w.child).parent = some w.callerPid := by
  intro w hw
  cases hstep with
  | waitBlocked hcaller hrun hdown =>
    obtain ⟨rfl, -, hfound, -, hparent⟩ := ensures_beginWait.of_ok hrun
    rcases List.mem_cons.1 hw with rfl | hw
    · exact .inr ⟨hcaller, rfl, hfound, hparent⟩
    · exact .inl hw
  | waitWoken => exact .inl (List.mem_of_mem_erase hw)
  | _ => exact .inl hw

theorem child_ne_of_mem_erase {forks : List PendingFork} {f g : PendingFork}
    (h : (forks.map (·.child)).Nodup) (hf : f ∈ forks) (hg : g ∈ forks.erase f) :
    g.child ≠ f.child := by
  have hperm := (List.perm_cons_erase hf).map (·.child)
  rw [hperm.nodup_iff, List.map_cons, List.nodup_cons] at h
  intro heq
  exact h.1 (heq ▸ List.mem_map_of_mem hg)

/-- Only a fork that is under way ends, and then it is under way no more. -/
theorem Step.endsFork {s s' : System W} {l : Label} {a : ProcessId} (h : s.Sound)
    (hstep : Step S s l s') (hl : l.EndsFork a) :
    (∃ f ∈ s.forks, f.child = a) ∧ ∀ f ∈ s'.forks, f.child ≠ a := by
  rcases hstep.forks_cases with ⟨-, hnone⟩ | ⟨f, hf, heq, hends⟩ | ⟨parent, pid, -, -, rfl⟩
  · exact (hnone a hl).elim
  · obtain rfl : f.child = a := by rcases hends with rfl | rfl <;> exact hl
    exact ⟨⟨f, hf, rfl⟩, fun g hg => child_ne_of_mem_erase h.forks_nodup hf (heq ▸ hg)⟩
  · exact hl.elim

theorem System.Sound.forks_step {s s' : System W} {l : Label} (h : s.Sound)
    (hstep : Step S s l s') : (∀ f ∈ s'.forks, f.child < s'.kernel.records.size) ∧
      (s'.forks.map (·.child)).Nodup := by
  have hle := (hstep.change h).after.size_le
  have hlt : ∀ f ∈ s.forks, f.child < s'.kernel.records.size := by
    intro f hf
    exact Nat.lt_of_lt_of_le (h.forks_lt f hf) hle
  rcases hstep.forks_cases with ⟨heq, -⟩ | ⟨f, -, heq, -⟩ | ⟨parent, pid, heq, hsize, -⟩
  · rw [heq]
    exact ⟨hlt, h.forks_nodup⟩
  · rw [heq]
    exact ⟨fun g hg => hlt g (List.mem_of_mem_erase hg),
      h.forks_nodup.sublist (List.erase_sublist.map _)⟩
  · rw [heq, List.map_cons, List.nodup_cons]
    refine ⟨fun f hf => ?_, fun hmem => ?_, h.forks_nodup⟩
    · rcases List.mem_cons.1 hf with rfl | hf
      · rw [hsize]
        exact Nat.lt_succ_self _
      · exact hlt f hf
    · obtain ⟨f, hf, hchild⟩ := List.mem_map.1 hmem
      exact Nat.ne_of_lt (h.forks_lt f hf) hchild

theorem System.Sound.step {s s' : System W} {l : Label} (h : s.Sound) (hstep : Step S s l s') :
    s'.Sound := by
  have hafter := (hstep.change h).after
  have hkept {a : ProcessId} {pid : Pid}
      (ha : a < s.kernel.records.size ∧ (s.kernel.process a).pid = pid) :
      a < s'.kernel.records.size ∧ (s'.kernel.process a).pid = pid :=
    ⟨Nat.lt_of_lt_of_le ha.1 hafter.size_le, (hafter.pid a ha.1).trans ha.2⟩
  obtain ⟨hforks, hnodup⟩ := h.forks_step hstep
  refine ⟨fun pid a ha => ?_, hforks, hnodup, fun w hw => ?_⟩
  · rcases hafter.found pid a ha with hold | ⟨-, hnew⟩
    · exact hkept (h.table pid a hold)
    · exact hnew
  · rcases hstep.waits_cases w hw with hold | ⟨-, -, hfound, -⟩
    · exact hkept (h.waits w hold)
    · exact hkept (h.table _ _ hfound)

end UnixCore
