import UnixCore.Proofs.Accounting.Remnant
import UnixCore.Proofs.Bootstrap.Stages
import UnixCore.Proofs.LifeCycle.Discarded
import UnixCore.Proofs.Sharing.Files

/-! The start of the first program is all or nothing. It gives a running process with three streams
on the console and one address space, or it leaves the processes, the files and the address spaces
as they were, at whichever stage it fails and however much of a process was there by then. -/

namespace UnixCore

variable {W : Type} {S : Services W}

/-- Nothing is moved, so what is still there is the same. -/
theorem Shared.Steady.alike {past past' sh sh' : Shared (W × Ledger)} {h : Holdings}
    (hsteady : Steady (fun _ => False) sh sh') (hb : Balanced past sh h)
    (hb' : Balanced past' sh' h) : Alike sh sh' := by
  refine alike_of_balanced (fun id a b ha hbefore => ?_) (fun id a b ha hbefore => ?_) hb hb'
  · have hkept := hsteady.cursors id a (Pool.lt_next_of_get? hbefore) not_false ha
    exact Option.some.inj (hkept.symm.trans hbefore)
  · obtain ⟨c, hc, rfl⟩ := hsteady.directories.kept id a (Pool.lt_next_of_get? hbefore) ha
    exact Option.some.inj (hc.symm.trans hbefore)

theorem Descriptors.Attaches.liveSpaces {streams : List (Nat × OpenFlags)}
    {d d' : Descriptors (W × Ledger)} (h : Attaches S.audited streams d d') :
    d'.shared.world.2.liveSpaces = d.shared.world.2.liveSpaces := by
  induction h with
  | done => rfl
  | @stream _ _ _ _ _ _ w hopen _ _ ih =>
    rw [ih]
    show w.2.liveSpaces = _
    rw [Services.ensures_openPath.of_ok hopen, Ledger.liveSpaces_handed]

namespace Kernel

/-- There is one process more. It is registered under an id that was free, runs with one thread and
without a parent in an address space of its own, and has the three standard streams and no other
file. -/
structure Spawned (S : Services (W × Ledger)) (pid : Pid) (p : ProcessId)
    (k k' : Kernel (W × Ledger)) : Prop where
  new : p = k.records.size
  size : k'.records.size = k.records.size + 1
  others : ∀ q < k.records.size, k'.process q = k.process q
  free : k.table.get? pid = none
  registered : ∀ i, k'.table.get? i = if i = pid then some p else k.table.get? i
  pid_eq : (k'.process p).pid = pid
  state : (k'.process p).state = .running
  parent : (k'.process p).parent = none
  threads : (k'.process p).threads = 1
  space : ∃ space, (k'.process p).space = some space
  spaces : k'.shared.world.2.liveSpaces = k.shared.world.2.liveSpaces + 1
  streams : OnConsole S k.shared.world k.shared.files.next (k'.process p).descriptors
    k'.shared.files

variable {k k' : Kernel (W × Ledger)} {path : String} {args : List String} {v : ArgVector}
  {pid : Pid} {table : ProcessTable ProcessId} {d : Descriptors (W × Ledger)}

/-- A program that is entered makes of the process with its streams one that is started. -/
theorem Begun.spawned_started (h : Begun path args k v pid table)
    (hattaches : Descriptors.Attaches S.audited Descriptors.standardStreams
      (k.blankDescriptors pid path) d)
    (hother : OtherSpace k.records.size (k.withConsole pid path table d) k')
    (hspace : ∃ space, (k'.process k.records.size).space = some space)
    (hspaces : k'.shared.world.2.liveSpaces = k.shared.world.2.liveSpaces + 1) :
    Spawned S.audited pid k.records.size k (k'.started k.records.size path) := by
  have hmade : Made pid none 0 k k' := (made_withStreams h.create).within hother.within
  have hstarted : Made pid none 1 k (k'.started k.records.size path) :=
    hmade.attachThread.within (within_report _)
  have hself : (k'.started k.records.size path).process k.records.size =
      (k'.process k.records.size).attachThread :=
    process_modifyProcess_self _ hmade.lt_size
  have hdescriptors : (k'.process k.records.size).descriptors = d.table := by
    rw [hother.self]
    exact congrArg Process.descriptors process_withStreams_self
  exact {
    new := rfl
    size := hstarted.size
    others := hstarted.others
    free := ProcessTable.get?_eq_none_of_create h.create
    registered := ProcessTable.get?_create hstarted.create
    pid_eq := hstarted.pid_eq
    state := congrArg Life.state hstarted.life
    parent := congrArg Life.parent hstarted.life
    threads := hstarted.threads
    space := by
      rw [hself]
      exact hspace
    spaces := hspaces
    streams := by
      rw [hself]
      show OnConsole _ _ _ (k'.process k.records.size).descriptors k'.shared.files
      rw [hdescriptors, hother.files]
      exact hattaches.onConsole }

/-- A start ends with a process, or with none or with one that is given up. -/
theorem ensures_spawnInitial_ends : (spawnInitial S.audited path args).Ensures k
    (fun r k' => ∃ pid, Spawned S.audited pid r.1 k k')
    fun _ k' => k' = k ∨ ∃ pid k₁, Made pid none 0 k k₁ ∧ k₁.config = k.config ∧
      k' = discard S.audited k.records.size k₁ := by
  rcases begun_or_fails S.audited path args k with ⟨v, pid, table, h⟩ | ⟨e, -, hrun⟩
  · rcases Descriptors.attaches_or_fails S.audited Descriptors.standardStreams
      (k.blankDescriptors pid path) with ⟨d, hattaches⟩ | ⟨e, hfails⟩
    · rw [h.ensures_spawnInitial_of_attaches hattaches]
      have hlt : k.records.size < (k.withConsole pid path table d).records.size :=
        Nat.lt_of_lt_of_eq (Nat.lt_succ_self _) size_withStreams.symm
      have hblank : ((k.withConsole pid path table d).process k.records.size).space = none :=
        congrArg Process.space process_withStreams_self
      have hspaces : (k.withConsole pid path table d).shared.world.2.liveSpaces =
        k.shared.world.2.liveSpaces := hattaches.liveSpaces
      refine (ensures_exec_otherSpace path v hlt).mono ?_ fun e k' hother => ?_
      · rintro entry k' ⟨hother, hspace, hlive⟩
        rw [hblank, hspaces] at hlive
        exact ⟨pid, h.spawned_started hattaches hother hspace hlive⟩
      · exact .inr ⟨pid, k', (made_withStreams h.create).within hother.within, hother.config, rfl⟩
    · obtain ⟨d, hattach⟩ := Descriptors.attachStreams_of_failure hfails
      rw [h.ensures_spawnInitial]
      refine (Action.ensures_of_error hattach).2 ?_
      exact .inr ⟨pid, _, made_withStreams h.create, rfl, rfl⟩
  · exact (Action.ensures_of_error hrun).2 (.inl rfl)

end Kernel

open Kernel

/-- In every state that can be reached, a start of the first program fails exactly when its path is
too long, its arguments are not in order, there is no room or no id for a process, the console
cannot be opened for one of the streams, there is no new address space or no image is built in it,
with the error of this. After a failure the same ids are registered, all processes and open files
are what they were, and as many vnodes and address spaces are in use. A success leaves one process
more, with its streams, and the others as they were. -/
theorem bootstrap_all_or_nothing {config : Config} {world : W} {turns : List Turn}
    {s : System (W × Ledger)}
    (execution : Execution S.audited (System.empty config (world, [])) turns s)
    (path : String) (args : List String) :
    (∀ e, SpawnFailure S.audited path args s.kernel e ↔
      ∃ k, spawnInitial S.audited path args s.kernel = .error e k) ∧
    (∀ e k, spawnInitial S.audited path args s.kernel = .error e k →
      Forgotten s.kernel k ∧ s.kernel.shared.Alike k.shared) ∧
    ∀ p entry k, spawnInitial S.audited path args s.kernel = .ok (p, entry) k →
      ∃ pid, Spawned S.audited pid p s.kernel k := by
  refine ⟨fun e => spawnFailure_iff, fun e k hrun => ?_,
    fun p entry k hrun => ensures_spawnInitial_ends.of_ok hrun⟩
  obtain ⟨labels, horderly⟩ := execution.orderly
  have htable : ∀ i q, s.kernel.table.get? i = some q → q < s.kernel.records.size :=
    fun i q hq => (horderly.sound.table i q hq).1
  have htouches : Shared.Touches S.audited ⟨fun _ _ => True, fun _ => False⟩ s.kernel.shared
      k.shared := (along_spawnInitial args trivial trivial trivial s.kernel).of_error hrun
  have hbooked : k.Booked s.kernel.shared s.kernel.records.size 0 :=
    (ensures_spawnInitial execution.booked).of_error hrun
  rcases ensures_spawnInitial_ends.of_error hrun with rfl | ⟨pid, k₁, hmade, hconfig, rfl⟩
  · exact ⟨.refl _, (Shared.Restored.refl _).alike⟩
  · have hbalanced := hbooked.balanced
    rw [hmade.holdings_discard] at hbalanced
    exact ⟨hmade.forgotten_discard hconfig htable,
      htouches.steady.alike execution.booked.balanced hbalanced⟩

/-- The console is no program: a start of it comes as far as a process with streams and an address
space, of which nothing is left. A start of a program leaves a process with its streams. -/
theorem bootstrap_all_or_nothing_console :
    let s : System (Ram × Ledger) := System.empty { openMax := 4 } (smallWorld, [])
    (∃ k, spawnInitial Ram.services.audited consolePath ["con:"] s.kernel = .error .execFormat k ∧
      k.records.size = 1 ∧ Forgotten s.kernel k ∧ s.kernel.shared.Alike k.shared) ∧
    ∃ p entry k, spawnInitial Ram.services.audited "bin/init" ["init"] s.kernel =
      .ok (p, entry) k ∧ ∃ pid, Spawned Ram.services.audited pid p s.kernel k := by
  intro s
  have hstart : Execution Ram.services.audited s [] s := .start
  have hfailed : spawnInitial Ram.services.audited consolePath ["con:"] s.kernel =
      .error .execFormat _ := Action.eq_error_of_result (by decide +kernel)
  obtain ⟨hforgotten, halike⟩ :=
    (bootstrap_all_or_nothing hstart consolePath ["con:"]).2.1 _ _ hfailed
  obtain ⟨⟨p, entry⟩, hentry⟩ : ∃ r, ((spawnInitial Ram.services.audited "bin/init"
      ["init"]).result s.kernel).1.toOption = some r :=
    Option.isSome_iff_exists.1 (by decide +kernel)
  have hstarted := Action.eq_ok_of_result (Action.result_eq_ok hentry)
  exact ⟨⟨_, hfailed, by decide +kernel, hforgotten, halike⟩, p, entry, _, hstarted,
    (bootstrap_all_or_nothing hstart "bin/init" ["init"]).2.2 p entry _ hstarted⟩

end UnixCore
