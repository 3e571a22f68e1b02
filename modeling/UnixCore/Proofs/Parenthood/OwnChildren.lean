import UnixCore.Proofs.Parenthood.Rounds
import UnixCore.Proofs.Rendezvous.ExactlyOnce

/-! Whose children a process can collect. A parent is known by its id, so a wait collects the
children of whoever had the id of the caller. Until the ids are used up that is the caller itself.
-/

namespace UnixCore

open Kernel

variable {W : Type} {S : Services W} {labels : List Label} {l : Label} {s s' : System W}
  {a : ProcessId}

/-- The steps so far tell who forked whom, and agree with the parent of every process that can be
found and of every process that is waited for. -/
structure Kinship (labels : List Label) (s : System W) : Prop where
  begun : ∀ p a, .forkBegun p a ∈ labels → p < s.kernel.records.size ∧ a < s.kernel.records.size
  unique : ∀ p q a, .forkBegun p a ∈ labels → .forkBegun q a ∈ labels → p = q
  found : ∀ pid a parent, s.kernel.table.get? pid = some a →
    (s.kernel.process a).parent = some parent →
      ∃ p, .forkBegun p a ∈ labels ∧ (s.kernel.process p).pid = parent
  waits : ∀ w ∈ s.waits, w.caller < s.kernel.records.size ∧
    (s.kernel.process w.caller).pid = w.callerPid ∧
      ∃ p, .forkBegun p w.child ∈ labels ∧ (s.kernel.process p).pid = w.callerPid

/-- A step begins at most one fork, and its child is new. -/
theorem Step.child_of_forkBegun {p : ProcessId} (h : s.Sound)
    (hstep : Step S s (.forkBegun p a) s') :
    p < s.kernel.records.size ∧ a = s.kernel.records.size ∧
      s'.kernel.records.size = s.kernel.records.size + 1 := by
  cases hstep.arrival h with
  | nobody hl => exact (hl p a rfl).elim
  | forked hp hmade => exact ⟨hp, rfl, hmade.size⟩
  | givenUp hl => exact (hl p a rfl).elim

/-- Whoever has become registered in a step and has a parent was forked in that step. -/
theorem Arrival.parent_new {k k' : Kernel W} (h : Arrival S k l k')
    (htable : ∀ i a, k.table.get? i = some a → a < k.records.size) {pid parent : Pid}
    (hfound : k'.table.get? pid = some a) (hle : k.records.size ≤ a) (hlt : a < k'.records.size)
    (hparent : (k'.process a).parent = some parent) :
    ∃ p < k.records.size, l = .forkBegun p a ∧ (k.process p).pid = parent := by
  have hself {n : Nat} {pid : Pid} {parent : Option Pid} (hmade : Made pid parent n k k') :
      a = k.records.size :=
    Nat.le_antisymm (Nat.le_of_lt_succ (Nat.lt_of_lt_of_eq hlt hmade.size)) hle
  cases h with
  | nobody _ hsize => exact (Nat.not_lt_of_le hle (Nat.lt_of_lt_of_eq hlt hsize)).elim
  | spawned hmade =>
    rw [hself hmade] at hparent
    cases hparent.symm.trans (congrArg Life.parent hmade.life)
  | @forked p _ _ _ hp hmade =>
    obtain rfl := hself hmade
    cases hparent.symm.trans (congrArg Life.parent hmade.life)
    exact ⟨p, hp, rfl, rfl⟩
  | givenUp _ hgiven =>
    rw [hgiven.stillborn.table] at hfound
    exact (Nat.not_lt_of_le hle (htable _ _ hfound)).elim

namespace Kinship

theorem begun_step (h : Kinship labels s) (hs : s.Sound) (hstep : Step S s l s') :
    (∀ p a, .forkBegun p a ∈ labels ++ [l] →
      p < s'.kernel.records.size ∧ a < s'.kernel.records.size) ∧
    ∀ p q a, .forkBegun p a ∈ labels ++ [l] → .forkBegun q a ∈ labels ++ [l] → p = q := by
  have hle := (hstep.change hs).after.size_le
  have hcases {p a : ProcessId} (hmem : .forkBegun p a ∈ labels ++ [l]) :
      .forkBegun p a ∈ labels ∨ l = .forkBegun p a := by
    rcases List.mem_append.1 hmem with hold | hnew
    · exact .inl hold
    · exact .inr (List.mem_singleton.1 hnew).symm
  refine ⟨fun p a hmem => ?_, fun p q a hp hq => ?_⟩
  · rcases hcases hmem with hold | rfl
    · obtain ⟨hp, ha⟩ := h.begun p a hold
      exact ⟨Nat.lt_of_lt_of_le hp hle, Nat.lt_of_lt_of_le ha hle⟩
    · obtain ⟨hp, rfl, hsize⟩ := hstep.child_of_forkBegun hs
      exact ⟨Nat.lt_of_lt_of_le hp hle, Nat.lt_of_lt_of_eq (Nat.lt_succ_self _) hsize.symm⟩
  · -- The child of a fork that begins now is in no fork that began before.
    have hnew {p : ProcessId} (hl : l = .forkBegun p a) (q : ProcessId) :
        .forkBegun q a ∉ labels := by
      subst hl
      obtain ⟨-, rfl, -⟩ := hstep.child_of_forkBegun hs
      exact fun hold => Nat.lt_irrefl _ (h.begun q _ hold).2
    rcases hcases hp with hp | hp <;> rcases hcases hq with hq | hq
    · exact h.unique p q a hp hq
    · exact (hnew hq p hp).elim
    · exact (hnew hp q hq).elim
    · exact (Label.forkBegun.inj (hp.symm.trans hq)).1

theorem step (h : Kinship labels s) (hs : s.Sound) (hstep : Step S s l s') :
    Kinship (labels ++ [l]) s' := by
  have hafter := (hstep.change hs).after
  obtain ⟨hbegun, hunique⟩ := h.begun_step hs hstep
  have hkept {a : ProcessId} {pid : Pid}
      (hp : ∃ p, .forkBegun p a ∈ labels ∧ (s.kernel.process p).pid = pid) :
      ∃ p, .forkBegun p a ∈ labels ++ [l] ∧ (s'.kernel.process p).pid = pid := by
    obtain ⟨p, hmem, hpid⟩ := hp
    refine ⟨p, List.mem_append_left _ hmem, ?_⟩
    rw [hafter.pid p (h.begun p a hmem).1, hpid]
  refine ⟨hbegun, hunique, fun pid a parent hfound hparent => ?_, fun w hw => ?_⟩
  · rcases hafter.found pid a hfound with hold | ⟨hle, hlt, -⟩
    · rw [hafter.parent a (hs.table _ _ hold).1] at hparent
      exact hkept (h.found pid a parent hold hparent)
    · obtain ⟨p, hp, rfl, hpid⟩ :=
        (hstep.arrival hs).parent_new (fun i a ha => (hs.table i a ha).1) hfound hle hlt hparent
      refine ⟨p, List.mem_append_right _ (List.mem_singleton.2 rfl), ?_⟩
      rw [hafter.pid p hp, hpid]
  · have hcaller {p : ProcessId} {pid : Pid} (hp : p < s.kernel.records.size)
        (hpid : (s.kernel.process p).pid = pid) :
        p < s'.kernel.records.size ∧ (s'.kernel.process p).pid = pid :=
      ⟨Nat.lt_of_lt_of_le hp hafter.size_le, (hafter.pid p hp).trans hpid⟩
    rcases hstep.waits_cases w hw with hold | ⟨hp, hpid, hfound, hparent⟩
    · obtain ⟨hp, hpid, hchild⟩ := h.waits w hold
      obtain ⟨hp', hpid'⟩ := hcaller hp hpid
      exact ⟨hp', hpid', hkept hchild⟩
    · obtain ⟨hp', hpid'⟩ := hcaller hp hpid.symm
      exact ⟨hp', hpid', hkept (h.found _ _ _ hfound hparent)⟩

end Kinship

theorem kinship_empty (config : Config) (world : W) :
    Kinship [] (System.empty config world) := by
  refine ⟨nofun, nofun, fun pid a parent h => ?_, nofun⟩
  have hnone : (System.empty config world).kernel.table.get? pid = none :=
    Std.TreeMap.getElem?_emptyc
  rw [hnone] at h
  cases h

theorem Run.kinship {config : Config} {world : W}
    (run : Run S (System.empty config world) labels s) : Kinship labels s := by
  induction run with
  | start => exact kinship_empty config world
  | step run hstep ih => exact ih.step (Run.orderly run).sound hstep

theorem Run.numbered {config : Config} {world : W}
    (run : Run S (System.empty config world) labels s)
    (hsize : s.kernel.records.size ≤ ProcessTable.pidCount) : s.kernel.Numbered := by
  induction run with
  | start => exact ⟨nofun, fun _ => rfl⟩
  | step run hstep ih =>
    have hsound := (Run.orderly run).sound
    exact (hstep.arrival hsound).numbered ih (hstep.change hsound).after hsound.table hsize

/-- A wait that returns found its child as that of a process with the id of the caller. -/
theorem Step.collected_cases {t : System W} {caller : ProcessId} {pid : Pid} {code : Int32}
    (hstep : Step S s (.collected caller a pid code) t) :
    (caller < s.kernel.records.size ∧ ∃ i, s.kernel.table.get? i = some a ∧
      (s.kernel.process a).parent = some (s.kernel.process caller).pid) ∨
    ∃ w ∈ s.waits, w.caller = caller ∧ w.child = a := by
  have hwait {caller' a' : ProcessId} {r : Except Errno Waited}
      (hl : Label.ofWait caller' a' r = .collected caller a pid code) :
      caller' = caller ∧ a' = a := by
    rcases r with e | ⟨code', pid'⟩ | _ <;> cases hl
    exact ⟨rfl, rfl⟩
  generalize hl : Label.collected caller a pid code = l at hstep
  cases hstep with
  | @operate op => cases op <;> cases hl
  | waitMet hcaller hrun =>
    obtain ⟨rfl, rfl⟩ := hwait hl.symm
    obtain ⟨rfl, -, hfound, -, hparent⟩ := ensures_beginWait.of_ok hrun
    exact .inl ⟨hcaller, _, hfound, hparent⟩
  | @waitWoken w _ _ _ hw =>
    obtain ⟨rfl, rfl⟩ := hwait hl.symm
    exact .inr ⟨w, hw, rfl, rfl⟩
  | _ => cases hl

/-- What the steps so far and a system say about who can collect whom. -/
structure Parenthood (S : Services W) (labels : List Label) (s : System W) : Prop where
  /-- Whoever collects a process has the id of the one process that forked it. It is that process
  itself unless it has been made after so many others that the ids were used up, and then one of
  the two is not registered. -/
  collected : ∀ caller a pid code t, Step S s (.collected caller a pid code) t →
    ∃ parent, .forkBegun parent a ∈ labels ∧ (∀ p, .forkBegun p a ∈ labels → p = parent) ∧
      (s.kernel.process parent).pid = (s.kernel.process caller).pid ∧
      (parent ≠ caller → ProcessTable.pidCount < s.kernel.records.size ∧
        ¬ (s.kernel.Registered parent ∧ s.kernel.Registered caller))
  /-- A wait of a process with another id than the one that forked the child fails at once. -/
  refused : ∀ parent a, .forkBegun parent a ∈ labels → s.kernel.Registered a →
    ∀ p, (s.kernel.process p).pid ≠ (s.kernel.process parent).pid → ∀ threads,
      (wait S threads p (s.kernel.process a).pid 0).result s.kernel =
        (.error .notAChild, s.kernel)

/-- A process collects only children of a process with its own id, for every process and after every
run. -/
theorem collects_children_of_own_id {config : Config} {world : W}
    (run : Run S (System.empty config world) labels s) : Parenthood S labels s := by
  have h := run.kinship
  refine ⟨fun caller a pid code t hstep => ?_, fun parent a hforked hreg p hpid threads => ?_⟩
  · obtain ⟨hcaller, parent, hforked, hpid⟩ : caller < s.kernel.records.size ∧
        ∃ p, .forkBegun p a ∈ labels ∧
          (s.kernel.process p).pid = (s.kernel.process caller).pid := by
      rcases hstep.collected_cases with ⟨hcaller, i, hfound, hparent⟩ | ⟨w, hw, rfl, rfl⟩
      · exact ⟨hcaller, h.found i a _ hfound hparent⟩
      · obtain ⟨hcaller, hpid, hchild⟩ := h.waits w hw
        rw [hpid]
        exact ⟨hcaller, hchild⟩
    refine ⟨parent, hforked, fun p hp => h.unique p parent a hp hforked, hpid,
      fun hne => ⟨?_, fun hreg => ?_⟩⟩
    · apply Nat.lt_of_not_le
      intro hsize
      exact hne ((run.numbered hsize).inj (h.begun parent a hforked).1 hcaller hpid)
    · exact hreg.1.pid_ne hreg.2 hne hpid
  · apply result_wait_of_stranger hreg
    refine .inr fun hparent => ?_
    obtain ⟨q, hq, hsame⟩ := h.found _ a _ hreg hparent
    rw [h.unique q parent a hq hforked] at hsame
    exact hpid hsame.symm

/-- The child that exited is collected by the process that forked it. -/
theorem collects_children_of_own_id_exitedChild :
    ∃ t parent, Step Ram.services { kernel := exitedChild } (.collected parent 1 3 7) t ∧
      Label.forkBegun parent 1 ∈ [.worked, .forkBegun 0 1, .forked 0 1, .exited 1 7] := by
  obtain ⟨t, hstep⟩ := step_exitedChild
  obtain ⟨parent, hforked, -, -, hother⟩ :=
    (collects_children_of_own_id run_exitedChild).collected 0 1 3 7 t hstep
  have hsame : parent = 0 := by
    apply Decidable.byContradiction
    intro hne
    exact absurd (hother hne).1 (by decide +kernel)
  subst hsame
  exact ⟨t, 0, hstep, hforked⟩

/-! ### An id that has been used again -/

/-- The first process, a child of it that has exited with 0, and a child of that child. -/
def grandchild : Kernel Ram :=
  let started := (Operation.spawnInitial "bin/init" ["init"]).run Ram.services
    (System.empty { openMax := 4 } smallWorld).kernel
  let begun := ((beginFork Ram.services 0).result started).2
  let forked := ((endFork Ram.services (started.process 0).pid 1 (.ok ())).result begun).2
  let begun' := ((beginFork Ram.services 1).result forked).2
  let forked' := ((endFork Ram.services (forked.process 1).pid 2 (.ok ())).result begun').2
  forked'.exit 1 0

/-- The child has been collected and the grandchild has exited with 7. -/
def orphan : Kernel Ram :=
  let collected :=
    ((endWait Ram.services (grandchild.process 0).pid 3 1).result (grandchild.putSignal 1 {})).2
  collected.exit 2 7

theorem run_grandchild : Run Ram.services (System.empty { openMax := 4 } smallWorld)
    [.worked, .forkBegun 0 1, .forked 0 1, .forkBegun 1 2, .forked 1 2, .exited 1 0]
    { kernel := grandchild } := by
  have hbegun := run_firstChild.step (@Step.forkBegun _ _ { kernel := firstChild } 1 2 _
    (by decide +kernel) (Action.eq_ok_of_result (Action.result_eq_ok (by decide +kernel))))
  have hforked := hbegun.step (@Step.forked _ _ _ _ 4 _ (List.mem_cons_self ..)
    (Action.eq_ok_of_result (Action.result_eq_ok (by decide +kernel))))
  rw [List.erase_cons_head] at hforked
  exact hforked.step (@Step.operate _ _ _ (.exit 1 0) (show 1 < _ by decide +kernel))

theorem run_orphan : Run Ram.services (System.empty { openMax := 4 } smallWorld)
    [.worked, .forkBegun 0 1, .forked 0 1, .forkBegun 1 2, .forked 1 2, .exited 1 0,
      .collected 0 1 3 0, .exited 2 7] { kernel := orphan } := by
  have hfound : (beginWait 0 3 0).result grandchild = (.ok 1, _) :=
    Action.result_eq_ok (by decide +kernel)
  have hfound' := Action.eq_ok_of_result hfound
  rw [(ensures_beginWait.of_ok hfound').1] at hfound'
  have hcaller : 0 < grandchild.records.size := by decide +kernel
  have hdown : (grandchild.process 1).exitSignal.tryDown = some {} := by decide +kernel
  have hended : (endWait Ram.services (grandchild.process 0).pid 3 1).result
      (grandchild.putSignal 1 {}) = (.ok (.reaped 0 3), _) :=
    Action.result_eq_ok (by decide +kernel)
  have hcollected := run_grandchild.step
    (Step.waitMet (s := { kernel := grandchild }) hcaller hfound' hdown hended)
  exact hcollected.step (@Step.operate _ _ _ (.exit 2 7) (show 2 < _ by decide +kernel))

theorem orphan_size : orphan.records.size = 3 := by decide +kernel

/-- The id 3 is free, and 5 is the next one. -/
theorem orphan_table : orphan.table.nextPid = 5 ∧ orphan.table.size < orphan.table.capacity ∧
    orphan.table.pids.all (· < orphan.table.nextPid) = true ∧
      orphan.table.get? Pid.lowest ≠ none ∧ orphan.table.get? 3 = none ∧
        orphan.table.get? 4 = some 2 := by
  decide +kernel

theorem orphan_grandchild : (orphan.process 2).pid = 4 ∧
    (orphan.process 2).parent = some 3 ∧ (orphan.process 2).state = .zombie 7 ∧
      (orphan.process 2).exitSignal.count = 1 := by
  decide +kernel

theorem orphan_duplicable (account : Nat) :
    (orphan.shared.world.account account).duplicateError = none :=
  Ram.duplicateError_of_all (by decide +kernel) account

/-- A zombie that is registered is collected in one step by any process with the id of its
parent. -/
theorem exists_step_collected {code : Int32} (hreg : s.kernel.Registered a)
    (hstate : (s.kernel.process a).state = .zombie code)
    (hunits : (s.kernel.process a).exitSignal.count = 1) {p : ProcessId}
    (hp : p < s.kernel.records.size)
    (hparent : (s.kernel.process a).parent = some (s.kernel.process p).pid)
    (hself : (s.kernel.process a).pid ≠ (s.kernel.process p).pid) :
    ∃ t, Step S s (.collected p a (s.kernel.process a).pid code) t := by
  have hfound := beginWait_of_child hreg hself hparent
  obtain ⟨signal, hsignal⟩ := exists_tryDown_of_units hunits
  exact ⟨_, Step.waitMet hp hfound hsignal
    (Action.result_of_ok (endWait_of_zombie hstate _ _ signal))⟩

/-- After the round the first process forks a child that gets the id of the one that is gone, and
that child can collect the grandchild, which it did not fork. -/
theorem recycled_id_collects_orphan :
    ∃ labels s q t, Run Ram.services (System.empty { openMax := 4 } smallWorld) labels s ∧
      Step Ram.services s (.collected q 2 4 7) t ∧
        .forkBegun 1 2 ∈ labels ∧ .forkBegun q 2 ∉ labels := by
  obtain ⟨hnext, hroom, hpids, htaken, hfree, hregistered⟩ := orphan_table
  obtain ⟨hpid, hparent, hzombie, hunits⟩ := orphan_grandchild
  have hp : 0 < orphan.records.size := by
    rw [orphan_size]
    decide
  have hn : orphan.table.nextPid.toNat + 32762 = Pid.highest.toNat := by
    rw [hnext]
    decide
  obtain ⟨labels, k, k', hround, hspent, hlabels, hmade⟩ :=
    exists_run_round (s := { kernel := orphan }) Ram.obliging orphan_duplicable hp hroom
      (fun i hi => of_decide_eq_true (List.all_eq_true.1 hpids i hi)) hn htaken hfree
  have hsize : k.records.size = 32766 := by
    rw [hspent.records, orphan_size]
  have hchild : k'.process 2 = orphan.process 2 := by
    rw [hmade.others 2 (by rw [hsize]; decide), hspent.others 2 (by rw [orphan_size]; decide)]
  rw [← hchild] at hpid hparent hzombie hunits
  have hcaller : (k'.process k.records.size).pid = 3 := hmade.pid_eq
  have hreg : k'.Registered 2 := by
    rw [Registered, hpid, hmade.born.table, if_neg (by decide), hspent.get?]
    exact hregistered
  let e := Event.processForked (k.process 0).pid (k'.process k.records.size).pid
  obtain ⟨t, hstep⟩ :
      ∃ t, Step Ram.services { kernel := report e k' } (.collected k.records.size 2 4 7) t := by
    rw [← hpid]
    refine exists_step_collected (s := { kernel := report e k' }) hreg hzombie hunits
      hmade.lt_size ?_ ?_ <;> simp only [process_report, hcaller]
    · exact hparent
    · rw [hpid]
      decide
  refine ⟨_, _, k.records.size, t, run_orphan.trans hround, hstep, ?_, fun hmem => ?_⟩
  · simp
  · have hold : .forkBegun k.records.size 2 ∈ labels := by simpa [hsize] using hmem
    exact absurd (hlabels _ _ hold) (by rw [hsize]; decide)

end UnixCore
