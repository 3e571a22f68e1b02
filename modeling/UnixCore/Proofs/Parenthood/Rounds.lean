import Mathlib.Logic.Function.Iterate
import UnixCore.Proofs.Parenthood.Arrivals
import UnixCore.Ram.Services

/-! Forks that fail use up ids. A process can fork again and again without anything else changing,
until the counter of the ids has gone round. -/

namespace UnixCore

variable {W : Type} {S : Services W} {P : W → Prop} {s : System W}

namespace ProcessTable

variable {α : Type} {t t' : ProcessTable α} {make : Pid → α} {pid : Pid}

theorem create_eq_ok (hroom : t.size < t.capacity)
    (hsearch : search t.entries pidCount t.nextPid = some pid) :
    t.create make = .ok (pid, { t with
      entries := t.entries.insert pid (make pid), nextPid := following pid }) :=
  create_eq_ok_iff.2 ⟨hroom, hsearch, rfl⟩

theorem search_of_free (hfree : t.get? t.nextPid = none) :
    search t.entries pidCount t.nextPid = some t.nextPid := by
  rw [pidCount_eq, search, contains_eq_false_of_get? hfree]
  rfl

theorem search_of_taken (htaken : t.get? t.nextPid ≠ none)
    (hfree : t.get? (following t.nextPid) = none) :
    search t.entries pidCount t.nextPid = some (following t.nextPid) := by
  have hcontains : t.entries.contains t.nextPid = true := by
    rw [get?, Ne, ← Option.not_isSome_iff_eq_none, Std.TreeMap.isSome_getElem?_iff_mem,
      Decidable.not_not] at htaken
    exact htaken
  rw [pidCount_eq, search, if_pos hcontains, search, contains_eq_false_of_get? hfree]
  rfl

theorem get?_eq_none_of_pids_lt (h : ∀ i ∈ t.pids, i < pid) {i : Pid} (hle : pid ≤ i) :
    t.get? i = none := by
  have hnot : i ∉ t.entries := fun hmem => UInt32.not_lt.2 hle (h i (mem_pids.2 hmem))
  exact Std.TreeMap.getElem?_eq_none hnot

theorem toNat_iterate_following {n : Nat} (h : pid.toNat + n ≤ Pid.highest.toNat) :
    (following^[n] pid).toNat = pid.toNat + n := by
  induction n with
  | zero => rfl
  | succ n ih =>
    have hn := ih (by omega)
    rw [Function.iterate_succ_apply', toNat_following, hn] <;> omega

end ProcessTable

/-! ### Worlds in which a fork succeeds -/

/-- In worlds of a certain kind the services duplicate every address space, and nothing that a
process gives up takes a world out of that kind. -/
structure Obliging (S : Services W) (P : W → Prop) : Prop where
  duplicate : ∀ space w, P w →
    (S.duplicateSpace space).Ensures w (fun _ w' => P w') fun _ _ => False
  release : ∀ v w, P w → P (S.release v w)
  destroy : ∀ space w, P w → P (S.destroySpace space w)

namespace Obliging

open Kernel

variable {k : Kernel W} {p : ProcessId}

theorem dropFile (hS : Obliging S P) (id : FileId) {sh : Shared W} (h : P sh.world) :
    P (sh.dropFile S id).world := by
  unfold Shared.dropFile
  split
  · exact hS.release _ _ h
  · exact h

theorem clear (hS : Obliging S P) {d : Descriptors W} (h : P d.shared.world) :
    P (d.clear S).shared.world := by
  rw [Descriptors.clear]
  generalize d.table.held = ids
  generalize d.shared = sh at h ⊢
  induction ids generalizing sh with
  | nil => exact h
  | cons id ids ih => exact ih _ (hS.dropFile id h)

theorem reap (hS : Obliging S P) (h : P k.shared.world) : P (reap S p k).shared.world := by
  have hcleared : P (k.cleared S p).shared.world := hS.clear h
  rw [reap_eq]
  generalize (k.process p).space = space
  generalize (k.process p).directory = directory
  have hspace : P (destroySpace S space { modifyProcess p
      (Process.reaped (k.cleared S p).table) k with
        shared := (k.cleared S p).shared }).shared.world := by
    cases space with
    | none => exact hcleared
    | some space => exact hS.destroy _ _ hcleared
  generalize destroySpace S space _ = k' at hspace
  cases directory with
  | none => exact hspace
  | some id =>
    simp only [Kernel.dropDirectory, Shared.dropDirectory]
    split
    · exact hS.release _ _ hspace
    · exact hspace

theorem beginFork (hS : Obliging S P) (h : P k.shared.world) (hp : p < k.records.size)
    {pid : Pid} {table : ProcessTable ProcessId}
    (hcreate : (k.table.create fun _ => k.records.size) = .ok (pid, table)) :
    (beginFork S p).Ensures k (fun _ k' => P k'.shared.world) fun _ _ => False := by
  have hbegins := begins_beginFork (S := S) hp
  refine Action.ensures_iff.2 ⟨fun child k' hrun => ?_, fun e k' hrun => ?_⟩
  · rw [hrun] at hbegins
    cases hbegins with
    | begun _ hcopies =>
      rw [world_withChild]
      generalize (k.process p).space = space at hcopies
      cases hcopies with
      | nothing => exact h
      | copied hcopy => exact (hS.duplicate _ _ h).of_ok hcopy
  · rw [hrun] at hbegins
    cases hbegins with
    | refused hrefused => cases hcreate.symm.trans hrefused
    | uncopied _ _ hcopy => exact (hS.duplicate _ _ h).of_error hcopy

end Obliging

/-! ### Rounds -/

open Kernel

/-- What a number of forks that failed leave: as many records and used ids more. -/
structure Spent (n : Nat) (k k' : Kernel W) : Prop where
  records : k'.records.size = k.records.size + n
  next : k'.table.nextPid = ProcessTable.following^[n] k.table.nextPid
  get? : ∀ pid, k'.table.get? pid = k.table.get? pid
  size : k'.table.size = k.table.size
  capacity : k'.table.capacity = k.table.capacity
  others : ∀ q < k.records.size, k'.process q = k.process q

theorem exists_run_failed_fork (hS : Obliging S P) (hworld : P s.kernel.shared.world)
    {p : ProcessId} (hp : p < s.kernel.records.size)
    (hroom : s.kernel.table.size < s.kernel.table.capacity)
    (hfree : s.kernel.table.get? s.kernel.table.nextPid = none) :
    ∃ k, Run S s [.forkBegun p s.kernel.records.size, .forkFailed p s.kernel.records.size]
        { s with kernel := k } ∧ Spent 1 s.kernel k ∧ P k.shared.world := by
  have hcreate : (s.kernel.table.create fun _ => s.kernel.records.size) = .ok _ :=
    ProcessTable.create_eq_ok hroom (ProcessTable.search_of_free hfree)
  obtain ⟨child, k₁, hbegun, hworld₁⟩ := (hS.beginFork hworld hp hcreate).exists_ok
  obtain ⟨rfl, pid, hmade⟩ := (ensures_beginFork_made hp).of_ok hbegun
  have hrun := (Steps.start.step (.forkBegun hp hbegun)).step
    (Step.forkFailed (e := .outOfMemory) (List.mem_cons_self ..) rfl)
  rw [List.erase_cons_head] at hrun
  refine ⟨_, hrun, ?_, hS.reap hworld₁⟩
  -- The child has lost its thread and is given up; its id is that of the counter before.
  let k₂ := report (.forkFailed (s.kernel.process p).pid .outOfMemory)
    (modifyProcess s.kernel.records.size Process.detachThread k₁)
  have hlost : Made pid _ 0 s.kernel k₂ := hmade.detachThread.within (within_report _)
  have htable : (discard S s.kernel.records.size k₂).table = k₁.table.remove pid := by
    rw [table_discard, hlost.pid_eq]
    rfl
  obtain ⟨hsize, hcapacity⟩ := ProcessTable.size_remove_of_create hmade.create
  have hstillborn := hlost.stillborn_discard (S := S)
  refine ⟨hstillborn.size, ?_, hstillborn.table, ?_, ?_, fun q hq => ?_⟩
  · rw [htable, ← ProcessTable.eq_nextPid_of_create hmade.create hfree]
    show k₁.table.nextPid = ProcessTable.following pid
    exact ProcessTable.nextPid_of_create hmade.create
  · rw [htable, hsize]
  · rw [htable, hcapacity]
  · rw [process_discard_ne S (Nat.ne_of_lt hq), hlost.others q hq]

/-- A process can fork and fail as often as there are free ids one after the other. -/
theorem exists_run_failed_forks (hS : Obliging S P) (hworld : P s.kernel.shared.world)
    {p : ProcessId} (hp : p < s.kernel.records.size)
    (hroom : s.kernel.table.size < s.kernel.table.capacity) {n : Nat}
    (hfree : ∀ i < n,
      s.kernel.table.get? (ProcessTable.following^[i] s.kernel.table.nextPid) = none) :
    ∃ labels k, Run S s labels { s with kernel := k } ∧ Spent n s.kernel k ∧
      P k.shared.world ∧ ∀ q a, .forkBegun q a ∈ labels → q = p := by
  induction n with
  | zero =>
    exact ⟨[], s.kernel, .start, ⟨rfl, rfl, fun _ => rfl, rfl, rfl, fun _ _ => rfl⟩, hworld, nofun⟩
  | succ n ih =>
    obtain ⟨labels, k, hrun, hspent, hk, hlabels⟩ := ih fun i hi => hfree i (Nat.lt_succ_of_lt hi)
    have hp' : p < k.records.size := by
      rw [hspent.records]
      exact Nat.lt_add_right n hp
    have hroom' : k.table.size < k.table.capacity := by
      rw [hspent.size, hspent.capacity]
      exact hroom
    have hfree' : k.table.get? k.table.nextPid = none := by
      rw [hspent.get?, hspent.next]
      exact hfree n (Nat.lt_succ_self n)
    obtain ⟨k', hrun', hspent', hk'⟩ :=
      exists_run_failed_fork (s := { s with kernel := k }) hS hk hp' hroom' hfree'
    refine ⟨_, k', hrun.trans hrun', ⟨?_, ?_, fun i => ?_, ?_, ?_, fun q hq => ?_⟩, hk',
      fun q a hmem => ?_⟩
    · rw [hspent'.records, hspent.records, Nat.add_assoc]
    · rw [hspent'.next, hspent.next]
      exact (Function.iterate_succ_apply' _ n _).symm
    · rw [hspent'.get?, hspent.get?]
    · rw [hspent'.size, hspent.size]
    · rw [hspent'.capacity, hspent.capacity]
    · have hq' : q < k.records.size := by
        rw [hspent.records]
        exact Nat.lt_add_right n hq
      rw [hspent'.others q hq', hspent.others q hq]
    · rcases List.mem_append.1 hmem with hmem | hmem
      · exact hlabels q a hmem
      · simp only [List.mem_cons, List.not_mem_nil, or_false, Label.forkBegun.injEq,
          reduceCtorEq] at hmem
        exact hmem.1

theorem run_fork {p child : ProcessId} {k : Kernel W} (hp : p < s.kernel.records.size)
    (hbegun : Kernel.beginFork S p s.kernel = .ok child k) :
    Run S s [.forkBegun p child, .forked p child] { s with
      kernel := report (.processForked (s.kernel.process p).pid (k.process child).pid) k } := by
  have hforked := (Steps.start.step (.forkBegun hp hbegun)).step
    (Step.forked (List.mem_cons_self ..) rfl)
  rw [List.erase_cons_head] at hforked
  exact hforked

/-- If only ids below the counter are taken, forks that fail take it once round, to the lowest id.
When that is taken and the one after it is not, the child of the next fork gets the latter. -/
theorem exists_run_round (hS : Obliging S P) (hworld : P s.kernel.shared.world) {p : ProcessId}
    (hp : p < s.kernel.records.size) (hroom : s.kernel.table.size < s.kernel.table.capacity)
    (hpids : ∀ i ∈ s.kernel.table.pids, i < s.kernel.table.nextPid) {n : Nat}
    (hn : s.kernel.table.nextPid.toNat + n = Pid.highest.toNat)
    (htaken : s.kernel.table.get? Pid.lowest ≠ none)
    (hfree : s.kernel.table.get? (ProcessTable.following Pid.lowest) = none) :
    ∃ labels k k', Run S s (labels ++ [.forkBegun p k.records.size, .forked p k.records.size])
        { s with kernel :=
            report (.processForked (k.process p).pid (k'.process k.records.size).pid) k' } ∧
      Spent (n + 1) s.kernel k ∧ (∀ q a, .forkBegun q a ∈ labels → q = p) ∧
        Made (ProcessTable.following Pid.lowest) (some (k.process p).pid) 1 k k' := by
  have hiterate (i : Nat) (hi : i ≤ n) :
      (ProcessTable.following^[i] s.kernel.table.nextPid).toNat =
        s.kernel.table.nextPid.toNat + i :=
    ProcessTable.toNat_iterate_following (by omega)
  obtain ⟨labels, k, hrun, hspent, hworld', hlabels⟩ :=
    exists_run_failed_forks (n := n + 1) hS hworld hp hroom fun i hi =>
      ProcessTable.get?_eq_none_of_pids_lt hpids (UInt32.le_iff_toNat_le.2 (by
        rw [hiterate i (Nat.le_of_lt_succ hi)]
        exact Nat.le_add_right _ _))
  have hnext : k.table.nextPid = Pid.lowest := by
    have hlast := (hiterate n (Nat.le_refl n)).trans hn
    rw [hspent.next, Function.iterate_succ_apply', ProcessTable.following, if_pos]
    exact UInt32.le_iff_toNat_le.2 (Nat.le_of_eq hlast.symm)
  have hp' : p < k.records.size := by
    rw [hspent.records]
    exact Nat.lt_add_right _ hp
  obtain ⟨table, hcreate⟩ : ∃ table, (k.table.create fun _ => k.records.size) =
      .ok (ProcessTable.following Pid.lowest, table) := by
    rw [← hnext] at hfree htaken ⊢
    rw [← hspent.get?] at hfree htaken
    refine ⟨_, ProcessTable.create_eq_ok ?_ (ProcessTable.search_of_taken htaken hfree)⟩
    rw [hspent.size, hspent.capacity]
    exact hroom
  obtain ⟨child, k', hbegun, -⟩ := (hS.beginFork hworld' hp' hcreate).exists_ok
  obtain ⟨rfl, pid, hmade⟩ := (ensures_beginFork_made hp').of_ok hbegun
  obtain ⟨rfl, -⟩ := Prod.mk.inj (Except.ok.inj (hmade.create.symm.trans hcreate))
  exact ⟨labels, k, k', hrun.trans (run_fork hp' hbegun), hspent, hlabels, hmade⟩

/-! ### Worlds in memory -/

theorem Ram.obliging :
    Obliging Ram.services fun r => ∀ account, (r.account account).duplicateError = none := by
  have hmodify {r : Ram} (h : ∀ account, (r.account account).duplicateError = none) (number : Nat)
      (f : SpaceAccount → SpaceAccount) (hf : ∀ a, (f a).duplicateError = a.duplicateError)
      (account : Nat) : ((r.modifyAccount number f).account account).duplicateError = none := by
    rw [← h account]
    simp only [Ram.account, Ram.modifyAccount, Array.getElem?_modify]
    split
    case isTrue heq =>
      rw [← heq]
      cases r.accounts[number]? with
      | none => rfl
      | some a => exact hf a
    case isFalse => rfl
  refine ⟨fun space r h => ?_, fun v r h => h, fun space r h => hmodify h _ _ fun _ => rfl⟩
  show (Ram.duplicateSpace space).Ensures r _ _
  rw [Ram.duplicateSpace, Action.ensures_bind, Action.ensures_get, h]
  exact hmodify h _ _ fun _ => rfl

theorem Ram.duplicateError_of_all {r : Ram}
    (h : r.accounts.all (·.duplicateError = none) = true) (account : Nat) :
    (r.account account).duplicateError = none := by
  rw [Ram.account]
  cases hget : r.accounts[account]? with
  | none => rfl
  | some a =>
    have ha := Array.all_eq_true_iff_forall_mem.1 h a (Array.mem_of_getElem? hget)
    exact of_decide_eq_true ha

end UnixCore
