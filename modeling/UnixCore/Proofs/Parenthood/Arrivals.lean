import UnixCore.Proofs.Rendezvous.Steps

/-! New process records and the ids they get. Every step makes one record at most, and a record that
has a parent is made by the fork of that parent. As long as the counter of the ids has not gone
round, the ids follow the numbers of the records. -/

namespace UnixCore

variable {W : Type} {S : Services W} {s s' : System W} {l : Label}

namespace ProcessTable

variable {α : Type} {t t' : ProcessTable α} {make : Pid → α} {pid : Pid}

/-- An id that is free when the counter comes to it is the next one. -/
theorem eq_nextPid_of_create (h : t.create make = .ok (pid, t'))
    (hfree : t.get? t.nextPid = none) : pid = t.nextPid := by
  obtain ⟨-, hsearch, -⟩ := create_eq_ok_iff.1 h
  rw [pidCount_eq, search, contains_eq_false_of_get? hfree] at hsearch
  exact (Option.some.inj hsearch).symm

end ProcessTable

/-! ### Who is new -/

open Kernel

/-- What a step does to the number of records and to the counter of the ids. -/
inductive Arrival (S : Services W) (k : Kernel W) : Label → Kernel W → Prop
  | nobody {l : Label} {k' : Kernel W} : (∀ parent child, l ≠ .forkBegun parent child) →
    k'.records.size = k.records.size → k'.table.nextPid = k.table.nextPid → Arrival S k l k'
  | spawned {pid : Pid} {n : Nat} {k' : Kernel W} : Made pid none n k k' → Arrival S k .worked k'
  | forked {parent : ProcessId} {pid : Pid} {n : Nat} {k' : Kernel W} :
    parent < k.records.size → Made pid (some (k.process parent).pid) n k k' →
    Arrival S k (.forkBegun parent k.records.size) k'
  | givenUp {l : Label} {k' : Kernel W} : (∀ parent child, l ≠ .forkBegun parent child) →
    GivenUp S k k' → Arrival S k l k'

theorem Effect.arrival {k k' : Kernel W} (h : Effect S k l k') : Arrival S k l k' := by
  cases h with
  | within h => exact .nobody nofun h.size (by rw [h.table])
  | spawned h => exact .spawned h
  | spawnFailed h => exact .givenUp nofun h
  | @exited a code =>
    rcases exit_cases a code k with ⟨-, heq⟩ | ⟨-, -, heq⟩ | ⟨-, -, heq⟩ <;> rw [heq]
    · exact .nobody nofun rfl rfl
    · exact .nobody nofun rfl rfl
    · exact .nobody nofun (size_modifyProcess _) rfl
  | forkRefused => exact .nobody nofun rfl rfl
  | forkGivenUp h => exact .givenUp nofun h
  | forkBegun hparent h => exact .forked hparent h
  | forked => exact .nobody nofun rfl rfl
  | forkFailed =>
    refine .nobody nofun ((size_discard S).trans (size_modifyProcess _)) ?_
    rw [table_discard]
    rfl
  | waitRefused => exact .nobody nofun rfl rfl
  | waitBlocked ha =>
    have h := calm_enterWait ha
    exact .nobody nofun h.size (by rw [h.table])
  | wasted => exact .nobody nofun size_putSignal rfl
  | collected =>
    refine .nobody nofun ((size_reap S).trans size_putSignal) ?_
    show (reap S _ _).table.nextPid = _
    rw [table_reap]
    rfl

theorem Step.arrival (h : s.Sound) (hstep : Step S s l s') : Arrival S s.kernel l s'.kernel :=
  (hstep.effect h).arrival

/-! ### Ids -/

/-- The ids of the records follow their numbers, and the next id does so while there is one. -/
structure Kernel.Numbered (k : Kernel W) : Prop where
  pid : ∀ p < k.records.size, (k.process p).pid.toNat = Pid.lowest.toNat + p
  next : k.records.size < ProcessTable.pidCount →
    k.table.nextPid.toNat = Pid.lowest.toNat + k.records.size

theorem Kernel.Numbered.inj {k : Kernel W} (h : k.Numbered) {p q : ProcessId}
    (hp : p < k.records.size) (hq : q < k.records.size)
    (hpid : (k.process p).pid = (k.process q).pid) : p = q := by
  have hnumber := congrArg UInt32.toNat hpid
  rw [h.pid p hp, h.pid q hq] at hnumber
  exact Nat.add_left_cancel hnumber

theorem Kernel.Numbered.created {k k' : Kernel W} {pid : Pid} (h : k.Numbered)
    (htable : ∀ i a, k.table.get? i = some a → a < k.records.size ∧ (k.process a).pid = i)
    {table : ProcessTable ProcessId}
    (hcreate : (k.table.create fun _ => k.records.size) = .ok (pid, table))
    (hnext : k'.table.nextPid = table.nextPid) (hsize : k'.records.size = k.records.size + 1)
    (hsame : ∀ p < k.records.size, (k'.process p).pid = (k.process p).pid)
    (hself : (k'.process k.records.size).pid = pid)
    (hroom : k.records.size < ProcessTable.pidCount) : k'.Numbered := by
  have hcount := ProcessTable.pidCount_eq
  have hlowest : Pid.lowest.toNat = 2 := rfl
  have hhighest : Pid.highest.toNat = 32767 := rfl
  have hnext₀ := h.next hroom
  have hfree : k.table.get? k.table.nextPid = none := by
    cases hget : k.table.get? k.table.nextPid with
    | none => rfl
    | some a =>
      obtain ⟨ha, hpid⟩ := htable _ _ hget
      have hnumber := h.pid a ha
      rw [hpid, hnext₀] at hnumber
      exact (Nat.ne_of_gt ha (Nat.add_left_cancel hnumber)).elim
  have hpid := ProcessTable.eq_nextPid_of_create hcreate hfree
  refine ⟨fun p hp => ?_, fun hlt => ?_⟩
  · rcases Nat.lt_or_eq_of_le (Nat.le_of_lt_succ (Nat.lt_of_lt_of_eq hp hsize)) with hold | rfl
    · rw [hsame p hold, h.pid p hold]
    · rw [hself, hpid, hnext₀]
  · have hnumber := congrArg UInt32.toNat hpid
    rw [hnext, ProcessTable.nextPid_of_create hcreate, ProcessTable.toNat_following] <;> omega

/-- The counter goes round only after as many records as there are ids. -/
theorem Arrival.numbered {k k' : Kernel W} (harrival : Arrival S k l k')
    (h : k.records.size ≤ ProcessTable.pidCount → k.Numbered) (hafter : k.After k')
    (htable : ∀ i a, k.table.get? i = some a → a < k.records.size ∧ (k.process a).pid = i)
    (hsize : k'.records.size ≤ ProcessTable.pidCount) : k'.Numbered := by
  have hk := h (Nat.le_trans hafter.size_le hsize)
  cases harrival with
  | nobody _ hsame hnext =>
    refine ⟨fun p hp => ?_, fun hlt => ?_⟩
    · rw [hsame] at hp
      rw [hafter.pid p hp, hk.pid p hp]
    · rw [hsame] at hlt ⊢
      rw [hnext, hk.next hlt]
  | spawned hmade =>
    refine hk.created htable hmade.create rfl hmade.size hafter.pid hmade.pid_eq ?_
    exact Nat.lt_of_lt_of_le hmade.lt_size hsize
  | forked _ hmade =>
    refine hk.created htable hmade.create rfl hmade.size hafter.pid hmade.pid_eq ?_
    exact Nat.lt_of_lt_of_le hmade.lt_size hsize
  | givenUp _ hgiven =>
    obtain ⟨pid, k₁, hmade, rfl⟩ := hgiven
    have hlt : k.records.size < (discard S k.records.size k₁).records.size :=
      Nat.lt_of_lt_of_eq hmade.lt_size (size_discard S).symm
    refine hk.created htable hmade.create ?_ ((size_discard S).trans hmade.size) hafter.pid ?_
      (Nat.lt_of_lt_of_le hlt hsize)
    · rw [table_discard]
      rfl
    · rw [process_discard_self S hmade.lt_size]
      exact hmade.pid_eq

end UnixCore
