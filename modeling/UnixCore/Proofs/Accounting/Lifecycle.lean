import UnixCore.Proofs.Accounting.Kernel

/-! The operations on processes keep the books, wherever they fail: what a failing operation took it
gives back, or leaves to the record that already has it. -/

namespace UnixCore

theorem Process.holdings_fresh (pid : Pid) (name : String) (openMax : Nat) :
    (fresh pid name openMax).holdings = 0 := by
  have hheld : (DescriptorTable.empty openMax).held = [] := by
    simp [DescriptorTable.held, DescriptorTable.empty]
  rw [holdings, fresh, hheld]
  rfl

namespace Kernel

variable {W α : Type} {S : Services W} {past : Shared (W × Ledger)} {hand : Holdings}
  {p : ProcessId} {n : Nat} {k k' : Kernel (W × Ledger)}

namespace Booked

theorem created (h : Booked past n hand k) (pid : Pid) (name : String)
    (table : ProcessTable ProcessId) :
    Booked past (k.records.size + 1) hand (k.created pid name table) := by
  refine ⟨by simp [Kernel.created, Kernel.report], fun q hq => ?_, ?_⟩
  · rcases Array.mem_push.1 hq with hq | rfl
    · exact h.exact q hq
    · exact DescriptorTable.exact_empty _
  · have hsame : (k.created pid name table).holdings = k.holdings := by
      simp only [holdings, Kernel.created, Kernel.report, Array.toList_push, List.map_append,
        List.sum_append, List.map_cons, List.map_nil, List.sum_cons, List.sum_nil,
        Process.holdings_fresh, add_zero]
    rw [hsame]
    exact h.balanced.report _

theorem attachThread (h : Booked past n hand k) :
    Booked past n hand (k.modifyProcess p Process.attachThread) :=
  h.modifyProcess rfl rfl

end Booked

/-! ### Fork -/

theorem ensures_copySpace {space : Option AddressSpace} (h : Booked past n hand k) :
    (copySpace S.audited space).Ensures k
      (fun copy k' => Booked past n (.ofSpace? copy + hand) k' ∧ k'.records = k.records)
      fun _ k' => Booked past n hand k' := by
  cases space with
  | none => exact ⟨(zero_add hand).symm ▸ h, rfl⟩
  | some space =>
    rw [copySpace, Action.ensures_map, ensures_onWorld]
    refine Services.ensures_duplicateSpace.mono
      (fun copy w hw => ⟨h.congr rfl fun rest hb => ?_, rfl⟩)
      fun _ w hw => h.congr rfl fun rest hb => hb.keepLedger hw
    rw [add_left_comm]
    exact hb.make hw

theorem ensures_copyIntoChild {parent child : ProcessId} (h : Booked past n hand k)
    (hparent : parent < n) (hchild : child < n) (hempty : (k.process child).holdings = 0) :
    (copyIntoChild S.audited parent child).Ensures k (fun _ k' => Booked past n hand k')
      fun _ k' => Booked past n hand k' := by
  rw [copyIntoChild, Action.ensures_bind, Action.ensures_get, Action.ensures_bind]
  refine (ensures_copySpace h).mono (fun copy k₁ h₁ => ?_) fun _ _ h₁ => h₁
  obtain ⟨h₁, hrecords⟩ := h₁
  have hprocess (q : ProcessId) : k₁.process q = k.process q := by
    rw [process, hrecords, process]
  rw [Action.ensures_modify]
  obtain ⟨others, hb, hput⟩ := h₁.focus hchild
  obtain ⟨rest, hb', -⟩ := h₁.focus hparent
  rw [hprocess] at hb hb' hput
  rw [hempty, zero_add] at hb
  -- What the parent holds is still there when the child is about to share it.
  have hfiles : ∀ id ∈ (k.process parent).descriptors.held,
      id ∈ (others + (.ofSpace? copy + hand)).files := by
    intro id hid
    refine hb.files.isSome_get?_iff.1 (hb'.files.isSome_get?_iff.2 ?_)
    exact Multiset.mem_add.2 (.inl (Multiset.mem_add.2 (.inl (Multiset.mem_add.2 (.inl hid)))))
  have hdirectories : ∀ id ∈ (k.process parent).directory,
      id ∈ (.ofFiles (k.process parent).descriptors.held +
        (others + (.ofSpace? copy + hand))).directories := by
    intro id hid
    refine Multiset.mem_add.2 (.inr ?_)
    refine hb.directories.isSome_get?_iff.1 (hb'.directories.isSome_get?_iff.2 ?_)
    simp [Process.holdings, Option.mem_def.1 hid, Holdings.ofDirectory?, Holdings.ofDirectory]
  have hretained := Shared.balanced_retainFiles hb hfiles
  refine hput ({ · with
    parent := some (k.process parent).pid, space := copy, directory := (k.process parent).directory,
    descriptors := (k.process parent).descriptors }) hand _ (records_retainDirectory _)
    (h.exact_process hparent) ?_
  have hsum : ({ k.process child with
      parent := some (k.process parent).pid, space := copy,
      directory := (k.process parent).directory,
      descriptors := (k.process parent).descriptors } : Process).holdings + (others + hand) =
      .ofDirectory? (k.process parent).directory +
        (.ofFiles (k.process parent).descriptors.held + (others + (.ofSpace? copy + hand))) := by
    simp only [Process.holdings]
    abel
  rw [hsum]
  exact balanced_retainDirectory hretained hdirectories

theorem ensures_rejectChild {parent : Pid} {child : ProcessId} {e : Errno}
    (h : Booked past n hand k) :
    (rejectChild S.audited parent child e : Action (Kernel (W × Ledger)) α).Ensures k
      (fun _ _ => False) fun _ k' => Booked past n hand k' := by
  simp only [rejectChild, Action.ensures_bind, Action.ensures_modify, Action.ensures_throw]
  exact ((h.report _).unregister _).reap

theorem ensures_beginFork {parent : ProcessId} (h : Booked past n hand k) (hparent : parent < n) :
    (beginFork S.audited parent).Ensures k (fun _ k' => Booked past n hand k')
      fun _ k' => Booked past n hand k' := by
  rw [beginFork, Action.ensures_bind, Action.ensures_get, Action.ensures_bind, ensures_create]
  refine ⟨fun pid table _ => ?_, fun e _ => h⟩
  have hsize : n ≤ k.records.size + 1 := Nat.le_succ_of_le h.size
  have hempty := Process.holdings_fresh pid (k.process parent).name k.config.openMax
  have hself : (k.created pid (k.process parent).name table).process k.records.size = _ :=
    process_created_self
  rw [← hself] at hempty
  rw [Action.ensures_bind, Action.ensures_outcome]
  refine (ensures_copyIntoChild (h.created pid _ table) (Nat.lt_of_lt_of_le hparent hsize)
    (Nat.lt_succ_self _) hempty).mono (fun _ k' h' => ?_) fun e k' h' => ?_
  · simp only [Action.ensures_bind, Action.ensures_modify, Action.ensures_pure]
    exact (h'.weaken hsize).attachThread
  · exact (ensures_rejectChild (h'.weaken hsize)).mono (fun _ _ h => h.elim) fun _ _ h => h

theorem ensures_endFork {parent : Pid} {child : ProcessId} {started : Except Errno Unit}
    (h : Booked past n hand k) :
    (endFork S.audited parent child started).Ensures k (fun _ k' => Booked past n hand k')
      fun _ k' => Booked past n hand k' := by
  cases started with
  | ok _ =>
    simp only [endFork, Action.ensures_bind, Action.ensures_get, Action.ensures_modify,
      Action.ensures_pure]
    exact h.report _
  | error e =>
    simp only [endFork, Action.ensures_bind, Action.ensures_modify]
    have hdetached : Booked past n hand (k.modifyProcess child Process.detachThread) :=
      h.modifyProcess rfl rfl
    exact (ensures_rejectChild hdetached).mono (fun _ _ h => h.elim) fun _ _ h => h

/-! ### Exec and the first program -/

theorem ledger_buildImage {image : Vnode} {args : ArgVector} (s : AddressSpace × W × Ledger) :
    (buildImage S.audited image args).Ensures s (fun _ t => t.2.2 = s.2.2)
      fun _ t => t.2.2 = s.2.2 := by
  simp only [buildImage, Action.ensures_bind, Action.ensures_modify]
  refine Services.ensures_besideSpace.mono (fun entry s₁ h₁ => ?_) fun _ _ h₁ => h₁
  refine Services.ensures_besideSpace.mono (fun top s₂ h₂ => ?_) fun _ _ h₂ => h₂.trans h₁
  rw [Action.ensures_onPart]
  exact Action.ensures_true.mono (fun _ _ _ => h₂.trans h₁) fun _ _ _ => h₂.trans h₁

theorem ensures_exec_booked {path : String} {args : ArgVector} (h : Booked past n hand k)
    (hp : p < n) :
    (exec S.audited p path args).Ensures k (fun _ k' => Booked past n hand k')
      fun _ k' => Booked past n hand k' := by
  rw [exec, Action.ensures_bind, Action.ensures_get]
  split
  case isTrue => exact h
  case isFalse =>
    rw [Action.ensures_bind, ensures_onWorld]
    refine Services.ensures_openPath.mono (fun image w₁ hw₁ => ?_)
      fun _ w₁ hw₁ => h.congr rfl fun _ hb => hb.keepLedger hw₁
    have h₁ : Booked past n (.ofVnode image + hand) (modifyWorld (fun _ => w₁) k) := by
      refine h.congr rfl fun rest hb => ?_
      rw [add_left_comm]
      exact hb.hand hw₁
    rw [Action.ensures_bind, Action.ensures_outcome, ensures_onWorld]
    refine Services.ensures_createSpace.mono (fun space w₂ hw₂ => ?_) fun e w₂ hw₂ => ?_
    · have h₂ : Booked past n (.ofSpace? (some space) + (.ofVnode image + hand))
          (modifyWorld (fun _ => w₂) (modifyWorld (fun _ => w₁) k)) := by
        refine h₁.congr rfl fun rest hb => ?_
        rw [add_left_comm]
        exact hb.make hw₂
      simp only [Action.ensures_bind, Action.ensures_modify, Action.ensures_outcome,
        Action.ensures_get]
      refine (ensures_onSpace_booked ledger_buildImage (h₂.setSpace hp) hp).mono
        (fun entry k₃ h₃ => ?_) fun e k₃ h₃ => ?_
      · exact h₃.release.report _
      · exact h₃.release.report _
    · simp only [Action.ensures_bind, Action.ensures_modify, Action.ensures_throw]
      have h₂ : Booked past n (.ofVnode image + hand)
          (modifyWorld (fun _ => w₂) (modifyWorld (fun _ => w₁) k)) :=
        h₁.congr rfl fun _ hb => hb.keepLedger hw₂
      exact h₂.release

theorem ensures_spawnInitial {path : String} {args : List String} (h : Booked past n hand k) :
    (spawnInitial S.audited path args).Ensures k (fun _ k' => Booked past n hand k')
      fun _ k' => Booked past n hand k' := by
  rw [spawnInitial, Action.ensures_bind, Action.ensures_get]
  dsimp only
  split
  case isTrue => exact h
  case isFalse =>
    rw [Action.ensures_bind]
    refine Action.ensures_ofExcept.2 ⟨fun args _ => ?_, fun _ _ => h⟩
    rw [Action.ensures_bind, ensures_create]
    refine ⟨fun pid table _ => ?_, fun _ _ => h⟩
    have hlt : k.records.size < k.records.size + 1 := Nat.lt_succ_self _
    have hsize : n ≤ k.records.size + 1 := Nat.le_succ_of_le h.size
    have hdiscard {p : ProcessId} {k' : Kernel (W × Ledger)}
        (h' : Booked past (k.records.size + 1) hand k') :
        Booked past n hand (discard S.audited p k') :=
      ((h'.unregister _).reap).weaken hsize
    rw [Action.ensures_bind, Action.ensures_outcome, Action.ensures_bind]
    refine (ensures_onDescriptors Descriptors.keepsBooks_attachStreams (h.created pid path table)
      hlt).mono (fun _ k₁ h₁ => ?_) fun e k₁ h₁ => hdiscard h₁
    refine (ensures_exec_booked h₁ hlt).mono (fun entry k₂ h₂ => ?_) fun e k₂ h₂ => hdiscard h₂
    simp only [Action.ensures_bind, Action.ensures_modify, Action.ensures_pure]
    exact (h₂.weaken hsize).attachThread.report _

/-! ### Exit and wait -/

theorem Booked.exit (h : Booked past n hand k) (code : Int32) :
    Booked past n hand (k.exit p code) := by
  have hexited : Booked past n hand (k.modifyProcess p (Process.exited code)) :=
    h.modifyProcess rfl rfl
  rcases exit_cases p code k with ⟨-, heq⟩ | ⟨-, -, heq⟩ | ⟨-, -, heq⟩ <;> rw [heq]
  · exact h.report _
  · exact h
  · exact hexited.report _

theorem Booked.putSignal (h : Booked past n hand k) (signal : Semaphore) :
    Booked past n hand (k.putSignal p signal) :=
  h.modifyProcess rfl rfl

theorem Booked.enterWait (h : Booked past n hand k) : Booked past n hand (k.enterWait p) := by
  unfold Kernel.enterWait
  dsimp only
  split
  · exact (h.report _).putSignal _
  · exact h.putSignal _

theorem ensures_endWait {caller pid : Pid} {child : ProcessId} (h : Booked past n hand k) :
    (endWait S.audited caller pid child).Ensures k (fun _ k' => Booked past n hand k')
      fun _ k' => Booked past n hand k' := by
  rw [endWait, Action.ensures_bind, Action.ensures_get]
  cases (k.process child).exitCode with
  | none => exact h
  | some code =>
    simp only [Action.ensures_bind, Action.ensures_modify, Action.ensures_pure]
    exact (h.unregister pid).reap.report _

end Kernel

end UnixCore
