import UnixCore.Proofs.Sharing.Files

/-! Transfers through the descriptors of an open file. A descriptor only says which file is meant:
the same transfer through any other descriptor of the file, whichever process has it, ends the same
way and leaves the same but for the log. -/

namespace UnixCore

open Action

variable {W : Type} {S : Services W}

/-- A transfer and how it ended. -/
inductive Transfer
  | read (count : Nat) (r : Except Errno (List UInt8))
  | write (bytes : List UInt8) (r : Except Errno UInt64)

namespace Transfer

/-- A transfer by process `p` through its descriptor `fd`. -/
inductive Through (S : Services W) (p : ProcessId) (fd : Nat) (k : Kernel W) :
    Transfer → Kernel W → Prop
  | read {count : Nat} {r : Except Errno (List UInt8)} {k' : Kernel W} :
    (Kernel.onDescriptors p (Descriptors.read S fd count)).result k = (r, k') →
    Through S p fd k (.read count r) k'
  | write {bytes : List UInt8} {r : Except Errno UInt64} {k' : Kernel W} :
    (Kernel.onDescriptors p (Descriptors.write S fd bytes)).result k = (r, k') →
    Through S p fd k (.write bytes r) k'

/-- The same transfer of an open file, told without its descriptors. -/
inductive OnFile (S : Services W) (id : FileId) (sh : Shared W) : Transfer → Shared W → Prop
  | read {count : Nat} {r : Except Errno (List UInt8)} {sh' : Shared W} :
    (Shared.read S id count).result sh = (r, sh') → OnFile S id sh (.read count r) sh'
  | write {bytes : List UInt8} {r : Except Errno UInt64} {sh' : Shared W} :
    (Shared.write S id bytes).result sh = (r, sh') → OnFile S id sh (.write bytes r) sh'

/-- Transfers of a file one right after the other, each with the process and the descriptor that it
goes through. -/
inductive InTurn (S : Services W) (id : FileId) :
    Kernel W → List ((ProcessId × Nat) × Transfer) → Kernel W → Prop
  | done {k : Kernel W} : InTurn S id k [] k
  | cons {p : ProcessId} {fd : Nat} {t : Transfer} {k k' k'' : Kernel W}
    {ts : List ((ProcessId × Nat) × Transfer)} :
    (k.process p).descriptors.get? fd = some id → t.Through S p fd k k' → InTurn S id k' ts k'' →
    InTurn S id k (((p, fd), t) :: ts) k''

end Transfer

/-! ### All descriptors of a file are alike -/

namespace Shared

theorem result_read_setEvents (sh : Shared W) (id : FileId) (count : Nat) (events : Array Event) :
    (read S id count).result { sh with events } =
      Prod.map (fun r => r) (fun sh => { sh with events }) ((read S id count).result sh) := by
  unfold read Action.result
  simp only [get_bind]
  cases sh.files.get? id with
  | none => rfl
  | some file =>
    dsimp only
    cases file.mode.canRead with
    | false => rfl
    | true =>
      simp only [if_true, onWorld, bind, EStateM.bind, onPart]
      cases S.readAt file.vnode file.offset count sh.world <;> rfl

theorem result_write_setEvents (sh : Shared W) (id : FileId) (bytes : List UInt8)
    (events : Array Event) :
    (write S id bytes).result { sh with events } =
      Prod.map (fun r => r) (fun sh => { sh with events }) ((write S id bytes).result sh) := by
  unfold write Action.result
  simp only [get_bind]
  cases sh.files.get? id with
  | none => rfl
  | some file =>
    dsimp only
    cases file.mode.canWrite with
    | false => rfl
    | true =>
      simp only [if_true, onWorld, bind, EStateM.bind, onPart]
      cases S.writeAt file.vnode file.offset bytes sh.world <;> rfl

end Shared

namespace Kernel

/-- Two kernels that differ at most in the log. -/
def SameButLog (k k' : Kernel W) : Prop :=
  ∃ events, k' = { k with shared := { k.shared with events } }

namespace SameButLog

variable {k k' k'' : Kernel W}

theorem refl (k : Kernel W) : SameButLog k k := ⟨k.shared.events, rfl⟩

theorem symm (h : SameButLog k k') : SameButLog k' k := by
  obtain ⟨events, rfl⟩ := h
  exact ⟨k.shared.events, rfl⟩

theorem trans (h : SameButLog k k') (h' : SameButLog k' k'') : SameButLog k k'' := by
  obtain ⟨events, rfl⟩ := h
  obtain ⟨events', rfl⟩ := h'
  exact ⟨events', rfl⟩

end SameButLog

variable {k : Kernel W} {p : ProcessId} {fd : Nat} {id : FileId}

/-- A transfer through a descriptor is one of its file, and a line in the log. -/
theorem ensures_transfer {α : Type} (hid : (k.process p).descriptors.get? fd = some id)
    (act : FileId → Action (Shared W) α) (event : α → Event) :
    (onDescriptors p (do
        let a ← Descriptors.onShared (act (← Descriptors.lookup fd))
        Descriptors.report (event a)
        return a)).Ensures k
      (fun a k' => ∃ sh, (act id).result k.shared = (.ok a, sh) ∧
        SameButLog { k with shared := sh } k')
      fun e k' => ∃ sh, (act id).result k.shared = (.error e, sh) ∧
        SameButLog { k with shared := sh } k' := by
  have hself (sh : Shared W) :
      { modifyProcess p ({ · with descriptors := (k.process p).descriptors }) k with
        shared := sh } = { k with shared := sh } := by
    rw [modifyProcess_eq_self rfl]
  rw [onDescriptors, ensures_onPart, ensures_bind, Descriptors.ensures_lookup]
  refine ⟨fun id' hid' => ?_, fun hnone => by rw [hid] at hnone; cases hnone⟩
  cases hid.symm.trans hid'
  rw [ensures_bind, Descriptors.ensures_onShared]
  refine ensures_result.mono (fun a sh hact => ?_) fun e sh hact => ?_
  · simp only [ensures_bind, Descriptors.ensures_report, ensures_pure]
    exact ⟨sh, hact, _, hself _⟩
  · exact ⟨sh, hact, sh.events, hself sh⟩

end Kernel

namespace Transfer

variable {k k' : Kernel W} {p q : ProcessId} {fd fd' : Nat} {id : FileId} {t : Transfer}
  {sh sh' : Shared W}

theorem Through.onFile (h : Through S p fd k t k')
    (hid : (k.process p).descriptors.get? fd = some id) :
    ∃ sh, OnFile S id k.shared t sh ∧ Kernel.SameButLog { k with shared := sh } k' := by
  cases h with
  | @read count r _ hresult =>
    have hread := (Kernel.ensures_transfer hid (Shared.read S · count)
      fun bytes => .bytesRead fd bytes.length).of_result hresult
    cases r with
    | ok bytes => exact hread.imp fun _ h => ⟨.read h.1, h.2⟩
    | error e => exact hread.imp fun _ h => ⟨.read h.1, h.2⟩
  | @write bytes r _ hresult =>
    have hwrite := (Kernel.ensures_transfer hid (Shared.write S · bytes)
      fun count => .bytesWritten fd count).of_result hresult
    cases r with
    | ok count => exact hwrite.imp fun _ h => ⟨.write h.1, h.2⟩
    | error e => exact hwrite.imp fun _ h => ⟨.write h.1, h.2⟩

/-- What is transferred does not depend on the log. -/
theorem OnFile.setEvents (h : OnFile S id sh t sh') (events : Array Event) :
    OnFile S id { sh with events } t { sh' with events } := by
  cases h with
  | read hresult => exact .read (by rw [Shared.result_read_setEvents, hresult]; rfl)
  | write hresult => exact .write (by rw [Shared.result_write_setEvents, hresult]; rfl)

/-- The same transfer through another descriptor of the file ends the same way. -/
theorem Through.alias (h : Through S p fd k t k')
    (hid : (k.process p).descriptors.get? fd = some id) {k₁ : Kernel W}
    (hsame : Kernel.SameButLog k k₁) (hid' : (k₁.process q).descriptors.get? fd' = some id) :
    ∃ k₁', Through S q fd' k₁ t k₁' ∧ Kernel.SameButLog k' k₁' := by
  obtain ⟨sh, hfile, hlog⟩ := h.onFile hid
  obtain ⟨events, rfl⟩ := hsame
  have hsh : Kernel.SameButLog { k with shared := sh } { k with shared := { sh with events } } :=
    ⟨events, rfl⟩
  have hfile' := hfile.setEvents events
  cases hfile with
  | @read count r _ _ =>
    rcases hrun : (Kernel.onDescriptors q (Descriptors.read S fd' count)).result
      { k with shared := { k.shared with events } } with ⟨r', k₁'⟩
    have hthrough : Through S q fd' _ (.read count r') k₁' := .read hrun
    obtain ⟨sh', hfile'', hlog'⟩ := hthrough.onFile hid'
    cases hfile' with | read hresult => cases hfile'' with | read hresult' =>
    cases hresult.symm.trans hresult'
    exact ⟨k₁', hthrough, (hlog.symm.trans hsh).trans hlog'⟩
  | @write bytes r _ _ =>
    rcases hrun : (Kernel.onDescriptors q (Descriptors.write S fd' bytes)).result
      { k with shared := { k.shared with events } } with ⟨r', k₁'⟩
    have hthrough : Through S q fd' _ (.write bytes r') k₁' := .write hrun
    obtain ⟨sh', hfile'', hlog'⟩ := hthrough.onFile hid'
    cases hfile' with | write hresult => cases hfile'' with | write hresult' =>
    cases hresult.symm.trans hresult'
    exact ⟨k₁', hthrough, (hlog.symm.trans hsh).trans hlog'⟩

/-- A transfer changes no process. -/
theorem Through.process_eq (h : Through S p fd k t k')
    (hid : (k.process p).descriptors.get? fd = some id) (q : ProcessId) :
    k'.process q = k.process q := by
  obtain ⟨sh, -, events, rfl⟩ := h.onFile hid
  rfl

/-- Which descriptors of a file the transfers go through makes no difference to any of them. -/
theorem InTurn.alias {ts ts' : List ((ProcessId × Nat) × Transfer)} {k₁ : Kernel W}
    (h : InTurn S id k ts k') (hsame : Kernel.SameButLog k k₁)
    (hcalls : ts'.map Prod.snd = ts.map Prod.snd)
    (hids : ∀ c ∈ ts', (k.process c.1.1).descriptors.get? c.1.2 = some id) :
    ∃ k₁', InTurn S id k₁ ts' k₁' ∧ Kernel.SameButLog k' k₁' := by
  induction h generalizing ts' k₁ with
  | done =>
    cases List.map_eq_nil_iff.1 hcalls
    exact ⟨k₁, .done, hsame⟩
  | @cons p fd t k k' k'' ts hid hthrough _ ih =>
    obtain ⟨⟨⟨q, fd'⟩, t'⟩, ts', rfl, rfl, hrest⟩ := List.map_eq_cons_iff.1 hcalls
    have hid' : (k₁.process q).descriptors.get? fd' = some id := by
      obtain ⟨events, rfl⟩ := hsame
      exact hids _ (List.mem_cons_self ..)
    obtain ⟨k₁', hthrough', hsame'⟩ := hthrough.alias hid hsame hid'
    obtain ⟨k₁'', hturns, hsame''⟩ := ih hsame' hrest fun c hc => by
      rw [hthrough.process_eq hid]
      exact hids c (List.mem_cons_of_mem _ hc)
    exact ⟨k₁'', .cons hid' hthrough' hturns, hsame''⟩

end Transfer

end UnixCore
