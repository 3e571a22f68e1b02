import UnixCore.Proofs.Accounting.Runs
import UnixCore.Proofs.LifeCycle.Moves
import UnixCore.Proofs.Rendezvous.ExactlyOnce

/-! Executions: runs in which it can be seen which operation a step is and how it ended, and in
which the user programs change their own memory and the log is written between the steps. -/

namespace UnixCore

open Kernel

variable {W : Type} {S : Services W} {s s' s₀ : System W} {k k' k'' : Kernel W}
  {labels : List Label} {p : ProcessId}

/-- What is done next. -/
inductive Turn
  | operation (op : Operation) (r : Except Errno Unit)
  | call (l : Label)
  /-- The program of a process writes to its own memory. -/
  | store (p : ProcessId)
  | report (e : Event)

def Kernel.setMemory (p : ProcessId) (memory : Mapping) (k : Kernel W) : Kernel W :=
  modifyProcess p (fun r => { r with space := r.space.map ({ · with memory }) }) k

inductive Takes (S : Services W) (s : System W) : Turn → System W → Prop
  | operate {op : Operation} {r : Except Errno Unit} {k : Kernel W} : op.Valid s.kernel →
    (op.action S).result s.kernel = (r, k) → Takes S s (.operation op r) { s with kernel := k }
  | call {l : Label} {s' : System W} : l.OfCall → Step S s l s' → Takes S s (.call l) s'
  | store {p : ProcessId} (memory : Mapping) :
    Takes S s (.store p) { s with kernel := s.kernel.setMemory p memory }
  | report (e : Event) : Takes S s (.report e) { s with kernel := s.kernel.report e }

theorem Operation.takes (op : Operation) (hvalid : op.Valid s.kernel) :
    Takes S s (.operation op ((op.action S).result s.kernel).1)
      { s with kernel := op.run S s.kernel } :=
  .operate hvalid rfl

abbrev Execution (S : Services W) : System W → List Turn → System W → Prop := Steps (Takes S)

variable {turns turns' : List Turn}

/-- Every turn is a step of the system, or changes no more than the memory of one process and the
log. -/
theorem Takes.cases {t : Turn} (h : Takes S s t s') :
    (∃ l, Step S s l s') ∨
      (∃ p memory, s' = { s with kernel := s.kernel.setMemory p memory }) ∨
        ∃ e, s' = { s with kernel := s.kernel.report e } := by
  cases h with
  | @operate op r k hvalid hresult =>
    have hstep : Step S s op.label { s with kernel := op.run S s.kernel } := .operate hvalid
    rw [Operation.run, hresult] at hstep
    exact .inl ⟨_, hstep⟩
  | call _ hstep => exact .inl ⟨_, hstep⟩
  | store memory => exact .inr (.inl ⟨_, memory, rfl⟩)
  | report e => exact .inr (.inr ⟨e, rfl⟩)

/-- What others do between two steps of a call, when it can be seen how each of their operations
ends. -/
abbrev Elsewhere (S : Services W) : Kernel W → Kernel W → Prop := Interlude (Takes S)

/-! ### The invariants of runs -/

theorem Kernel.quiet_setMemory (memory : Mapping) : Quiet k (k.setMemory p memory) :=
  Within.quiet (p := p) (.of_modifyProcess (fun _ => rfl) fun _ => rfl)

theorem System.Sound.calm (h : s.Sound) (hcalm : Calm s.kernel k) :
    System.Sound { s with kernel := k } := by
  refine ⟨fun pid a ha => ?_, fun f hf => ?_, h.forks_nodup, fun w hw => ?_⟩
  · rw [hcalm.table] at ha
    exact ⟨Nat.lt_of_lt_of_eq (h.table pid a ha).1 hcalm.size.symm,
      (hcalm.pid a).trans (h.table pid a ha).2⟩
  · exact Nat.lt_of_lt_of_eq (h.forks_lt f hf) hcalm.size.symm
  · exact ⟨Nat.lt_of_lt_of_eq (h.waits w hw).1 hcalm.size.symm,
      (hcalm.pid _).trans (h.waits w hw).2⟩

/-- Where nothing happens to the life of any process, everything that is in order stays so. -/
theorem Orderly.calm (h : Orderly labels s) (hcalm : Calm s.kernel k) :
    Orderly labels { s with kernel := k } := by
  have hregistered (p : ProcessId) : k.Registered p ↔ s.kernel.Registered p := by
    rw [Registered, hcalm.pid, hcalm.table, Registered]
  refine ⟨h.sound.calm hcalm, fun parent a hmem => ?_, fun a ha => ?_, fun a ha => ?_,
    fun a ha hlive hnot => ?_⟩
  · exact ⟨Nat.lt_of_lt_of_eq (h.forked parent a hmem).1 hcalm.size.symm,
      (h.forked parent a hmem).2⟩
  · exact h.unborn a (Nat.le_trans (Nat.le_of_eq hcalm.size.symm) ha)
  · have hstate := hcalm.state a
    have hunits := hcalm.units a
    have hstage := h.stage a (Nat.lt_of_lt_of_eq ha hcalm.size)
    cases hstage with
    | running h₁ h₂ h₃ h₄ =>
      exact .running (hstate.trans h₁) (hunits.trans h₂) h₃
        fun hreg => h₄ ((hregistered a).1 hreg)
    | zombie code h₁ h₂ h₃ h₄ =>
      exact .zombie code (hstate.trans h₁) (hunits.trans h₂) h₃ h₄
    | collected h₁ h₂ h₃ => exact .collected (hstate.trans h₁) (hunits.trans h₂) h₃
    | rejected h₁ h₂ h₃ => exact .rejected (hstate.trans h₁) h₂ h₃
  · rw [hcalm.state] at hlive
    refine (hregistered a).2
      (h.kept a (Nat.lt_of_lt_of_eq ha hcalm.size) hlive fun hover => hnot ?_)
    obtain ⟨parent, child, hfailed, hcollected, hpid⟩ := hover
    exact ⟨parent, child, hfailed, hcollected,
      (hcalm.pid child).trans (hpid.trans (hcalm.pid a).symm)⟩

theorem Takes.orderly {t : Turn} (h : ∃ labels, Orderly labels s) (htakes : Takes S s t s') :
    ∃ labels, Orderly labels s' := by
  obtain ⟨labels, h⟩ := h
  rcases htakes.cases with ⟨l, hstep⟩ | ⟨p, memory, rfl⟩ | ⟨e, rfl⟩
  · exact ⟨_, h.step hstep⟩
  · exact ⟨labels, h.calm (quiet_setMemory memory).calm⟩
  · exact ⟨labels, h.calm (quiet_report e).calm⟩

theorem Execution.orderly {config : Config} {world : W}
    (h : Execution S (System.empty config world) turns s) : ∃ labels, Orderly labels s :=
  h.preserves (P := fun s => ∃ labels, Orderly labels s) Takes.orderly
    ⟨[], orderly_empty config world⟩

section Booked

variable {S : Services W} {s s' : System (W × Ledger)} {k k' : Kernel (W × Ledger)}
  {past : Shared (W × Ledger)}

theorem Kernel.Booked.setMemory {n : Nat} {hand : Holdings} (h : k.Booked past n hand)
    (memory : Mapping) : (k.setMemory p memory).Booked past n hand := by
  refine h.modifyProcess rfl ?_
  rw [Process.holdings, Process.holdings]
  cases (k.process p).space <;> rfl

theorem Takes.booked {t : Turn} (h : s.kernel.Booked past s.kernel.records.size 0)
    (htakes : Takes S.audited s t s') : s'.kernel.Booked past s.kernel.records.size 0 := by
  rcases htakes.cases with ⟨l, hstep⟩ | ⟨p, memory, rfl⟩ | ⟨e, rfl⟩
  · exact hstep.booked h
  · exact h.setMemory memory
  · exact h.report e

/-- In every state of an execution the books are right. -/
theorem Execution.booked {config : Config} {world : W}
    (h : Execution S.audited (System.empty config (world, [])) turns s) :
    s.kernel.Booked s.kernel.shared s.kernel.records.size 0 :=
  h.preserves (P := fun s => s.kernel.Booked s.kernel.shared s.kernel.records.size 0)
    (fun h htakes => (htakes.booked h).anchor) (System.booked_empty config world).anchor

theorem Elsewhere.booked (h : Elsewhere S.audited k k')
    (hbooked : k.Booked past k.records.size 0) : k'.Booked past k'.records.size 0 :=
  h.preserves (P := fun s => s.kernel.Booked past s.kernel.records.size 0)
    (fun h htakes => (htakes.booked h).all_records) hbooked

end Booked

end UnixCore
