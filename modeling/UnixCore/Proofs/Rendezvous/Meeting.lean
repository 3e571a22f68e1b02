import UnixCore.Proofs.Isolation.Dispatch
import UnixCore.Proofs.LifeCycle.Invariant

/-! A wait and the exit it waits for, in either order. If the exit came first, the wait finds its
signal there. If the wait came first, it is blocked until the exit, and others may run before the
exit and behind it. Either way the wait gives the code of the exit. -/

namespace UnixCore

open Kernel

variable {W : Type} {S : Services W} {k k' : Kernel W} {s s' s₀ : System W} {turns : List Turn}
  {l : Label} {a c p : ProcessId} {pid : Pid} {code : Int32} {config : Config} {world : W}

/-! ### States over an execution -/

theorem Change.precedes (h : Change k l k') (ha : a < k.records.size) :
    (k.process a).state.Precedes (k'.process a).state := by
  rcases h.state_cases ha with hsame | ⟨code, hrunning, hzombie⟩ | ⟨hreaped, -⟩
  · rw [hsame]
    exact .refl _
  · rw [hrunning, hzombie]
    exact .exited code
  · rw [hreaped]
    exact .reaped _

theorem Takes.precedes {t : Turn} (hs : s.Sound) (htakes : Takes S s t s')
    (ha : a < s.kernel.records.size) :
    a < s'.kernel.records.size ∧
      (s.kernel.process a).state.Precedes (s'.kernel.process a).state := by
  have hcalm {k : Kernel W} (hcalm : Calm s.kernel k) : a < k.records.size ∧
      (s.kernel.process a).state.Precedes (k.process a).state := by
    rw [hcalm.state, hcalm.size]
    exact ⟨ha, .refl _⟩
  rcases htakes.cases with ⟨l, hstep⟩ | ⟨p, memory, rfl⟩ | ⟨e, rfl⟩
  · have hchange := hstep.change hs
    exact ⟨Nat.lt_of_lt_of_le ha hchange.after.size_le, hchange.precedes ha⟩
  · exact hcalm (quiet_setMemory memory).calm
  · exact hcalm (quiet_report e).calm

/-- Over an execution states only move forward. -/
theorem Execution.precedes (h : Execution S s₀ turns s) (hs : s₀.Sound)
    (ha : a < s₀.kernel.records.size) :
    s.Sound ∧ a < s.kernel.records.size ∧
      (s₀.kernel.process a).state.Precedes (s.kernel.process a).state := by
  induction h with
  | start => exact ⟨hs, ha, .refl _⟩
  | step _ htakes ih =>
    obtain ⟨hs', ha', hprecedes⟩ := ih
    obtain ⟨ha'', hprecedes'⟩ := htakes.precedes hs' ha'
    exact ⟨htakes.sound hs', ha'', hprecedes.trans hprecedes'⟩

theorem Elsewhere.precedes (h : Elsewhere S s.kernel k) (hs : s.Sound)
    (ha : a < s.kernel.records.size) :
    (s.kernel.process a).state.Precedes (k.process a).state := by
  obtain ⟨_, hexec⟩ := h s.forks s.waits
  exact (Execution.precedes hexec hs ha).2.2

theorem Kernel.Finds.ne (h : k.Finds p pid c) (hpid : (k.process c).pid = pid) : p ≠ c := by
  rintro rfl
  exact h.other hpid.symm

end UnixCore
