import UnixCore.Proofs.Isolation.Apart
import UnixCore.Proofs.Parenthood.OwnChildren

/-! The child that a wait has found. Whatever others do while the wait is blocked, the child stays
registered under its id until a wait takes its exit signal, and the wait that takes it finds a
zombie. -/

namespace UnixCore

open Kernel

variable {W : Type} {S : Services W} {s s' s₀ : System W} {turns : List Turn} {k k' : Kernel W}
  {l : Label} {a c p : ProcessId} {pid : Pid}

theorem Takes.sound {t : Turn} (h : s.Sound) (htakes : Takes S s t s') : s'.Sound := by
  rcases htakes.cases with ⟨l, hstep⟩ | ⟨p, memory, rfl⟩ | ⟨e, rfl⟩
  · exact h.step hstep
  · exact h.calm (quiet_setMemory memory).calm
  · exact h.calm (quiet_report e).calm

/-! ### Registered processes -/

/-- What a step does to the state of a process: nothing, or it lets it exit, or it reaps and
unregisters it. -/
theorem Change.state_cases (h : Change k l k') (ha : a < k.records.size) :
    (k'.process a).state = (k.process a).state ∨
      (∃ code, (k.process a).state = .running ∧ (k'.process a).state = .zombie code) ∨
        ((k'.process a).state = .reaped ∧ k'.table.get? (k.process a).pid = none) := by
  have hgone {b : ProcessId} {k₁ : Kernel W} (hgone : Gone (k.process b).pid b k₁ k')
      (hstate : (k₁.process a).state = (k.process a).state) :
      (k'.process a).state = (k.process a).state ∨
        ((k'.process a).state = .reaped ∧ k'.table.get? (k.process a).pid = none) := by
    by_cases hab : a = b
    · subst hab
      exact .inr ⟨congrArg Life.state hgone.gone, by rw [hgone.table, if_pos rfl]⟩
    · exact .inl ((congrArg Life.state (hgone.life a hab)).trans hstate)
  cases h with
  | calm _ hcalm => exact .inl (hcalm.state a)
  | born _ hborn => exact .inl (congrArg Life.state (hborn.life a ha))
  | stillborn _ _ hborn => exact .inl (congrArg Life.state (hborn.life a ha))
  | @exited b code _ hb _ hrunning hquiet =>
    have hlife := congrArg Life.state (life_exited hb hquiet a)
    by_cases hab : a = b
    · rw [if_pos hab] at hlife
      exact .inr (.inl ⟨code, hab ▸ hrunning, hlife⟩)
    · rw [if_neg hab] at hlife
      exact .inl hlife
  | exitIgnored _ _ hquiet => exact .inl (congrArg Life.state (hquiet.life a))
  | forkFailed _ h => exact (hgone h rfl).imp_right .inr
  | refused => exact .inl rfl
  | wasted => exact .inl (state_putSignal a)
  | collected _ _ _ h => exact (hgone h (state_putSignal a)).imp_right .inr

/-- A process is unregistered by whatever reaps it. -/
theorem Change.unregisters (h : Change k l k') (hlive : (k.process a).state ≠ .reaped)
    (ha : a < k.records.size) (hreaped : (k'.process a).state = .reaped) :
    k'.table.get? (k.process a).pid = none := by
  rcases h.state_cases ha with hsame | ⟨code, -, hzombie⟩ | ⟨-, hfree⟩
  · exact (hlive (hsame.symm.trans hreaped)).elim
  · cases hzombie.symm.trans hreaped
  · exact hfree

/-- Nobody can be found who has been reaped. -/
def Kernel.Live (k : Kernel W) : Prop :=
  ∀ pid a, k.table.get? pid = some a → (k.process a).state ≠ .reaped

theorem Step.live (hs : s.Sound) (hstep : Step S s l s') (h : s.kernel.Live) : s'.kernel.Live := by
  intro pid a hfound hreaped
  have hchange := hstep.change hs
  rcases hchange.after.found pid a hfound with hold | ⟨hle, hlt, hpid⟩
  · obtain ⟨ha, rfl⟩ := hs.table pid a hold
    cases hfound.symm.trans (hchange.unregisters (h _ a hold) ha hreaped)
  · obtain ⟨rfl, -, ⟨_, _, hborn⟩ | ⟨-, hborn⟩⟩ := hchange.new hle hlt
    · cases (congrArg Life.state hborn.born).symm.trans hreaped
    · rw [hborn.table] at hfound
      exact Nat.lt_irrefl _ (hs.table pid _ hfound).1

theorem Kernel.Live.calm (h : k.Live) (hcalm : Calm k k') : k'.Live := by
  intro pid a hfound
  rw [hcalm.table] at hfound
  rw [hcalm.state]
  exact h pid a hfound

theorem Takes.live {t : Turn} (hs : s.Sound) (htakes : Takes S s t s') (h : s.kernel.Live) :
    s'.kernel.Live := by
  rcases htakes.cases with ⟨l, hstep⟩ | ⟨p, memory, rfl⟩ | ⟨e, rfl⟩
  · exact hstep.live hs h
  · exact h.calm (quiet_setMemory memory).calm
  · exact h.calm (quiet_report e).calm

theorem live_empty (config : Config) (world : W) : (System.empty config world).kernel.Live := by
  intro pid a hfound
  cases (Std.TreeMap.getElem?_emptyc (a := pid)).symm.trans hfound

theorem Execution.live {config : Config} {world : W}
    (h : Execution S (System.empty config world) turns s) : s.kernel.Live := by
  have hboth : s.Sound ∧ s.kernel.Live :=
    h.preserves (P := fun s => s.Sound ∧ s.kernel.Live)
      (fun h htakes => ⟨htakes.sound h.1, htakes.live h.1 h.2⟩)
      ⟨(orderly_empty config world).sound, live_empty config world⟩
  exact hboth.2

/-! ### Processes that can only be collected -/

/-- The exit signal of a process that has not been reaped. -/
def Process.Signals (r : Process) : Prop :=
  r.state = .running ∧ r.exitSignal.count = 0 ∨
    ∃ code, r.state = .zombie code ∧ r.exitSignal.count = 1

/-- The exit of a process has been collected. -/
structure Process.Spent (r : Process) : Prop where
  state : r.state = .reaped
  units : r.exitSignal.count = 0

/-- No fork and no wait that is under way can take the id of a process away from it. -/
structure Secured (pid : Pid) (c : ProcessId) (s : System W) : Prop where
  found : s.kernel.table.get? pid = some c
  signals : (s.kernel.process c).Signals
  forks : ∀ f ∈ s.forks, (s.kernel.process f.child).pid ≠ pid
  waits : ∀ w ∈ s.waits, w.pid = pid → w.child = c

theorem Process.Signals.of_eq {r r' : Process} (h : r.Signals) (hstate : r'.state = r.state)
    (hunits : r'.exitSignal.count = r.exitSignal.count) : r'.Signals := by
  unfold Signals
  rwa [hstate, hunits]

theorem Process.Spent.of_eq {r r' : Process} (h : r.Spent) (hstate : r'.state = r.state)
    (hunits : r'.exitSignal.count = r.exitSignal.count) : r'.Spent :=
  ⟨hstate.trans h.state, hunits.trans h.units⟩

theorem Process.spent_of_life {r r' : Process} {signal : Semaphore}
    (hlife : r'.life = { r.life with state := .reaped, signal })
    (hsignals : r.Signals) (hunits : signal.count.toNat + 1 = r.exitSignal.count.toNat) :
    r'.Spent := by
  refine ⟨congrArg Life.state hlife, (congrArg (·.signal.count) hlife).trans ?_⟩
  rcases hsignals with ⟨-, hcount⟩ | ⟨_, -, hcount⟩ <;> rw [hcount] at hunits
  · exact absurd hunits (Nat.succ_ne_zero _)
  · exact UInt64.toNat_inj.1 (Nat.succ.inj hunits)

namespace Secured

variable (h : Secured pid c s)

include h

/-- The forks and waits under way stay those of others. -/
theorem calls_step (hs : s.Sound) (hstep : Step S s l s') :
    (∀ f ∈ s'.forks, (s'.kernel.process f.child).pid ≠ pid) ∧
      ∀ w ∈ s'.waits, w.pid = pid → w.child = c := by
  have hchange := hstep.change hs
  have hold : ∀ f ∈ s.forks, (s'.kernel.process f.child).pid ≠ pid := by
    intro f hf
    rw [hchange.after.pid f.child (hs.forks_lt f hf)]
    exact h.forks f hf
  refine ⟨?_, fun w hw hpid => ?_⟩
  · rcases hstep.forks_cases with ⟨heq, -⟩ | ⟨f, -, heq, -⟩ | ⟨parent, ppid, heq, hsize, hl⟩ <;>
      rw [heq]
    · exact hold
    · exact fun g hg => hold g (List.mem_of_mem_erase hg)
    · intro f hf
      rcases List.mem_cons.1 hf with rfl | hf
      · -- The child that is new has got an id that was free.
        obtain ⟨-, -, ⟨i, parent, hborn⟩ | ⟨hbegun, -⟩⟩ := hchange.new (Nat.le_refl _)
          (Nat.lt_of_lt_of_eq (Nat.lt_succ_self _) hsize.symm)
        · rw [hborn.pid_eq]
          rintro rfl
          cases hborn.free.symm.trans h.found
        · exact (hbegun _ _ hl).elim
      · exact hold f hf
  · rcases hstep.waits_cases w hw with hold | ⟨-, -, hfound, -⟩
    · exact h.waits w hold hpid
    · rw [hpid] at hfound
      exact Option.some.inj (hfound.symm.trans h.found)

theorem pid_ne_of_collected {caller b : ProcessId} {i : Pid} {code : Int32} (hs : s.Sound)
    (hstep : Step S s (.collected caller b i code) s') (hne : b ≠ c) :
    (s.kernel.process b).pid ≠ pid := by
  intro hpid
  rcases hstep.collected_cases with ⟨-, i, hfound, -⟩ | ⟨w, hw, -, rfl⟩
  · rw [← (hs.table i b hfound).2, hpid] at hfound
    exact hne (Option.some.inj (hfound.symm.trans h.found))
  · exact hne (h.waits w hw ((hs.waits w hw).2.symm.trans hpid))

/-- It stays secured, or it is collected. -/
theorem step (hs : s.Sound) (hstep : Step S s l s') :
    Secured pid c s' ∨ (s'.kernel.process c).Spent := by
  obtain ⟨hc, hpid⟩ := hs.table pid c h.found
  obtain ⟨hforks, hwaits⟩ := h.calls_step hs hstep
  have hchange := hstep.change hs
  generalize hk : s'.kernel = k' at hchange
  have hsecured (hsignals : (k'.process c).Signals)
      (htable : k'.table.get? pid = s.kernel.table.get? pid) :
      Secured pid c s' ∨ (k'.process c).Spent :=
    .inl ⟨hk ▸ htable.trans h.found, hk ▸ hsignals, hforks, hwaits⟩
  have hkeep (hlife : (k'.process c).life = (s.kernel.process c).life)
      (htable : k'.table.get? pid = s.kernel.table.get? pid) :
      Secured pid c s' ∨ (k'.process c).Spent :=
    hsecured (h.signals.of_eq (congrArg Life.state hlife) (congrArg (·.signal.count) hlife)) htable
  cases hchange with
  | calm _ hcalm =>
    exact hsecured (h.signals.of_eq (hcalm.state c) (hcalm.units c)) (by rw [hcalm.table])
  | born _ hborn =>
    refine hkeep (hborn.life c hc) ?_
    rw [hborn.table, if_neg]
    rintro rfl
    cases hborn.free.symm.trans h.found
  | stillborn _ _ hborn => exact hkeep (hborn.life c hc) (hborn.table pid)
  | @exited b code _ hb _ hrunning hquiet =>
    have htable : k'.table.get? pid = s.kernel.table.get? pid := by rw [hquiet.table]; rfl
    have hlife := life_exited hb hquiet c
    by_cases hcb : c = b
    · subst hcb
      rw [if_pos rfl] at hlife
      have hcount : (s.kernel.process c).exitSignal.count = 0 := by
        rcases h.signals with ⟨-, hcount⟩ | ⟨_, hzombie, -⟩
        · exact hcount
        · cases hrunning.symm.trans hzombie
      refine hsecured (.inr ⟨code, congrArg Life.state hlife, ?_⟩) htable
      apply (congrArg (·.signal.count) hlife).trans
      show (s.kernel.process c).exitSignal.count + 1 = 1
      rw [hcount]
      rfl
    · rw [if_neg hcb] at hlife
      exact hkeep hlife htable
  | exitIgnored _ _ hquiet => exact hkeep (hquiet.life c) (by rw [hquiet.table])
  | @forkFailed parent b _ hb hgone =>
    obtain ⟨⟨f, hf, rfl⟩, -⟩ := hstep.endsFork hs (a := b) rfl
    have hne := h.forks f hf
    refine hkeep (hgone.life c fun hcb => hne (hcb ▸ hpid)) ?_
    rw [hgone.table, if_neg (Ne.symm hne)]
  | refused => exact hkeep rfl rfl
  | @wasted caller b signal hb hnozombie hunits =>
    by_cases hcb : c = b
    · subst hcb
      rcases h.signals with ⟨-, hcount⟩ | ⟨code, hzombie, -⟩
      · rw [hcount] at hunits
        exact absurd hunits (Nat.succ_ne_zero _)
      · exact (hnozombie code hzombie).elim
    · exact hkeep (life_putSignal_ne hcb) rfl
  | @collected caller b code signal _ hb _ hunits hgone =>
    by_cases hcb : c = b
    · subst hcb
      refine .inr (Process.spent_of_life ?_ h.signals hunits)
      rw [hgone.gone, life_putSignal_self hb]
    · have hne := h.pid_ne_of_collected hs hstep (Ne.symm hcb)
      refine hkeep ((hgone.life c hcb).trans (life_putSignal_ne hcb)) ?_
      rw [hgone.table, if_neg (Ne.symm hne)]
      rfl

theorem calm (hcalm : Calm s.kernel k) : Secured pid c { s with kernel := k } := by
  refine ⟨?_, h.signals.of_eq (hcalm.state c) (hcalm.units c), fun f hf => ?_, h.waits⟩
  · rw [hcalm.table]
    exact h.found
  · rw [hcalm.pid]
    exact h.forks f hf

end Secured

/-- A process whose exit has been collected stays so. -/
theorem Step.spent (hs : s.Sound) (hstep : Step S s l s') (hc : c < s.kernel.records.size)
    (h : (s.kernel.process c).Spent) : (s'.kernel.process c).Spent := by
  have hchange := hstep.change hs
  generalize s'.kernel = k' at hchange
  have hkeep (hlife : (k'.process c).life = (s.kernel.process c).life) : (k'.process c).Spent :=
    h.of_eq (congrArg Life.state hlife) (congrArg (·.signal.count) hlife)
  cases hchange with
  | calm _ hcalm => exact h.of_eq (hcalm.state c) (hcalm.units c)
  | born _ hborn => exact hkeep (hborn.life c hc)
  | stillborn _ _ hborn => exact hkeep (hborn.life c hc)
  | @exited b _ _ hb _ hrunning hquiet =>
    have hlife := life_exited hb hquiet c
    rw [if_neg] at hlife
    · exact hkeep hlife
    · rintro rfl
      cases hrunning.symm.trans h.state
  | exitIgnored _ _ hquiet => exact hkeep (hquiet.life c)
  | @forkFailed _ b _ _ hgone =>
    by_cases hcb : c = b
    · subst hcb
      exact ⟨congrArg Life.state hgone.gone, (congrArg (·.signal.count) hgone.gone).trans h.units⟩
    · exact hkeep (hgone.life c hcb)
  | refused => exact h
  | @wasted _ b signal _ _ hunits =>
    refine hkeep (life_putSignal_ne ?_)
    rintro rfl
    rw [h.units] at hunits
    exact Nat.succ_ne_zero _ hunits
  | @collected _ b _ signal _ _ hzombie _ hgone =>
    have hcb : c ≠ b := by
      rintro rfl
      cases h.state.symm.trans hzombie
    exact hkeep ((hgone.life c hcb).trans (life_putSignal_ne hcb))

/-- What becomes of a secured process. -/
structure Awaitable (pid : Pid) (c : ProcessId) (s : System W) : Prop where
  sound : s.Sound
  lt_size : c < s.kernel.records.size
  fate : Secured pid c s ∨ (s.kernel.process c).Spent

theorem Awaitable.step (h : Awaitable pid c s) (hstep : Step S s l s') : Awaitable pid c s' := by
  refine ⟨h.sound.step hstep, ?_, ?_⟩
  · exact Nat.lt_of_lt_of_le h.lt_size (hstep.change h.sound).after.size_le
  · rcases h.fate with hsecured | hspent
    · exact hsecured.step h.sound hstep
    · exact .inr (hstep.spent h.sound h.lt_size hspent)

theorem Awaitable.calm (h : Awaitable pid c s) (hcalm : Calm s.kernel k) :
    Awaitable pid c { s with kernel := k } := by
  refine ⟨h.sound.calm hcalm, Nat.lt_of_lt_of_eq h.lt_size hcalm.size.symm, ?_⟩
  exact h.fate.imp (·.calm hcalm) (·.of_eq (hcalm.state c) (hcalm.units c))

/-- What has become of a kernel in which a wait of `p` for a child began when the wait takes the
exit signal: nothing if the signal was there, and otherwise what the others did meanwhile. -/
inductive AwaitedChild (S : Services W) (p c : ProcessId) (k : Kernel W) : Kernel W → Prop
  | atOnce : AwaitedChild S p c k k
  | blocked {k₁ : Kernel W} : (k.process c).exitSignal.tryDown = none →
    k.Apart p (· = c) (k.enterWait c) → Elsewhere S (k.enterWait c) k₁ → AwaitedChild S p c k k₁

variable {config : Config} {world : W} {options : Int32}

/-- A wait takes the exit signal in a state that can be reached. -/
theorem Execution.awaited (execution : Execution S s₀ turns s) (hp : p < s.kernel.records.size)
    (hfound : beginWait p pid options s.kernel = .ok c s.kernel)
    (hawaited : AwaitedChild S p c s.kernel k) :
    ∃ turns' s', Execution S s₀ turns' s' ∧ s'.kernel = k := by
  cases hawaited with
  | atOnce => exact ⟨turns, s, execution, rfl⟩
  | blocked hdown _ helsewhere =>
    obtain ⟨turns', hexec⟩ := helsewhere s.forks
      (⟨p, (s.kernel.process p).pid, pid, c⟩ :: s.waits)
    have hblocked := execution.step (.call (l := .waitBlocked p c) trivial
      (.waitBlocked hp hfound hdown))
    exact ⟨_, _, hblocked.trans hexec, rfl⟩

end UnixCore
