import UnixCore.Proofs.Rendezvous.Steps

/-! The stage of every process record, told from the steps so far: what its state and its exit
signal are is determined by whether it has exited and whether a wait has collected it. -/

namespace UnixCore

/-! ### What happened -/

def Label.exitOf (a : ProcessId) : Label → Option Int32
  | .exited p code => if p = a then some code else none
  | _ => none

def firstExit (a : ProcessId) (labels : List Label) : Option Int32 := labels.findSome? (·.exitOf a)

def Label.collects (a : ProcessId) : Label → Bool
  | .collected _ child _ _ => child = a
  | _ => false

/-- How often a wait has returned the exit code of a process. -/
def collections (a : ProcessId) (labels : List Label) : Nat := labels.countP (·.collects a)

section Labels

variable {labels : List Label} {l : Label} {a : ProcessId}

theorem firstExit_append_singleton :
    firstExit a (labels ++ [l]) = (firstExit a labels).or (l.exitOf a) := by
  rw [firstExit, List.findSome?_append, List.findSome?_singleton, firstExit]

theorem collections_append_singleton :
    collections a (labels ++ [l]) = collections a labels + if l.collects a then 1 else 0 := by
  rw [collections, List.countP_append, List.countP_singleton, collections]

theorem Label.Silent.exitOf (h : l.Silent) (a : ProcessId) : l.exitOf a = none := by
  cases l <;> first | rfl | exact h.elim

theorem Label.Silent.collects (h : l.Silent) (a : ProcessId) : l.collects a = false := by
  cases l <;> first | rfl | exact h.elim

end Labels

/-! ### Stages -/

variable {W : Type} {S : Services W} {labels : List Label} {l : Label} {s s' : System W}
  {a : ProcessId}

/-- A record is not that of a child whose fork is under way or has succeeded. -/
def Unforked (labels : List Label) (s : System W) (a : ProcessId) : Prop :=
  (∀ f ∈ s.forks, f.child ≠ a) ∧ ∀ parent, .forked parent a ∉ labels

/-- A fork failed although a wait had already collected its child, and this child had the id. -/
def Overtaken (labels : List Label) (k : Kernel W) (pid : Pid) : Prop :=
  ∃ parent child, .forkFailed parent child ∈ labels ∧ 0 < collections child labels ∧
    (k.process child).pid = pid

/-- Where a process is between its birth and the end of its record. -/
inductive Stage (labels : List Label) (s : System W) (a : ProcessId) : Prop
  | running : (s.kernel.process a).state = .running →
    (s.kernel.process a).exitSignal.count = 0 → collections a labels = 0 →
    (s.kernel.Registered a → firstExit a labels = none) → Stage labels s a
  | zombie (code : Int32) : (s.kernel.process a).state = .zombie code →
    (s.kernel.process a).exitSignal.count = 1 → collections a labels = 0 →
    firstExit a labels = some code → Stage labels s a
  | collected : (s.kernel.process a).state = .reaped →
    (s.kernel.process a).exitSignal.count = 0 → collections a labels = 1 → Stage labels s a
  /-- The process was given up before it was its parent's child. -/
  | rejected : (s.kernel.process a).state = .reaped → collections a labels ≤ 1 →
    Unforked labels s a → Stage labels s a

/-- The calls under way are sound, and each record is in a stage that agrees with the steps so far.
Unless a fork was overtaken whose child had the same id, a process that has not been reaped is
registered. -/
structure Orderly (labels : List Label) (s : System W) : Prop where
  sound : s.Sound
  forked : ∀ parent a, .forked parent a ∈ labels →
    a < s.kernel.records.size ∧ ∀ f ∈ s.forks, f.child ≠ a
  unborn : ∀ a, s.kernel.records.size ≤ a → firstExit a labels = none ∧ collections a labels = 0
  stage : ∀ a < s.kernel.records.size, Stage labels s a
  kept : ∀ a < s.kernel.records.size, (s.kernel.process a).state ≠ .reaped →
    ¬ Overtaken labels s.kernel (s.kernel.process a).pid → s.kernel.Registered a

theorem Stage.collections_le (h : Stage labels s a) : collections a labels ≤ 1 := by
  cases h with
  | running _ _ h => omega
  | zombie _ _ _ h => omega
  | collected _ _ h => omega
  | rejected _ h => exact h

theorem Stage.of_running (h : Stage labels s a)
    (hrunning : (s.kernel.process a).state = .running) :
    (s.kernel.process a).exitSignal.count = 0 ∧ collections a labels = 0 ∧
      (s.kernel.Registered a → firstExit a labels = none) := by
  cases h with
  | running _ hunits hcount hfirst => exact ⟨hunits, hcount, hfirst⟩
  | zombie code hstate => cases hrunning.symm.trans hstate
  | collected hstate => cases hrunning.symm.trans hstate
  | rejected hstate => cases hrunning.symm.trans hstate

theorem Stage.of_zombie {code : Int32} (h : Stage labels s a)
    (hzombie : (s.kernel.process a).state = .zombie code) :
    (s.kernel.process a).exitSignal.count = 1 ∧ collections a labels = 0 ∧
      firstExit a labels = some code := by
  cases h with
  | running hstate => cases hzombie.symm.trans hstate
  | zombie code' hstate hunits hcount hfirst =>
    cases hzombie.symm.trans hstate
    exact ⟨hunits, hcount, hfirst⟩
  | collected hstate => cases hzombie.symm.trans hstate
  | rejected hstate => cases hzombie.symm.trans hstate

theorem Stage.of_reaped (h : Stage labels s a) (hreaped : (s.kernel.process a).state = .reaped) :
    collections a labels = 1 ∨ Unforked labels s a := by
  cases h with
  | running hstate => cases hreaped.symm.trans hstate
  | zombie code hstate => cases hreaped.symm.trans hstate
  | collected _ _ hcount => exact .inl hcount
  | rejected _ _ hunforked => exact .inr hunforked

theorem Stage.keep (h : Stage labels s a)
    (hstate : (s'.kernel.process a).state = (s.kernel.process a).state)
    (hunits : (s'.kernel.process a).exitSignal.count = (s.kernel.process a).exitSignal.count)
    (hexit : l.exitOf a = none) (hcollects : l.collects a = false)
    (hregistered : s'.kernel.Registered a → s.kernel.Registered a)
    (hunforked : Unforked labels s a → Unforked (labels ++ [l]) s' a) :
    Stage (labels ++ [l]) s' a := by
  have hfirst : firstExit a (labels ++ [l]) = firstExit a labels := by
    rw [firstExit_append_singleton, hexit, Option.or_none]
  have hcount : collections a (labels ++ [l]) = collections a labels := by
    rw [collections_append_singleton, hcollects]
    rfl
  cases h with
  | running h₁ h₂ h₃ h₄ =>
    exact .running (hstate.trans h₁) (hunits.trans h₂) (hcount.trans h₃)
      fun hreg => hfirst.trans (h₄ (hregistered hreg))
  | zombie code h₁ h₂ h₃ h₄ =>
    exact .zombie code (hstate.trans h₁) (hunits.trans h₂) (hcount.trans h₃) (hfirst.trans h₄)
  | collected h₁ h₂ h₃ => exact .collected (hstate.trans h₁) (hunits.trans h₂) (hcount.trans h₃)
  | rejected h₁ h₂ h₃ =>
    exact .rejected (hstate.trans h₁) (hcount ▸ h₂) (hunforked h₃)

theorem firstExit_append_exited {code : Int32} :
    firstExit a (labels ++ [.exited a code]) = (firstExit a labels).or (some code) := by
  rw [firstExit_append_singleton, Label.exitOf, if_pos rfl]

theorem collections_append_exited {b : ProcessId} {code : Int32} :
    collections a (labels ++ [.exited b code]) = collections a labels := by
  rw [collections_append_singleton]
  rfl

theorem Stage.exit {code : Int32} (h : Stage labels s a) (hregistered : s.kernel.Registered a)
    (hrunning : (s.kernel.process a).state = .running)
    (hlife : (s'.kernel.process a).life = { (s.kernel.process a).life with
      state := .zombie code, signal := (s.kernel.process a).exitSignal.up }) :
    Stage (labels ++ [.exited a code]) s' a := by
  obtain ⟨hunits, hcount, hfirst⟩ := h.of_running hrunning
  apply Stage.zombie code (congrArg Life.state hlife)
  · apply (congrArg (·.signal.count) hlife).trans
    show (s.kernel.process a).exitSignal.count + 1 = 1
    rw [hunits]
    rfl
  · rw [collections_append_exited, hcount]
  · rw [firstExit_append_exited, hfirst hregistered, Option.none_or]

/-- A later exit, and an exit of a process that is not registered, changes nothing. -/
theorem Stage.exitIgnored {code : Int32} (h : Stage labels s a)
    (hnone : s.kernel.Registered a → (s.kernel.process a).state ≠ .running)
    (hregistered : s'.kernel.Registered a → s.kernel.Registered a)
    (hlife : (s'.kernel.process a).life = (s.kernel.process a).life)
    (hunforked : Unforked labels s a → Unforked (labels ++ [.exited a code]) s' a) :
    Stage (labels ++ [.exited a code]) s' a := by
  have hstate := congrArg Life.state hlife
  have hunits := congrArg (·.signal.count) hlife
  cases h with
  | running h₁ h₂ h₃ h₄ =>
    apply Stage.running (hstate.trans h₁) (hunits.trans h₂) (collections_append_exited.trans h₃)
    intro hreg
    exact absurd h₁ (hnone (hregistered hreg))
  | zombie code' h₁ h₂ h₃ h₄ =>
    apply Stage.zombie code' (hstate.trans h₁) (hunits.trans h₂)
    · rw [collections_append_exited, h₃]
    · rw [firstExit_append_exited, h₄, Option.some_or]
  | collected h₁ h₂ h₃ =>
    exact .collected (hstate.trans h₁) (hunits.trans h₂) (collections_append_exited.trans h₃)
  | rejected h₁ h₂ h₃ =>
    apply Stage.rejected (hstate.trans h₁)
    · rw [collections_append_exited]
      exact h₂
    · exact hunforked h₃

/-- Only the exit signal of a process that was given up can be taken from one that is no zombie. -/
theorem Stage.unforked_of_units (h : Stage labels s a)
    (hnozombie : ∀ code, (s.kernel.process a).state ≠ .zombie code)
    (hunits : (s.kernel.process a).exitSignal.count ≠ 0) :
    (s.kernel.process a).state = .reaped ∧ Unforked labels s a := by
  cases h with
  | running _ h => exact absurd h hunits
  | zombie code h => exact absurd h (hnozombie code)
  | collected _ h => exact absurd h hunits
  | rejected h _ h' => exact ⟨h, h'⟩

theorem Stage.collect {code : Int32} {pid : Pid} {caller : ProcessId} {signal : Semaphore}
    (h : Stage labels s a) (hzombie : (s.kernel.process a).state = .zombie code)
    (hunits : signal.count.toNat + 1 = (s.kernel.process a).exitSignal.count.toNat)
    (hlife : (s'.kernel.process a).life =
      { (s.kernel.process a).life with state := .reaped, signal }) :
    Stage (labels ++ [.collected caller a pid code]) s' a := by
  obtain ⟨hone, hcount, -⟩ := h.of_zombie hzombie
  apply Stage.collected (congrArg Life.state hlife)
  · apply (congrArg (·.signal.count) hlife).trans
    rw [hone] at hunits
    exact UInt64.toNat_inj.1 (Nat.succ.inj hunits)
  · rw [collections_append_singleton, hcount, Label.collects, decide_eq_true rfl]
    rfl

theorem Unforked.step (h : Unforked labels s a) (ha : a < s.kernel.records.size)
    (hstep : Step S s l s') : Unforked (labels ++ [l]) s' a := by
  obtain ⟨hforks, hlabels⟩ := h
  refine ⟨hstep.forks_ne ha hforks, fun parent hmem => ?_⟩
  rcases List.mem_append.1 hmem with hmem | hmem
  · exact hlabels parent hmem
  · obtain rfl := List.mem_singleton.1 hmem
    rcases hstep.forks_cases with ⟨-, hl⟩ | ⟨f, hf, -, hl | hl⟩ | ⟨_, _, _, _, hl⟩
    · exact hl a rfl
    · obtain ⟨-, rfl⟩ := Label.forked.inj hl
      exact hforks f hf rfl
    · cases hl
    · cases hl

/-! ### Steps -/

open Kernel

theorem Change.unborn {k k' : Kernel W} (h : Change k l k') (ha : k.records.size ≤ a) :
    l.exitOf a = none ∧ l.collects a = false := by
  cases h with
  | calm hl => exact ⟨hl.exitOf a, hl.collects a⟩
  | born hl => exact ⟨hl.exitOf a, hl.collects a⟩
  | stillborn hl => exact ⟨hl.exitOf a, hl.collects a⟩
  | exited hb => exact ⟨if_neg (Nat.ne_of_lt (Nat.lt_of_lt_of_le hb ha)), rfl⟩
  | exitIgnored hb => exact ⟨if_neg (Nat.ne_of_lt (Nat.lt_of_lt_of_le hb ha)), rfl⟩
  | forkFailed => exact ⟨rfl, rfl⟩
  | refused => exact ⟨rfl, rfl⟩
  | wasted => exact ⟨rfl, rfl⟩
  | collected hb => exact ⟨rfl, decide_eq_false (Nat.ne_of_lt (Nat.lt_of_lt_of_le hb ha))⟩

theorem Kernel.After.registered {k k' : Kernel W} (h : After k k') (ha : a < k.records.size)
    (hreg : k'.Registered a) : k.Registered a := by
  rcases h.found _ _ hreg with hold | ⟨hle, -⟩
  · rwa [h.pid a ha] at hold
  · exact absurd ha (Nat.not_lt_of_le hle)

theorem Orderly.unforked_of_endsFork (h : Orderly labels s) (hstep : Step S s l s')
    (hl : l.EndsFork a) (hfailed : ∀ parent, l ≠ .forked parent a) :
    Unforked (labels ++ [l]) s' a := by
  obtain ⟨⟨f, hf, hchild⟩, hforks⟩ := hstep.endsFork h.sound hl
  refine ⟨hforks, fun parent hmem => ?_⟩
  rcases List.mem_append.1 hmem with hmem | hmem
  · exact (h.forked parent a hmem).2 f hf hchild
  · exact hfailed parent (List.mem_singleton.1 hmem).symm

theorem Orderly.stage_step (h : Orderly labels s) (hstep : Step S s l s')
    (ha : a < s.kernel.records.size) : Stage (labels ++ [l]) s' a := by
  have hstage := h.stage a ha
  have hchange := hstep.change h.sound
  have hunforked (hu : Unforked labels s a) := hu.step ha hstep
  have hregistered := hchange.after.registered ha
  have hkeep (hlife : (s'.kernel.process a).life = (s.kernel.process a).life)
      (hexit : l.exitOf a = none) (hcollects : l.collects a = false) :
      Stage (labels ++ [l]) s' a :=
    hstage.keep (congrArg Life.state hlife) (congrArg (·.signal.count) hlife) hexit hcollects
      hregistered hunforked
  -- The change says which record it is about; every other record keeps its stage by `hkeep`.
  generalize hk : s'.kernel = k' at hchange
  cases hchange with
  | calm hl hcalm =>
    subst hk
    exact hstage.keep (hcalm.state a) (hcalm.units a) (hl.exitOf a) (hl.collects a) hregistered
      hunforked
  | born hl hborn => exact hkeep (hk ▸ hborn.life a ha) (hl.exitOf a) (hl.collects a)
  | stillborn hl _ hborn => exact hkeep (hk ▸ hborn.life a ha) (hl.exitOf a) (hl.collects a)
  | refused => exact hkeep (by rw [hk]) rfl rfl
  | @exited b code _ hb hreg hrunning hexited =>
    have hlife := life_exited hb hexited a
    rw [← hk] at hlife
    by_cases hab : a = b
    · subst hab
      exact hstage.exit hreg hrunning (by rwa [if_pos rfl] at hlife)
    · exact hkeep (by rwa [if_neg hab] at hlife) (if_neg (Ne.symm hab)) rfl
  | @exitIgnored b code _ hb hnone hquiet =>
    by_cases hab : a = b
    · subst hab
      exact hstage.exitIgnored hnone hregistered (hk ▸ hquiet.life a) hunforked
    · exact hkeep (hk ▸ hquiet.life a) (if_neg (Ne.symm hab)) rfl
  | @forkFailed parent b _ hb hgone =>
    by_cases hab : a = b
    · subst hab
      refine .rejected (hk ▸ congrArg Life.state hgone.gone) ?_ ?_
      · rw [collections_append_singleton]
        exact hstage.collections_le
      · exact h.unforked_of_endsFork hstep rfl nofun
    · exact hkeep (hk ▸ hgone.life a hab) rfl rfl
  | @wasted caller b signal hb hnozombie hunits =>
    by_cases hab : a = b
    · subst hab
      have hpos : (s.kernel.process a).exitSignal.count ≠ 0 := by
        intro hzero
        rw [hzero] at hunits
        exact Nat.succ_ne_zero _ hunits
      obtain ⟨hreaped, hu⟩ := hstage.unforked_of_units hnozombie hpos
      refine .rejected (hk ▸ ?_) ?_ (hunforked hu)
      · exact (congrArg Life.state (life_putSignal_self hb)).trans hreaped
      · rw [collections_append_singleton]
        exact hstage.collections_le
    · exact hkeep (hk ▸ life_putSignal_ne hab) rfl rfl
  | @collected caller b code signal _ hb hzombie hunits hgone =>
    by_cases hab : a = b
    · subst hab
      refine hstage.collect hzombie hunits (hk ▸ hgone.gone.trans ?_)
      rw [life_putSignal_self hb]
    · apply hkeep (hk ▸ (hgone.life a hab).trans (life_putSignal_ne hab)) rfl
      exact decide_eq_false (Ne.symm hab)

theorem Orderly.stage_new (h : Orderly labels s) (hstep : Step S s l s')
    (hle : s.kernel.records.size ≤ a) (hlt : a < s'.kernel.records.size) :
    Stage (labels ++ [l]) s' a := by
  have hchange := hstep.change h.sound
  obtain ⟨hfirst, hcount⟩ := h.unborn a hle
  obtain ⟨hexit, hcollects⟩ := hchange.unborn hle
  have hfirst' : firstExit a (labels ++ [l]) = none := by
    rw [firstExit_append_singleton, hfirst, hexit, Option.or_none]
  have hcount' : collections a (labels ++ [l]) = 0 := by
    rw [collections_append_singleton, hcount, hcollects]
    rfl
  obtain ⟨rfl, hl, ⟨pid, parent, hborn⟩ | ⟨hbegun, hborn⟩⟩ := hchange.new hle hlt
  · exact .running (congrArg Life.state hborn.born) (congrArg (·.signal.count) hborn.born) hcount'
      fun _ => hfirst'
  · -- The new record was given up in the step that made it, so it is in no fork, before or after.
    have hold : ∀ f ∈ s.forks, f.child ≠ s.kernel.records.size :=
      fun f hf => Nat.ne_of_lt (h.sound.forks_lt f hf)
    refine .rejected hborn.reaped (by omega) ⟨?_, fun parent hmem => ?_⟩
    · rcases hstep.forks_cases with ⟨heq, -⟩ | ⟨f, -, heq, -⟩ | ⟨parent, pid, -, -, hl⟩
      · exact heq ▸ hold
      · exact fun g hg => hold g (List.mem_of_mem_erase (heq ▸ hg))
      · exact (hbegun _ _ hl).elim
    · rcases List.mem_append.1 hmem with hmem | hmem
      · exact Nat.lt_irrefl _ (h.forked _ _ hmem).1
      · obtain rfl := List.mem_singleton.1 hmem
        obtain ⟨⟨f, hf, hchild⟩, -⟩ := hstep.endsFork h.sound (a := s.kernel.records.size) rfl
        exact hold f hf hchild

theorem Orderly.overtaken_step {pid : Pid} (h : Orderly labels s) (hstep : Step S s l s')
    (hover : Overtaken labels s.kernel pid) : Overtaken (labels ++ [l]) s'.kernel pid := by
  obtain ⟨parent, child, hfailed, hcollected, hpid⟩ := hover
  have hchild : child < s.kernel.records.size := by
    apply Nat.lt_of_not_le
    intro hle
    rw [(h.unborn child hle).2] at hcollected
    exact Nat.lt_irrefl _ hcollected
  refine ⟨parent, child, List.mem_append_left _ hfailed, ?_, ?_⟩
  · rw [collections_append_singleton]
    exact Nat.lt_of_lt_of_le hcollected (Nat.le_add_right _ _)
  · exact ((hstep.change h.sound).after.pid child hchild).trans hpid

/-- The child of a fork that fails has been collected before, or is not reaped before. -/
theorem Orderly.collections_of_forkFailed (h : Orderly labels s) {parent b : ProcessId}
    (hstep : Step S s (.forkFailed parent b) s') (hb : b < s.kernel.records.size)
    (hreaped : (s.kernel.process b).state = .reaped) : collections b labels = 1 := by
  rcases (h.stage b hb).of_reaped hreaped with hcount | hunforked
  · exact hcount
  · obtain ⟨⟨f, hf, hchild⟩, -⟩ := hstep.endsFork h.sound (a := b) rfl
    exact (hunforked.1 f hf hchild).elim

theorem Orderly.kept_step (h : Orderly labels s) (hstep : Step S s l s')
    (ha : a < s.kernel.records.size) (hstate : (s'.kernel.process a).state ≠ .reaped)
    (hnot : ¬ Overtaken (labels ++ [l]) s'.kernel (s'.kernel.process a).pid) :
    s'.kernel.Registered a := by
  have hchange := hstep.change h.sound
  rw [hchange.after.pid a ha] at hnot
  have hkept (b : ProcessId) (hb : b < s.kernel.records.size)
      (hsame : (s.kernel.process b).pid = (s.kernel.process a).pid)
      (hlive : (s.kernel.process b).state ≠ .reaped) : s.kernel.Registered b :=
    h.kept b hb hlive fun hover => hnot (h.overtaken_step hstep (hsame ▸ hover))
  have hreg := hkept a ha rfl (hchange.live ha hstate)
  refine hchange.registered hreg ha hstate fun b hclears hba hsame => ?_
  -- The process whose id is unregistered is registered itself, or its fork was overtaken.
  obtain ⟨hb, -⟩ := hchange.cleared hclears
  refine hreg.pid_ne (hkept b hb hsame fun hreaped => ?_) hba.symm hsame.symm
  rcases hclears.cases with ⟨parent, rfl⟩ | ⟨caller, pid, code, rfl⟩
  · refine hnot ⟨parent, b, List.mem_append_right _ (List.mem_singleton.2 rfl), ?_, ?_⟩
    · rw [collections_append_singleton, h.collections_of_forkFailed hstep hb hreaped]
      exact Nat.one_pos
    · exact (hchange.after.pid b hb).trans hsame
  · obtain ⟨-, -, hzombie, -⟩ := hchange.of_collected
    cases hreaped.symm.trans hzombie

theorem Orderly.step (h : Orderly labels s) (hstep : Step S s l s') :
    Orderly (labels ++ [l]) s' := by
  have hchange := hstep.change h.sound
  have hsize := hchange.after.size_le
  refine ⟨h.sound.step hstep, fun parent a hmem => ?_, fun a ha => ?_, fun a ha => ?_,
    fun a ha hstate hnot => ?_⟩
  · rcases List.mem_append.1 hmem with hmem | hmem
    · obtain ⟨ha, hforks⟩ := h.forked parent a hmem
      exact ⟨Nat.lt_of_lt_of_le ha hsize, hstep.forks_ne ha hforks⟩
    · obtain rfl := List.mem_singleton.1 hmem
      obtain ⟨⟨f, hf, hchild⟩, hforks⟩ := hstep.endsFork h.sound (a := a) rfl
      exact ⟨Nat.lt_of_lt_of_le (hchild ▸ h.sound.forks_lt f hf) hsize, hforks⟩
  · obtain ⟨hfirst, hcount⟩ := h.unborn a (Nat.le_trans hsize ha)
    obtain ⟨hexit, hcollects⟩ := hchange.unborn (Nat.le_trans hsize ha)
    rw [firstExit_append_singleton, collections_append_singleton, hfirst, hexit, hcount, hcollects]
    exact ⟨rfl, rfl⟩
  · rcases Nat.lt_or_ge a s.kernel.records.size with hold | hnew
    · exact h.stage_step hstep hold
    · exact h.stage_new hstep hnew ha
  · rcases Nat.lt_or_ge a s.kernel.records.size with hold | hnew
    · exact h.kept_step hstep hold hstate hnot
    · obtain ⟨rfl, -, ⟨pid, parent, hborn⟩ | ⟨-, hborn⟩⟩ := hchange.new hnew ha
      · rw [Registered, hborn.pid_eq, hborn.table, if_pos rfl]
      · exact absurd hborn.reaped hstate

end UnixCore
