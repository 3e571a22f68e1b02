import UnixCore.Proofs.Rendezvous.Steps
import UnixCore.Proofs.System.Calls

/-! How the state of a process moves. Runs are told here with what each step does, so that it can be
seen which operation a move belongs to, and in them a process works only while it is running. -/

namespace UnixCore

open Kernel

variable {W : Type} {S : Services W} {k k' : Kernel W} {s s' : System W} {a p : ProcessId}

/-- What a step does: an operation, with how it ended, or a step of a call. -/
inductive Deed
  | operation (op : Operation) (r : Except Errno Unit)
  | call (l : Label)

def Deed.label : Deed → Label
  | operation op _ => op.label
  | call l => l

/-- Processes work only while they are running. -/
def Operation.Issued (k : Kernel W) : Operation → Prop
  | exec p _ _ | descriptors p _ | enterDirectory p _ _ | shareDirectory p _ =>
    (k.process p).state = .running
  | _ => True

inductive LiveStep (S : Services W) (s : System W) : Deed → System W → Prop
  | operate {op : Operation} {r : Except Errno Unit} {k : Kernel W} : op.Valid s.kernel →
    op.Issued s.kernel → (op.action S).result s.kernel = (r, k) →
    LiveStep S s (.operation op r) { s with kernel := k }
  | call {l : Label} {s' : System W} : l.OfCall → Step S s l s' → LiveStep S s (.call l) s'

abbrev LiveRun (S : Services W) : System W → List Deed → System W → Prop := Steps (LiveStep S)

theorem LiveStep.step {d : Deed} (h : LiveStep S s d s') : Step S s d.label s' := by
  cases h with
  | @operate op r k hvalid _ hresult =>
    have hstep : Step S s op.label { s with kernel := op.run S s.kernel } := .operate hvalid
    rw [Operation.run, hresult] at hstep
    exact hstep
  | call _ hstep => exact hstep

theorem LiveRun.run {s₀ : System W} {deeds : List Deed} (h : LiveRun S s₀ deeds s) :
    Run S s₀ (deeds.map Deed.label) s :=
  h.map LiveStep.step

/-! ### Calls as a whole -/

section Calls

variable {threads : Threads W} {frame : TrapFrame} {pid : Pid} {options : Int32}

/-- What others do meanwhile is such a run too. -/
abbrev LiveMeanwhile (S : Services W) : Kernel W → Kernel W → Prop := Interlude (LiveStep S)

theorem ensures_fork_liveRun (hp : p < s.kernel.records.size)
    (hstart : ∀ child frame k, LiveMeanwhile S k ((threads.start child frame).result k).2) :
    (fork S threads p frame).Ensures s.kernel
      (fun pid k => ∃ deeds child, (k.process child).pid = pid ∧
        LiveRun S s (deeds ++ [.call (.forked p child)]) { s with kernel := k })
      fun e k => ∃ deeds l, (l = .forkRefused p e ∨ ∃ child, l = .forkFailed p child) ∧
        LiveRun S s (deeds ++ [.call l]) { s with kernel := k } :=
  ensures_fork_steps (fun hstep hl => .call hl hstep) hp hstart

/-- A wait that nothing wakes stays under way. -/
theorem ensures_wait_liveRun (hp : p < s.kernel.records.size)
    (hyields : ∀ act ∈ threads.yields, ∀ k, LiveMeanwhile S k (act k)) :
    (wait S threads p pid options).Ensures s.kernel
      (fun r k => match r with
        | .reaped code child => ∃ deeds a,
          LiveRun S s (deeds ++ [.call (.collected p a child code)]) { s with kernel := k }
        | .blocked => ∃ deeds a, LiveRun S s deeds { s with
            kernel := k
            waits := ⟨p, (s.kernel.process p).pid, pid, a⟩ :: s.waits })
      fun e k => ∃ deeds, LiveRun S s (deeds ++ [.call (.waitFailed p e)]) { s with kernel := k } :=
  ensures_wait_steps (fun hstep hl => .call hl hstep) hp hyields

end Calls

/-! ### States -/

/-- The state of a process, if there is a record of it. -/
def Kernel.state? (k : Kernel W) (a : ProcessId) : Option ProcessState :=
  k.records[a]?.map (·.state)

namespace Kernel

theorem state?_of_lt (ha : a < k.records.size) : k.state? a = some (k.process a).state := by
  simp [state?, process, ha]

theorem state?_of_le (ha : k.records.size ≤ a) : k.state? a = none := by
  rw [state?, Array.getElem?_eq_none ha, Option.map_none]

@[simp] theorem state?_report (e : Event) : (k.report e).state? a = k.state? a := rfl

@[simp] theorem state?_unregister (pid : Pid) : (k.unregister pid).state? a = k.state? a := rfl

theorem state?_congr (hsize : k'.records.size = k.records.size)
    (hstate : ∀ p, (k'.process p).state = (k.process p).state) (a : ProcessId) :
    k'.state? a = k.state? a := by
  rcases Nat.lt_or_ge a k.records.size with ha | ha
  · rw [state?_of_lt ha, state?_of_lt (Nat.lt_of_lt_of_eq ha hsize.symm), hstate]
  · rw [state?_of_le ha, state?_of_le (Nat.le_trans (Nat.le_of_eq hsize) ha)]

/-- A change of one record. -/
theorem state?_of_others (hp : p < k.records.size) (hsize : k'.records.size = k.records.size)
    (hothers : ∀ q ≠ p, (k'.process q).state = (k.process q).state) (a : ProcessId) :
    k'.state? a = if a = p then some (k'.process p).state else k.state? a := by
  split
  case isTrue ha => rw [ha, state?_of_lt (Nat.lt_of_lt_of_eq hp hsize.symm)]
  case isFalse ha =>
    rcases Nat.lt_or_ge a k.records.size with hlt | hge
    · rw [state?_of_lt hlt, state?_of_lt (Nat.lt_of_lt_of_eq hlt hsize.symm), hothers a ha]
    · rw [state?_of_le hge, state?_of_le (Nat.le_trans (Nat.le_of_eq hsize) hge)]

theorem Calm.state? (h : Calm k k') (a : ProcessId) : k'.state? a = k.state? a :=
  state?_congr h.size h.state a

theorem state?_putSignal {signal : Semaphore} (b : ProcessId) :
    (k.putSignal a signal).state? b = k.state? b :=
  state?_congr (size_modifyProcess _) state_putSignal b

theorem Made.state? {pid : Pid} {parent : Option Pid} {n : Nat} (h : Made pid parent n k k')
    (a : ProcessId) :
    k'.state? a = if a = k.records.size then some .running else k.state? a := by
  split
  case isTrue ha =>
    rw [ha, state?_of_lt h.lt_size]
    exact congrArg some (congrArg Life.state h.life)
  case isFalse ha =>
    rcases Nat.lt_or_ge a k.records.size with hlt | hge
    · rw [state?_of_lt hlt, state?_of_lt (Nat.lt_trans hlt h.lt_size), h.others a hlt]
    · rw [state?_of_le hge, state?_of_le]
      rw [h.size]
      exact Nat.succ_le_of_lt (Nat.lt_of_le_of_ne hge (Ne.symm ha))

theorem state?_reap (hp : p < k.records.size) (a : ProcessId) :
    (reap S p k).state? a = if a = p then some .reaped else k.state? a := by
  have h := state?_of_others hp (size_reap S) (fun q hq => by rw [process_reap_ne S hq]) a
  rw [process_reap_self S hp] at h
  exact h

theorem state?_discard (hp : p < k.records.size) (a : ProcessId) :
    (discard S p k).state? a = if a = p then some .reaped else k.state? a :=
  state?_reap (k := k.unregister (k.process p).pid) hp a

theorem GivenUp.state? (h : GivenUp S k k') (a : ProcessId) :
    k'.state? a = if a = k.records.size then some .reaped else k.state? a := by
  obtain ⟨pid, k₁, hmade, rfl⟩ := h
  rw [state?_discard hmade.lt_size, hmade.state?]
  split
  case isTrue => rfl
  case isFalse => rfl

end Kernel

/-! ### Moves -/

/-- The ways in which a step moves the state of the process `a`. -/
inductive Move (a : ProcessId) : Deed → Option ProcessState → Option ProcessState → Prop
  | stays {d : Deed} {st : Option ProcessState} : Move a d st st
  | spawned {path : String} {args : List String} :
    Move a (.operation (.spawnInitial path args) (.ok ())) none (some .running)
  | forked {parent : ProcessId} : Move a (.call (.forkBegun parent a)) none (some .running)
  | exited {code : Int32} {r : Except Errno Unit} :
    Move a (.operation (.exit a code) r) (some .running) (some (.zombie code))
  | collected {caller : ProcessId} {pid : Pid} {code : Int32} :
    Move a (.call (.collected caller a pid code)) (some (.zombie code)) (some .reaped)
  | spawnFailed {path : String} {args : List String} {e : Errno} :
    Move a (.operation (.spawnInitial path args) (.error e)) none (some .reaped)
  | forkRefused {parent : ProcessId} {e : Errno} :
    Move a (.call (.forkRefused parent e)) none (some .reaped)
  | forkFailed {parent : ProcessId} {st : ProcessState} :
    Move a (.call (.forkFailed parent a)) (some st) (some .reaped)

theorem Move.of_eq {d : Deed} {st st' : Option ProcessState} (h : st' = st) : Move a d st st' :=
  h ▸ .stays

/-- A move of one process that leaves all others where they are. -/
theorem Move.of_ite {d : Deed} {k : Kernel W} {st' : Option ProcessState} (b : ProcessId)
    (st : Option ProcessState) (h : st' = if a = b then st else k.state? a)
    (hmove : Move b d (k.state? b) st) : Move a d (k.state? a) st' := by
  rw [h]
  split
  case isTrue hab =>
    rw [hab]
    exact hmove
  case isFalse => exact .stays

theorem Move.of_made {d : Deed} {k k' : Kernel W} {st : ProcessState}
    (h : k'.state? a = if a = k.records.size then some st else k.state? a)
    (hmove : Move k.records.size d none (some st)) : Move a d (k.state? a) (k'.state? a) := by
  refine .of_ite _ _ h ?_
  rw [state?_of_le (Nat.le_refl _)]
  exact hmove

theorem Operation.move {op : Operation} {r : Except Errno Unit} (hvalid : op.Valid k)
    (hresult : (op.action S).result k = (r, k')) :
    Move a (.operation op r) (k.state? a) (k'.state? a) := by
  have hwithin (hworked : op.label = .worked) (hspawn : ∀ path args, op ≠ .spawnInitial path args) :
      Move a (.operation op r) (k.state? a) (k'.state? a) := by
    obtain ⟨p, hp⟩ := exists_within (S := S) hworked hspawn
    exact .of_eq (((hp k).result (P := fun k' => k.Within p k') hresult).quiet.calm.state? a)
  cases op with
  | spawnInitial path args =>
    have hspawn : (action S (.spawnInitial path args)).Ensures k
        (fun _ k' => Move a (.operation (.spawnInitial path args) (.ok ())) (k.state? a)
          (k'.state? a))
        fun e k' => Move a (.operation (.spawnInitial path args) (.error e)) (k.state? a)
          (k'.state? a) := by
      refine Action.ensures_map.2 (ensures_spawnInitial_made.mono ?_ ?_)
      · rintro - k' ⟨pid, h⟩
        exact .of_made (h.state? a) .spawned
      · rintro e k' (rfl | h)
        · exact .stays
        · exact .of_made (h.state? a) .spawnFailed
    cases r with
    | ok _ => exact hspawn.of_result hresult
    | error e => exact hspawn.of_result hresult
  | exit p code =>
    have hexit : k' = k.exit p code := congrArg Prod.snd hresult.symm
    rw [hexit]
    rcases exit_cases p code k with ⟨-, heq⟩ | ⟨-, -, heq⟩ | ⟨-, hrunning, heq⟩ <;> rw [heq]
    · exact .stays
    · exact .stays
    · refine .of_ite p (some (.zombie code)) ?_ ?_
      · have hsize : (modifyProcess p (Process.exited code) k).records.size = k.records.size :=
          size_modifyProcess _
        have h := state?_of_others hvalid hsize
          (fun q hq => by rw [process_modifyProcess_ne _ hq]) a
        rw [process_modifyProcess_self _ hvalid] at h
        exact h
      · rw [state?_of_lt hvalid, hrunning]
        exact .exited
  | _ => exact hwithin rfl nofun

theorem Effect.move {l : Label} (h : Effect S k l k') (hl : l.OfCall) :
    Move a (.call l) (k.state? a) (k'.state? a) := by
  cases h with
  | within | spawned | spawnFailed | exited => exact hl.elim
  | forkRefused | waitRefused => exact .stays
  | forkGivenUp h => exact .of_made (h.state? a) .forkRefused
  | forkBegun _ h => exact .of_made (h.state? a) .forked
  | forked e => exact .of_eq (state?_report e)
  | @forkFailed _ b e hb =>
    refine .of_ite b (some .reaped) ?_ ?_
    · have hlost := quiet_lostThread (k := k) (a := b) e
      rw [state?_discard (Nat.lt_of_lt_of_eq hb hlost.size.symm), hlost.calm.state?]
    · rw [state?_of_lt hb]
      exact .forkFailed
  | waitBlocked hb => exact .of_eq ((calm_enterWait hb).state? a)
  | wasted => exact .of_eq (state?_putSignal a)
  | @collected _ b code signal e hb hzombie =>
    have hb' : b < (k.putSignal b signal).records.size := Nat.lt_of_lt_of_eq hb size_putSignal.symm
    refine .of_ite b (some .reaped) ?_ ?_
    · rw [state?_report, state?_reap (k := (k.putSignal b signal).unregister _) hb',
        state?_unregister, state?_putSignal]
    · rw [state?_of_lt hb, hzombie]
      exact .collected

/-- Every step moves the state of a process in one of these ways, or leaves it. -/
theorem LiveStep.move {d : Deed} (h : s.Sound) (hstep : LiveStep S s d s') (a : ProcessId) :
    Move a d (s.kernel.state? a) (s'.kernel.state? a) := by
  cases hstep with
  | operate hvalid _ hresult => exact Operation.move hvalid hresult
  | call hl hstep => exact (hstep.effect h).move hl

end UnixCore
