import UnixCore.Kernel.Lifecycle
import UnixCore.Proofs.Action

/-! How the parts of the kernel's operations read and change the process records. -/

namespace UnixCore

def Process.reaped (descriptors : DescriptorTable) (p : Process) : Process :=
  { p with state := .reaped, space := none, directory := none, descriptors }

def Process.exited (code : Int32) (p : Process) : Process :=
  { p.detachThread with state := .zombie code, exitSignal := p.exitSignal.up }

namespace Kernel

variable {W α : Type} {k : Kernel W} {p q : ProcessId}

theorem process_modifyProcess_self (f : Process → Process) (hp : p < k.records.size) :
    (modifyProcess p f k).process p = f (k.process p) := by
  simp [process, modifyProcess, hp, Array.getElem_modify]

theorem process_modifyProcess_ne (f : Process → Process) (h : q ≠ p) :
    (modifyProcess p f k).process q = k.process q := by
  simp [process, modifyProcess, Array.getElem?_modify, Ne.symm h]

@[simp] theorem size_modifyProcess (f : Process → Process) :
    (modifyProcess p f k).records.size = k.records.size := by
  simp [modifyProcess]

@[simp] theorem process_modifyWorld (f : W → W) : (modifyWorld f k).process p = k.process p := rfl

@[simp] theorem process_report (e : Event) : (report e k).process p = k.process p := rfl

@[simp] theorem process_destroySpace (S : Services W) (space : Option AddressSpace) :
    (destroySpace S space k).process p = k.process p := by
  cases space <;> rfl

@[simp] theorem records_destroySpace (S : Services W) (space : Option AddressSpace) :
    (destroySpace S space k).records = k.records := by
  cases space <;> rfl

@[simp] theorem records_retainDirectory (directory : Option Nat) :
    (retainDirectory directory k).records = k.records := by
  cases directory <;> rfl

@[simp] theorem records_dropDirectory (S : Services W) (directory : Option Nat) :
    (dropDirectory S directory k).records = k.records := by
  cases directory <;> rfl

theorem records_modify_of_le {f : Process → Process} (hp : k.records.size ≤ p) :
    k.records.modify p f = k.records := by
  apply Array.ext (Array.size_modify ..)
  intro i hi hi'
  rw [Array.getElem_modify, if_neg (Nat.ne_of_gt (Nat.lt_of_lt_of_le hi' hp))]

theorem modify_push {α : Type} (xs : Array α) (a : α) (f : α → α) :
    (xs.push a).modify xs.size f = xs.push (f a) := by
  apply Array.ext (by simp)
  intro i hi hi'
  rw [Array.getElem_modify, Array.getElem_push, Array.getElem_push]
  grind

def cleared (k : Kernel W) (S : Services W) (p : ProcessId) : Descriptors W :=
  Descriptors.clear S ⟨(k.process p).descriptors, k.shared⟩

theorem reap_eq (S : Services W) :
    reap S p k = dropDirectory S (k.process p).directory (destroySpace S (k.process p).space
      { modifyProcess p (Process.reaped (k.cleared S p).table) k with
        shared := (k.cleared S p).shared }) := rfl

theorem records_reap (S : Services W) :
    (reap S p k).records = k.records.modify p (Process.reaped (k.cleared S p).table) := by
  rw [reap_eq, records_dropDirectory, records_destroySpace]
  rfl

@[simp] theorem table_reap (S : Services W) : (reap S p k).table = k.table := by
  rw [reap_eq]
  cases (k.process p).directory <;> cases (k.process p).space <;> rfl

@[simp] theorem config_reap (S : Services W) : (reap S p k).config = k.config := by
  rw [reap_eq]
  cases (k.process p).directory <;> cases (k.process p).space <;> rfl

@[simp] theorem size_reap (S : Services W) : (reap S p k).records.size = k.records.size := by
  rw [records_reap, Array.size_modify]

theorem process_reap_self (S : Services W) (hp : p < k.records.size) :
    (reap S p k).process p = (k.process p).reaped (k.cleared S p).table := by
  rw [process, records_reap]
  exact process_modifyProcess_self _ hp

theorem process_reap_ne (S : Services W) (h : q ≠ p) :
    (reap S p k).process q = k.process q := by
  rw [process, records_reap]
  exact process_modifyProcess_ne _ h

theorem table_discard (S : Services W) :
    (discard S p k).table = k.table.remove (k.process p).pid := by
  rw [discard, table_reap, unregister]

@[simp] theorem size_discard (S : Services W) :
    (discard S p k).records.size = k.records.size := by
  rw [discard, size_reap, unregister]

theorem process_discard_self (S : Services W) (hp : p < k.records.size) :
    (discard S p k).process p = (k.process p).reaped (k.cleared S p).table :=
  process_reap_self (k := k.unregister (k.process p).pid) S hp

theorem process_discard_ne (S : Services W) (h : q ≠ p) :
    (discard S p k).process q = k.process q :=
  process_reap_ne (k := k.unregister (k.process p).pid) S h

theorem process_setSpace_self (S : Services W) (space : Option AddressSpace)
    (hp : p < k.records.size) :
    (setSpace S p space k).process p = { k.process p with space } := by
  rw [setSpace, process_destroySpace, process_modifyProcess_self _ hp]

@[simp] theorem size_setSpace (S : Services W) (space : Option AddressSpace) :
    (setSpace S p space k).records.size = k.records.size := by
  rw [setSpace, records_destroySpace, size_modifyProcess]

theorem records_ext {k' : Kernel W} (hsize : k'.records.size = k.records.size)
    (hprocess : ∀ p < k.records.size, k'.process p = k.process p) : k'.records = k.records := by
  apply Array.ext hsize
  intro p hp hp'
  have hrecord := hprocess p hp'
  rwa [process, process, Array.getElem?_eq_getElem hp, Array.getElem?_eq_getElem hp'] at hrecord

theorem modifyProcess_const (f : Process → Process) :
    modifyProcess p (fun _ => f (k.process p)) k = modifyProcess p f k := by
  have hrecords : k.records.modify p (fun _ => f (k.process p)) = k.records.modify p f := by
    apply Array.ext (by simp)
    intro i hi hi'
    simp only [Array.getElem_modify]
    split
    case isTrue heq =>
      subst heq
      rw [process, Array.getElem?_eq_getElem (by simpa using hi)]
      rfl
    case isFalse => rfl
  rw [modifyProcess, hrecords, modifyProcess]

theorem modifyProcess_eq_self {f : Process → Process} (h : f (k.process p) = k.process p) :
    modifyProcess p f k = k := by
  have hrecords : k.records.modify p f = k.records := by
    apply Array.ext (Array.size_modify ..)
    intro i hi hi'
    rw [Array.getElem_modify]
    split
    case isTrue heq =>
      subst heq
      rw [process, Array.getElem?_eq_getElem hi'] at h
      exact h
    case isFalse => rfl
  rw [modifyProcess, hrecords]

/-- What an exit does: nothing to a process that is not registered or has exited before. -/
theorem exit_cases (p : ProcessId) (code : Int32) (k : Kernel W) :
    (k.table.get? (k.process p).pid ≠ some p ∧
        k.exit p code = report (.strayExit (k.process p).pid) k) ∨
      (k.table.get? (k.process p).pid = some p ∧ (k.process p).state ≠ .running ∧
        k.exit p code = k) ∨
      (k.table.get? (k.process p).pid = some p ∧ (k.process p).state = .running ∧
        k.exit p code = report (.processExited (k.process p).pid code)
          (modifyProcess p (Process.exited code) k)) := by
  unfold exit
  by_cases hreg : k.table.get? (k.process p).pid = some p
  · refine .inr ?_
    simp only [hreg, if_true, true_and]
    unfold Process.exit?
    cases hstate : (k.process p).state with
    | running =>
      refine .inr ⟨rfl, ?_⟩
      rw [← modifyProcess_const (Process.exited code)]
      rfl
    | zombie c => exact .inl ⟨nofun, rfl⟩
    | reaped => exact .inl ⟨nofun, rfl⟩
  · exact .inl ⟨hreg, by simp only [hreg, if_false]⟩

theorem exit_of_running (code : Int32) (hreg : k.table.get? (k.process p).pid = some p)
    (hrunning : (k.process p).state = .running) :
    k.exit p code = report (.processExited (k.process p).pid code)
      (modifyProcess p (Process.exited code) k) := by
  rcases exit_cases p code k with ⟨hnot, -⟩ | ⟨-, hnot, -⟩ | ⟨-, -, heq⟩
  · exact (hnot hreg).elim
  · exact (hnot hrunning).elim
  · exact heq

/-- No other process is changed by an exit. -/
theorem process_exit_ne (code : Int32) (h : q ≠ p) : (k.exit p code).process q = k.process q := by
  rcases exit_cases p code k with ⟨-, heq⟩ | ⟨-, -, heq⟩ | ⟨-, -, heq⟩ <;> rw [heq]
  · rfl
  · exact process_modifyProcess_ne _ h

theorem lt_of_space {space : AddressSpace} (h : (k.process p).space = some space) :
    p < k.records.size := by
  by_cases hlt : p < k.records.size
  · exact hlt
  · rw [process, Array.getElem?_eq_none (Nat.le_of_not_lt hlt)] at h
    cases h

/-- The kernel with one more record, registered under `pid`. -/
def created (k : Kernel W) (pid : Pid) (name : String) (table : ProcessTable ProcessId) :
    Kernel W :=
  report (.processCreated pid name)
    { k with table, records := k.records.push (.fresh pid name k.config.openMax) }

theorem process_created_self {pid : Pid} {name : String} {table : ProcessTable ProcessId} :
    (k.created pid name table).process k.records.size = .fresh pid name k.config.openMax := by
  simp [process, created, report]

theorem process_created_of_lt {pid : Pid} {name : String} {table : ProcessTable ProcessId}
    (hp : p < k.records.size) : (k.created pid name table).process p = k.process p := by
  simp [process, created, report, Array.getElem?_push, Nat.ne_of_lt hp]

section Ensures

variable {ok : α → Kernel W → Prop} {error : Errno → Kernel W → Prop}

theorem ensures_create {name : String} {ok : ProcessId → Kernel W → Prop} :
    (create name).Ensures k ok error ↔
      (∀ pid table, (k.table.create fun _ => k.records.size) = .ok (pid, table) →
        ok k.records.size (k.created pid name table)) ∧
      ∀ e, (k.table.create fun _ => k.records.size) = .error e → error e k := by
  unfold Action.Ensures
  cases hcreate : k.table.create fun _ => k.records.size with
  | error e =>
    have hrun : create name k = .error e k := by
      simp only [create, hcreate]
    rw [hrun]
    simp
  | ok r =>
    have hrun : create name k = .ok k.records.size (k.created r.1 name r.2) := by
      simp only [create, hcreate, created]
    rw [hrun]
    simp [Prod.ext_iff]

@[simp] theorem ensures_onWorld {act : Action W α} :
    (onWorld act).Ensures k ok error ↔
      act.Ensures k.shared.world (fun a w => ok a (modifyWorld (fun _ => w) k))
        fun e w => error e (modifyWorld (fun _ => w) k) := by
  rw [onWorld, Action.ensures_onPart, Shared.onWorld, Action.ensures_onPart]
  rfl

theorem ensures_onSpace {act : Action (AddressSpace × W) α} {space : AddressSpace}
    (h : (k.process p).space = some space) :
    (onSpace p act).Ensures k ok error ↔
      act.Ensures (space, k.shared.world)
        (fun a s =>
          ok a (modifyWorld (fun _ => s.2) (modifyProcess p ({ · with space := some s.1 }) k)))
        fun e s => error e
          (modifyWorld (fun _ => s.2) (modifyProcess p ({ · with space := some s.1 }) k)) := by
  have hrun : onSpace p act k = Action.onPart (fun k => (space, k.shared.world))
      (fun s k => modifyWorld (fun _ => s.2) (modifyProcess p ({ · with space := some s.1 }) k))
      act k := by
    unfold onSpace
    rw [h]
  rw [Action.ensures_congr hrun, Action.ensures_onPart]

theorem readMemory_of_none {read : AddressSpace → Except Errno α}
    (h : (k.process p).space = none) : readMemory p read k = .error .badAddress k := by
  unfold readMemory
  rw [h]

theorem readMemory_of_space {read : AddressSpace → Except Errno α} {space : AddressSpace}
    (h : (k.process p).space = some space) :
    readMemory p read k = Action.ofExcept (read space) k := by
  unfold readMemory
  rw [h]

theorem ensures_readMemory {read : AddressSpace → Except Errno α} :
    (readMemory p read).Ensures k ok error ↔
      ((k.process p).space = none → error .badAddress k) ∧
        ∀ space, (k.process p).space = some space →
          (∀ a, read space = .ok a → ok a k) ∧ ∀ e, read space = .error e → error e k := by
  cases hspace : (k.process p).space with
  | none =>
    rw [Action.ensures_of_error (readMemory_of_none hspace)]
    simp
  | some space =>
    rw [Action.ensures_congr (readMemory_of_space hspace), Action.ensures_ofExcept]
    simp

theorem ensures_beginWait {caller : ProcessId} {pid : Pid} {options : Int32} :
    (beginWait caller pid options).Ensures k
      (fun child k' => k' = k ∧ options = 0 ∧ k.table.get? pid = some child ∧
        pid ≠ (k.process caller).pid ∧
          (k.process child).parent = some (k.process caller).pid)
      fun e k' => e ∈ [.invalidArgument, .noSuchProcess, .notAChild] ∧ k' = k := by
  rw [beginWait, Action.ensures_bind, Action.ensures_get]
  split
  case isTrue => exact ⟨by decide, rfl⟩
  case isFalse hoptions =>
    cases htable : k.table.get? pid with
    | none => exact ⟨by decide, rfl⟩
    | some child =>
      dsimp only
      split
      case isTrue => exact ⟨by decide, rfl⟩
      case isFalse hchild =>
        obtain ⟨hpid, hparent⟩ := not_or.1 hchild
        exact ⟨rfl, Decidable.not_not.1 hoptions, rfl, hpid, Decidable.not_not.1 hparent⟩

end Ensures

end Kernel

end UnixCore
