import UnixCore.Proofs.Accounting.Remnant
import UnixCore.Proofs.Rendezvous.Meeting

/-! The ends of children. In whatever order the children of a process exit and are waited for, as
long as each exits before the wait for it, every wait gives the same and the processes, the registry
and all that is shared are the same in the end. How far the children have come depends only on which
exits and waits there have been, and not on their order. -/

namespace UnixCore

/-- A child of a process, and the code with which it exits. -/
structure Child where
  id : ProcessId
  pid : Pid
  code : Int32
  deriving DecidableEq

inductive Ending
  | exits (c : Child)
  | awaited (c : Child)
  deriving DecidableEq

def Ending.child : Ending → Child
  | exits c | awaited c => c

/-- Every child exits once and is waited for once, and it exits before it is waited for. -/
structure Schedule (children : List Child) (events : List Ending) : Prop where
  once : events.Perm (children.map .exits ++ children.map .awaited)
  exits_first : ∀ c ∈ children, events.idxOf (.exits c) < events.idxOf (.awaited c)

namespace Kernel

variable {W : Type}

/-- Children exit and are waited for by `p`, with a thread service for each wait. Gives what the
wait for each child gave, and the state after the last event. -/
def endChildren (S : Services W) (threads : Pid → Threads W) (p : ProcessId) :
    (events : List Ending) → Kernel W → List (Pid × Except Errno Waited) × Kernel W
  | [], k => ([], k)
  | .exits c :: events, k => endChildren S threads p events (k.exit c.id c.code)
  | .awaited c :: events, k =>
    let (result, k) := (wait S (threads c.pid) p c.pid 0).result k
    let (results, k) := endChildren S threads p events k
    ((c.pid, result) :: results, k)

/-- The children are different processes that `p` can wait for, and have not exited. -/
structure Raises (k : Kernel W) (p : ProcessId) (children : List Child) : Prop where
  nodup : (children.map Child.id).Nodup
  finds : ∀ c ∈ children, k.Finds p c.pid c.id
  running : ∀ c ∈ children, (k.process c.id).state = .running

end Kernel

/-- Two kernels with the same registry, the same records, the same open files and directories with
their share counts and cursors, and the same numbers of vnodes in use and of live address spaces. -/
structure Kernel.Alike {W : Type} (k k' : Kernel (W × Ledger)) : Prop where
  config : k.config = k'.config
  pids : k.table.pids = k'.table.pids
  registered : ∀ pid, k.table.get? pid = k'.table.get? pid
  nextPid : k.table.nextPid = k'.table.nextPid
  records : k.records = k'.records
  shared : k'.shared.Agrees k.shared

open Kernel

/-! ### How far the children have come -/

/-- A child that has exited and whose exit signal has been taken is reaped. -/
def Process.ended (code : Int32) (r : Process) : Process :=
  { (r.exited code).reaped r.descriptors.clear with exitSignal := r.exitSignal }

/-- The record of a child when some events have happened. -/
def Child.record (c : Child) (events : List Ending) (r : Process) : Process :=
  if .awaited c ∈ events then r.ended c.code
  else if .exits c ∈ events then r.exited c.code
  else r

variable {W : Type} {S : Services W} {children : List Child} {c : Child} {p : ProcessId}
  {events done done' : List Ending}

theorem Child.record_append_ne {e : Ending} (h : c ≠ e.child) (r : Process) :
    c.record (done ++ [e]) r = c.record done r := by
  cases e <;> rw [Ending.child] at h <;> simp [Child.record, h]

/-- The state when some events have happened: nothing but the children has changed, the children
that were waited for are not registered, and what they held is given up. -/
structure Ended (children : List Child) (k₀ : Kernel (W × Ledger)) (events : List Ending)
    (k : Kernel (W × Ledger)) : Prop where
  config : k.config = k₀.config
  nextPid : k.table.nextPid = k₀.table.nextPid
  size : k.records.size = k₀.records.size
  child : ∀ c ∈ children, k.process c.id = c.record events (k₀.process c.id)
  others : ∀ q, (∀ c ∈ children, q ≠ c.id) → k.process q = k₀.process q
  registered : ∀ pid, k.table.get? pid =
    if ∃ c ∈ children, pid = c.pid ∧ .awaited c ∈ events then none else k₀.table.get? pid
  booked : k.Booked k₀.shared k₀.records.size 0
  shared : k₀.shared.Remnant k.shared

variable {k k' k₀ : Kernel (W × Ledger)}

theorem Ended.nil (h : k.Booked k.shared k.records.size 0) : Ended children k [] k := by
  refine ⟨rfl, rfl, rfl, fun c _ => ?_, fun _ _ => rfl, fun pid => ?_, h, .refl _⟩
  · simp [Child.record]
  · simp

/-- The state depends only on which events have happened. -/
theorem Ended.alike (h : Ended children k₀ done k) (h' : Ended children k₀ done' k')
    (hsame : ∀ e, e ∈ done ↔ e ∈ done') : Alike k k' := by
  have hregistered (pid : Pid) : k.table.get? pid = k'.table.get? pid := by
    rw [h.registered, h'.registered]
    simp only [hsame]
  have hrecords : k.records = k'.records := by
    refine records_ext (h.size.trans h'.size.symm) fun q _ => ?_
    by_cases hq : ∃ c ∈ children, q = c.id
    · obtain ⟨c, hc, rfl⟩ := hq
      rw [h.child c hc, h'.child c hc, Child.record, Child.record]
      simp only [hsame]
    · simp only [not_exists, not_and] at hq
      rw [h.others q hq, h'.others q hq]
  have hholdings : k.holdings + 0 = k'.holdings + 0 := by
    rw [holdings, holdings, hrecords]
  exact ⟨h.config.trans h'.config.symm, ProcessTable.pids_eq hregistered, hregistered,
    h.nextPid.trans h'.nextPid.symm, hrecords,
    h'.shared.agrees h.shared h'.booked.balanced (hholdings ▸ h.booked.balanced)⟩

/-! ### One more event -/

/-- What is known of the children before the first event. -/
structure Young (k : Kernel W) (p : ProcessId) (children : List Child) : Prop
    extends k.Raises p children where
  lt_size : ∀ c ∈ children, c.id < k.records.size
  pid : ∀ c ∈ children, (k.process c.id).pid = c.pid
  units : ∀ c ∈ children, (k.process c.id).exitSignal.count = 0

theorem Young.id_ne (h : Young k₀ p children) {d : Child} (hc : c ∈ children) (hd : d ∈ children)
    (hne : d ≠ c) : d.id ≠ c.id :=
  fun hid => hne (List.inj_on_of_nodup_map h.nodup hd hc hid)

/-- Since nobody but the children has changed, the parent is as it was. -/
theorem Ended.parent (h : Ended children k₀ done k) (hyoung : Young k₀ p children) :
    k.process p = k₀.process p :=
  h.others p fun c hc => (hyoung.finds c hc).ne (hyoung.pid c hc)

/-- A child is registered until somebody has waited for it. -/
theorem Ended.kept (h : Ended children k₀ done k) (hyoung : Young k₀ p children)
    (hc : c ∈ children) (hnot : .awaited c ∉ done) : k.table.get? c.pid = some c.id := by
  rw [h.registered, if_neg, (hyoung.finds c hc).found]
  rintro ⟨d, hd, hpid, hmem⟩
  have hid := (hyoung.finds c hc).found
  rw [hpid, (hyoung.finds d hd).found] at hid
  rw [List.inj_on_of_nodup_map hyoung.nodup hd hc (Option.some.inj hid)] at hmem
  exact hnot hmem

/-- An event changes the record of its child and no other. -/
theorem Ended.records (h : Ended children k₀ done k) (hyoung : Young k₀ p children) {e : Ending}
    (hc : e.child ∈ children)
    (hself : k'.process e.child.id = e.child.record (done ++ [e]) (k₀.process e.child.id))
    (hothers : ∀ q ≠ e.child.id, k'.process q = k.process q) :
    (∀ d ∈ children, k'.process d.id = d.record (done ++ [e]) (k₀.process d.id)) ∧
      ∀ q, (∀ c ∈ children, q ≠ c.id) → k'.process q = k₀.process q := by
  constructor
  · intro d hd
    by_cases hdc : d = e.child
    · rw [hdc, hself]
    · rw [hothers _ (hyoung.id_ne hc hd hdc), h.child d hd, Child.record_append_ne hdc]
  · intro q hq
    rw [hothers q (hq _ hc), h.others q hq]

/-- When a child exits, the children have come one event further. -/
theorem Ended.exits (h : Ended children k₀ done k) (hyoung : Young k₀ p children)
    (hc : c ∈ children) (hexits : .exits c ∉ done) (hawaited : .awaited c ∉ done) :
    Ended children k₀ (done ++ [.exits c]) (k.exit c.id c.code) := by
  have hrecord := h.child c hc
  rw [Child.record, if_neg hawaited, if_neg hexits] at hrecord
  have hreg : k.table.get? (k.process c.id).pid = some c.id := by
    rw [hrecord, hyoung.pid c hc]
    exact h.kept hyoung hc hawaited
  have hexit := exit_of_running c.code hreg (hrecord ▸ hyoung.running c hc)
  have hlt : c.id < k.records.size := Nat.lt_of_lt_of_eq (hyoung.lt_size c hc) h.size.symm
  have hexited : (k.exit c.id c.code).process c.id =
      c.record (done ++ [.exits c]) (k₀.process c.id) := by
    have hnot : .awaited c ∉ done ++ [.exits c] := by simpa using hawaited
    rw [hexit, process_report, process_modifyProcess_self _ hlt, hrecord, Child.record,
      if_neg hnot, if_pos (by simp)]
  obtain ⟨hchildren, hothers⟩ :=
    h.records hyoung (e := .exits c) hc hexited fun q hq => process_exit_ne _ hq
  refine ⟨?_, ?_, ?_, hchildren, hothers, fun pid => ?_, h.booked.exit c.code, ?_⟩
  · rw [hexit]
    exact h.config
  · rw [hexit]
    exact h.nextPid
  · rw [hexit]
    exact (size_modifyProcess _).trans h.size
  · rw [hexit]
    exact (h.registered pid).trans (by simp)
  · rw [hexit]
    exact h.shared.trans (.report _)

/-- When a child that has exited is waited for, the wait gives its code and id, and the children
have come one event further. -/
theorem Ended.awaited (h : Ended children k₀ done k) (hyoung : Young k₀ p children)
    (hc : c ∈ children) (hexits : .exits c ∈ done) (hawaited : .awaited c ∉ done)
    (threads : Threads (W × Ledger)) :
    ∃ k', (wait S.audited threads p c.pid 0).result k = (.ok (.reaped c.code c.pid), k') ∧
      Ended children k₀ (done ++ [.awaited c]) k' := by
  have hrecord := h.child c hc
  rw [Child.record, if_neg hawaited, if_pos hexits] at hrecord
  have hpid : (k.process c.id).pid = c.pid := by
    rw [hrecord, ← hyoung.pid c hc]
    rfl
  have hreg : k.Registered c.id := by
    rw [Registered, hpid]
    exact h.kept hyoung hc hawaited
  have hstate : (k.process c.id).state = .zombie c.code := by
    rw [hrecord]
    rfl
  -- The wait takes the one unit that the exit gave, and what is left is what there was at first.
  have hsignal : (k.process c.id).exitSignal.tryDown = some (k₀.process c.id).exitSignal := by
    rw [hrecord]
    exact Semaphore.tryDown_up (hyoung.units c hc)
  have hparent : (k.process c.id).parent = some (k.process p).pid := by
    rw [hrecord, h.parent hyoung]
    exact (hyoung.finds c hc).parent
  have hself : (k.process c.id).pid ≠ (k.process p).pid := by
    rw [hpid, h.parent hyoung]
    exact (hyoung.finds c hc).other
  have hwait := wait_of_zombie (S := S.audited) hreg hstate hsignal hparent hself threads
  rw [hpid] at hwait
  have hlt : c.id < k.records.size := Nat.lt_of_lt_of_eq (hyoung.lt_size c hc) h.size.symm
  have hcollected : (k.collected S.audited c.id (k.process p).pid c.pid c.code
      (k₀.process c.id).exitSignal).process c.id =
        c.record (done ++ [.awaited c]) (k₀.process c.id) := by
    rw [process_collected_self hlt, hrecord, Child.record, if_pos (by simp)]
    rfl
  obtain ⟨hchildren, hothers⟩ :=
    h.records hyoung (e := .awaited c) hc hcollected fun q hq => process_collected_ne hq
  refine ⟨_, Action.result_of_ok hwait, ?_, ?_, ?_, hchildren, hothers, fun pid => ?_, ?_, ?_⟩
  · exact (config_reap _).trans h.config
  · rw [table_collected]
    exact h.nextPid
  · exact (size_reap _).trans ((size_modifyProcess _).trans h.size)
  · rw [table_collected, ProcessTable.get?_remove, h.registered]
    by_cases hgone : pid = c.pid
    · rw [if_pos hgone, if_pos]
      exact ⟨c, hc, hgone, List.mem_append_right _ (List.mem_singleton_self _)⟩
    · have hsame : (∃ d ∈ children, pid = d.pid ∧ .awaited d ∈ done ++ [.awaited c]) ↔
          ∃ d ∈ children, pid = d.pid ∧ .awaited d ∈ done := by
        refine exists_congr fun d => and_congr_right fun _ => and_congr_right fun hd => ?_
        have hne : d ≠ c := fun hdc => hgone (hdc ▸ hd)
        simp [hne]
      rw [if_neg hgone]
      simp only [hsame]
  · exact (((h.booked.putSignal _).unregister _).reap).report _
  · exact h.shared.trans ((Shared.Remnant.reap (k := (k.putSignal c.id _).unregister c.pid)).trans
      (.report _))

/-! ### All events -/

def Child.answer (c : Child) : Pid × Except Errno Waited := (c.pid, .ok (.reaped c.code c.pid))

/-- What there is to an event that gives an answer. -/
def Ending.answer? : Ending → Option (Pid × Except Errno Waited)
  | exits _ => none
  | awaited c => some c.answer

namespace Schedule

theorem mem_children (h : Schedule children events) :
    (.exits c ∈ events → c ∈ children) ∧ (.awaited c ∈ events → c ∈ children) := by
  rw [h.once.mem_iff, h.once.mem_iff]
  simp

theorem nodup (h : Schedule children events) (hnodup : children.Nodup) : events.Nodup := by
  refine h.once.nodup_iff.2 (List.Nodup.append (hnodup.map ?_) (hnodup.map ?_) fun e he => ?_)
  · exact fun c d hcd => Ending.exits.inj hcd
  · exact fun c d hcd => Ending.awaited.inj hcd
  · obtain ⟨c, -, rfl⟩ := List.mem_map.1 he
    simp

/-- When a child is waited for, it has exited, and nobody has waited for it. -/
theorem awaited (h : Schedule children (done ++ .awaited c :: events)) (hnodup : children.Nodup) :
    c ∈ children ∧ .exits c ∈ done ∧ .awaited c ∉ done := by
  have hc : c ∈ children := h.mem_children.2 (by simp)
  have hnot : .awaited c ∉ done := fun hmem =>
    List.disjoint_of_nodup_append (h.nodup hnodup) hmem List.mem_cons_self
  refine ⟨hc, ?_, hnot⟩
  by_contra hexits
  have hfirst := h.exits_first c hc
  rw [List.idxOf_append_of_notMem hnot, List.idxOf_cons_self,
    List.idxOf_append_of_notMem hexits] at hfirst
  omega

/-- When a child exits, it has not exited before, and nobody has waited for it. -/
theorem exits (h : Schedule children (done ++ .exits c :: events)) (hnodup : children.Nodup) :
    c ∈ children ∧ .exits c ∉ done ∧ .awaited c ∉ done := by
  have hexits : .exits c ∉ done := fun hmem =>
    List.disjoint_of_nodup_append (h.nodup hnodup) hmem List.mem_cons_self
  refine ⟨h.mem_children.1 (by simp), hexits, fun hawaited => ?_⟩
  obtain ⟨before, after, rfl⟩ := List.append_of_mem hawaited
  rw [List.append_assoc, List.cons_append] at h
  exact hexits (List.mem_append_left _ (h.awaited hnodup).2.1)

theorem answers (h : Schedule children events) :
    (events.filterMap Ending.answer?).Perm (children.map Child.answer) := by
  have hexits : (children.map Ending.exits).filterMap Ending.answer? = [] := by
    rw [List.filterMap_map, List.filterMap_eq_nil_iff]
    exact fun _ _ => rfl
  have hawaited : (children.map Ending.awaited).filterMap Ending.answer? =
      children.map Child.answer := by
    rw [List.filterMap_map, ← List.filterMap_eq_map]
    rfl
  have hperm := h.once.filterMap Ending.answer?
  rwa [List.filterMap_append, hexits, hawaited, List.nil_append] at hperm

end Schedule

/-- The waits among the events that are left give what they should, whatever has happened before. -/
theorem Ended.endChildren (h : Ended children k₀ done k) (hyoung : Young k₀ p children)
    (hschedule : Schedule children (done ++ events)) (threads : Pid → Threads (W × Ledger)) :
    (k.endChildren S.audited threads p events).1 = events.filterMap Ending.answer? ∧
      Ended children k₀ (done ++ events) (k.endChildren S.audited threads p events).2 := by
  have hnodup : children.Nodup := .of_map _ hyoung.nodup
  induction events generalizing done k with
  | nil =>
    rw [List.append_nil]
    exact ⟨rfl, h⟩
  | cons e events ih =>
    cases e with
    | exits c =>
      obtain ⟨hc, hexits, hawaited⟩ := hschedule.exits hnodup
      rw [List.append_cons] at hschedule ⊢
      exact ih (h.exits hyoung hc hexits hawaited) hschedule
    | awaited c =>
      obtain ⟨hc, hexits, hawaited⟩ := hschedule.awaited hnodup
      obtain ⟨k', hwait, hended⟩ := h.awaited hyoung hc hexits hawaited (threads c.pid) (S := S)
      rw [List.append_cons] at hschedule ⊢
      obtain ⟨hanswers, hended'⟩ := ih hended hschedule
      rw [Kernel.endChildren, hwait]
      refine ⟨?_, hended'⟩
      dsimp only
      rw [hanswers]
      rfl

theorem Execution.young {config : Config} {world : W} {turns : List Turn}
    {s : System (W × Ledger)}
    (execution : Execution S.audited (System.empty config (world, [])) turns s)
    (h : s.kernel.Raises p children) : Young s.kernel p children := by
  obtain ⟨labels, horderly⟩ := execution.orderly
  have htable (c : Child) (hc : c ∈ children) : c.id < s.kernel.records.size ∧
      (s.kernel.process c.id).pid = c.pid :=
    horderly.sound.table c.pid c.id (h.finds c hc).found
  exact ⟨h, fun c hc => (htable c hc).1, fun c hc => (htable c hc).2, fun c hc =>
    ((horderly.stage c.id (htable c hc).1).of_running (h.running c hc)).1⟩

/-- In every state that can be reached, for any children of a process and any codes: two sequences
of an exit and a wait for each child, in which each exit comes before the wait, give the same code
and id for each child, and lead to states that are alike. -/
theorem children_end_in_any_order {config : Config} {world : W} {turns : List Turn}
    {s : System (W × Ledger)} {events' : List Ending}
    (execution : Execution S.audited (System.empty config (world, [])) turns s)
    (hraises : s.kernel.Raises p children) (hevents : Schedule children events)
    (hevents' : Schedule children events') (threads threads' : Pid → Threads (W × Ledger)) :
    let run := s.kernel.endChildren S.audited threads p events
    let run' := s.kernel.endChildren S.audited threads' p events'
    run.1.Perm (children.map Child.answer) ∧ run'.1.Perm (children.map Child.answer) ∧
      Alike run.2 run'.2 := by
  intro run run'
  have hyoung := execution.young hraises
  have hstart : Ended children s.kernel [] s.kernel := .nil execution.booked
  obtain ⟨hanswers, hended⟩ :=
    hstart.endChildren hyoung (show Schedule children ([] ++ events) from hevents) threads
  obtain ⟨hanswers', hended'⟩ :=
    hstart.endChildren hyoung (show Schedule children ([] ++ events') from hevents') threads'
  refine ⟨?_, ?_, hended.alike hended' fun e => ?_⟩
  · rw [hanswers]
    exact hevents.answers
  · rw [hanswers']
    exact hevents'.answers
  · exact (hevents.once.trans hevents'.once.symm).mem_iff

/-- The first process has forked twice. -/
def twoChildren : Kernel (Ram × Ledger) :=
  let begun := ((beginFork Ram.services.audited 0).result Syscall.forkedChild).2
  ((endFork Ram.services.audited (Syscall.forkedChild.process 0).pid 2 (.ok ())).result begun).2

theorem exists_execution_twoChildren : ∃ turns, Execution Ram.services.audited
    (System.empty { openMax := 4 } (smallWorld, [])) turns { kernel := twoChildren } := by
  obtain ⟨turns, hforked⟩ := Syscall.exists_execution_forkedChild
  have hbegun := hforked.step (.call (l := .forkBegun 0 2) trivial
    (@Step.forkBegun _ _ _ 0 2 _ (by decide +kernel)
      (Action.eq_ok_of_result (Action.result_eq_ok (by decide +kernel)))))
  have hforked' := hbegun.step
    (.call (by exact trivial) (Step.forked (List.mem_cons_self ..) rfl))
  rw [List.erase_cons_head] at hforked'
  exact ⟨_, hforked'⟩

/-- Both children exit before they are waited for, or the second one is gone before the first one
exits. -/
theorem children_end_in_any_order_two :
    let threads : Pid → Threads (Ram × Ledger) := fun _ => ⟨fun _ _ => pure (), []⟩
    let a : Child := ⟨1, 3, 5⟩
    let b : Child := ⟨2, 4, -1⟩
    let run := twoChildren.endChildren Ram.services.audited threads 0
      [.exits a, .exits b, .awaited a, .awaited b]
    let run' := twoChildren.endChildren Ram.services.audited threads 0
      [.exits b, .awaited b, .exits a, .awaited a]
    run.1.Perm [(3, .ok (.reaped 5 3)), (4, .ok (.reaped (-1) 4))] ∧
      run'.1.Perm [(3, .ok (.reaped 5 3)), (4, .ok (.reaped (-1) 4))] ∧ Alike run.2 run'.2 := by
  intro threads a b run run'
  obtain ⟨turns, execution⟩ := exists_execution_twoChildren
  have hfinds : ∀ c ∈ [a, b], twoChildren.table.get? c.pid = some c.id ∧
      c.pid ≠ (twoChildren.process 0).pid ∧
        (twoChildren.process c.id).parent = some (twoChildren.process 0).pid := by decide +kernel
  have hraises : twoChildren.Raises 0 [a, b] := by
    refine ⟨by decide, fun c hc => ?_, by decide +kernel⟩
    obtain ⟨hfound, hother, hparent⟩ := hfinds c hc
    exact ⟨hfound, hother, hparent⟩
  have hevents : Schedule [a, b] [.exits a, .exits b, .awaited a, .awaited b] :=
    ⟨by decide +kernel, by decide +kernel⟩
  have hevents' : Schedule [a, b] [.exits b, .awaited b, .exits a, .awaited a] :=
    ⟨by decide +kernel, by decide +kernel⟩
  exact children_end_in_any_order execution hraises hevents hevents' threads threads

end UnixCore
