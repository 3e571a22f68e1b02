import UnixCore.Proofs.Kernel.Within

/-! A call as a whole is a run of the system: a fork with whatever its thread service does while it
starts the child, and a wait with whatever the others do while it yields. This holds of any step
relation that the steps of the calls belong to, whatever else it has and however it labels them. -/

namespace UnixCore

/-- A step of a call that is made in several steps. -/
def Label.OfCall : Label → Prop
  | worked | exited _ _ => False
  | _ => True

variable {W : Type} {S : Services W} {s : System W} {α : Type}
  {next : System W → α → System W → Prop} {f : Label → α}

/-! ### Forks -/

namespace Kernel

/-- The courses a fork can take, each with how it ends. What is done while the thread of the child
is started is one of the things that `reach` allows. -/
inductive Forking (S : Services W) (reach : Kernel W → Kernel W → Prop) (parent : ProcessId)
    (k : Kernel W) : EStateM.Result Errno (Kernel W) Pid → Prop
  | refused {e : Errno} {k' : Kernel W} : beginFork S parent k = .error e k' →
    Forking S reach parent k (.error e k')
  | begun {child : ProcessId} {k' k'' : Kernel W} {started : Except Errno Unit} :
    beginFork S parent k = .ok child k' → reach k' k'' →
    Forking S reach parent k (endFork S (k.process parent).pid child started k'')

theorem forking_fork {reach : Kernel W → Kernel W → Prop} {threads : Threads W}
    (hstart : ∀ child frame k, reach k ((threads.start child frame).result k).2)
    (parent : ProcessId) (frame : TrapFrame) (k : Kernel W) :
    Forking S reach parent k (fork S threads parent frame k) := by
  rw [fork, Action.get_bind]
  cases hbegun : beginFork S parent k with
  | error e k' =>
    rw [Action.bind_of_error hbegun]
    exact .refused hbegun
  | ok child k' =>
    rw [Action.bind_of_ok hbegun, Action.bind_of_ok Action.outcome_eq_ok]
    exact .begun hbegun (hstart child frame.forForkedChild k')

end Kernel

theorem ensures_fork_steps (hnext : ∀ {l s s'}, Step S s l s' → l.OfCall → next s (f l) s')
    {threads : Threads W} {parent : ProcessId} {frame : TrapFrame}
    (hparent : parent < s.kernel.records.size)
    (hstart : ∀ child frame k, Interlude next k ((threads.start child frame).result k).2) :
    (Kernel.fork S threads parent frame).Ensures s.kernel
      (fun pid k => ∃ labels child, (k.process child).pid = pid ∧
        Steps next s (labels ++ [f (.forked parent child)]) { s with kernel := k })
      fun e k => ∃ labels l, (l = .forkRefused parent e ∨ ∃ child, l = .forkFailed parent child) ∧
        Steps next s (labels ++ [f l]) { s with kernel := k } := by
  have hforking := Kernel.forking_fork (S := S) hstart parent frame s.kernel
  unfold Action.Ensures
  generalize Kernel.fork S threads parent frame s.kernel = r at hforking
  cases hforking with
  | refused hrefused =>
    exact ⟨[], _, .inl rfl, Steps.start.step (hnext (.forkRefused hparent hrefused) trivial)⟩
  | @begun child k' k'' started hbegun hreach =>
    have hbegan := Steps.start.step (hnext (.forkBegun hparent hbegun) trivial)
    obtain ⟨labels, hsteps⟩ := hreach _ _
    have hstarted := hbegan.trans hsteps
    cases started with
    | ok _ =>
      have hforked := hstarted.step (hnext (.forked (List.mem_cons_self ..) rfl) trivial)
      rw [List.erase_cons_head] at hforked
      exact ⟨_, child, rfl, hforked⟩
    | error e =>
      have hend : Kernel.endFork S (s.kernel.process parent).pid child (.error e) k'' =
          .error e _ := rfl
      have hfailed := hstarted.step (hnext (.forkFailed (List.mem_cons_self ..) hend) trivial)
      rw [List.erase_cons_head] at hfailed
      exact ⟨_, _, .inr ⟨child, rfl⟩, hfailed⟩

/-! ### Waits -/

/-- Whatever the script of an await does is done, up to the state in which it took what it waited
for, if it did. -/
theorem await_cases {σ : Type} {take : σ → Option σ} (reach : σ → σ → Prop)
    (hrefl : ∀ t, reach t t) (htrans : ∀ {t u v}, reach t u → reach u v → reach t v)
    {script : List (σ → σ)} (hscript : ∀ act ∈ script, ∀ t, reach t (act t)) (t : σ) :
    (∃ n u v, await take script t = (some n, v) ∧ reach t u ∧ take u = some v) ∨
      ∃ u, await take script t = (none, u) ∧ reach t u := by
  induction script generalizing t with
  | nil =>
    cases htake : take t with
    | none => exact .inr ⟨t, by simp only [await, htake], hrefl t⟩
    | some v => exact .inl ⟨0, t, v, by simp only [await, htake], hrefl t, htake⟩
  | cons act script ih =>
    cases htake : take t with
    | some v => exact .inl ⟨0, t, v, by simp only [await, htake], hrefl t, htake⟩
    | none =>
      have hact := hscript act List.mem_cons_self t
      rcases ih (fun act hmem => hscript act (List.mem_cons_of_mem _ hmem)) (act t) with
        ⟨n, u, v, hawait, hreach, hu⟩ | ⟨u, hawait, hreach⟩
      · refine .inl ⟨n + 1, u, v, ?_, htrans hact hreach, hu⟩
        simp only [await, htake, hawait, Option.map_some]
      · refine .inr ⟨u, ?_, htrans hact hreach⟩
        simp only [await, htake, hawait, Option.map_none]

namespace Kernel

variable {k : Kernel W} {a : ProcessId} {signal : Semaphore}

theorem awaitExit_of_tryDown (h : (k.process a).exitSignal.tryDown = some signal)
    (yields : List (Kernel W → Kernel W)) :
    awaitExit a yields k = (some 0, k.putSignal a signal) := by
  rw [awaitExit, Semaphore.down]
  simp only [h, Option.map_some]
  rfl

/-- A wait that finds no unit is among those that wait for one until it takes it. -/
theorem awaitExit_of_await {yields : List (Kernel W → Kernel W)} {r : Option Nat} {k' : Kernel W}
    (h : (k.process a).exitSignal.tryDown = none)
    (hawait : await (fun k => (k.process a).exitSignal.tryDown.map fun signal =>
      k.putSignal a signal) yields (k.enterWait a) = (r, k')) :
    awaitExit a yields k =
      (r, r.elim k' fun _ => k'.putSignal a (k'.process a).exitSignal.leave) := by
  simp only [enterWait, putSignal] at hawait
  rw [awaitExit, Semaphore.down]
  simp only [h, Option.map_none, hawait]
  cases r <;> rfl

theorem lt_of_tryDown (h : (k.process a).exitSignal.tryDown = some signal) :
    a < k.records.size := by
  apply Nat.lt_of_not_le
  intro hle
  rw [process, Array.getElem?_eq_none hle] at h
  cases h

theorem putSignal_leave (h : (k.process a).exitSignal.tryDown = some signal) :
    (k.putSignal a signal).putSignal a ((k.putSignal a signal).process a).exitSignal.leave =
      k.putSignal a signal.leave := by
  have hself : ((k.putSignal a signal).process a).exitSignal = signal :=
    congrArg Process.exitSignal (process_modifyProcess_self _ (lt_of_tryDown h))
  rw [hself]
  have hrecords : (k.putSignal a signal).records.modify a ({ · with exitSignal := signal.leave }) =
      k.records.modify a ({ · with exitSignal := signal.leave }) := by
    apply Array.ext (by simp [putSignal, modifyProcess])
    intro i hi hi'
    simp only [putSignal, modifyProcess, Array.getElem_modify]
    split <;> rfl
  simp only [putSignal, modifyProcess] at hrecords ⊢
  rw [hrecords]

/-- The courses a wait can take, each with how it ends. What the others do while it yields is one of
the things that `reach` allows. -/
inductive Waiting (S : Services W) (reach : Kernel W → Kernel W → Prop) (caller : ProcessId)
    (pid : Pid) (options : Int32) (k : Kernel W) : EStateM.Result Errno (Kernel W) Waited → Prop
  | refused {e : Errno} {k' : Kernel W} : beginWait caller pid options k = .error e k' →
    Waiting S reach caller pid options k (.error e k')
  | met {child : ProcessId} {signal : Semaphore} : beginWait caller pid options k = .ok child k →
    (k.process child).exitSignal.tryDown = some signal →
    Waiting S reach caller pid options k
      (endWait S (k.process caller).pid pid child (k.putSignal child signal))
  | blocked {child : ProcessId} {u : Kernel W} : beginWait caller pid options k = .ok child k →
    (k.process child).exitSignal.tryDown = none → reach (k.enterWait child) u →
    Waiting S reach caller pid options k (.ok .blocked u)
  | woken {child : ProcessId} {u : Kernel W} {signal : Semaphore} :
    beginWait caller pid options k = .ok child k →
    (k.process child).exitSignal.tryDown = none → reach (k.enterWait child) u →
    (u.process child).exitSignal.tryDown = some signal →
    Waiting S reach caller pid options k
      (endWait S (k.process caller).pid pid child (u.putSignal child signal.leave))

theorem waiting_wait {reach : Kernel W → Kernel W → Prop} (hrefl : ∀ k, reach k k)
    (htrans : ∀ {k k' k''}, reach k k' → reach k' k'' → reach k k'') {threads : Threads W}
    (hyields : ∀ act ∈ threads.yields, ∀ k, reach k (act k)) (caller : ProcessId) (pid : Pid)
    (options : Int32) (k : Kernel W) :
    Waiting S reach caller pid options k (wait S threads caller pid options k) := by
  rw [wait, Action.get_bind]
  cases hbegun : beginWait caller pid options k with
  | error e k' =>
    rw [Action.bind_of_error hbegun]
    exact .refused hbegun
  | ok child k' =>
    obtain ⟨rfl, -⟩ := ensures_beginWait.of_ok hbegun
    rw [Action.bind_of_ok hbegun, Action.modifyGet_bind]
    cases hdown : (k'.process child).exitSignal.tryDown with
    | some signal =>
      rw [awaitExit_of_tryDown hdown]
      exact .met hbegun hdown
    | none =>
      rcases await_cases reach hrefl htrans hyields (k'.enterWait child) with
        ⟨n, u, v, hawait, hreach, htake⟩ | ⟨u, hawait, hreach⟩
      · obtain ⟨signal, hsignal, rfl⟩ := Option.map_eq_some_iff.1 htake
        rw [awaitExit_of_await hdown hawait, Option.elim_some, putSignal_leave hsignal]
        exact .woken hbegun hdown hreach hsignal
      · rw [awaitExit_of_await hdown hawait]
        exact .blocked hbegun hdown hreach

/-- What has become of a kernel in which a wait began when the wait takes the exit signal: nothing
if the signal was there, and otherwise what the others did while the wait was blocked. -/
inductive Awaited (next : System W → α → System W → Prop) (k : Kernel W) : Kernel W → Prop
  | atOnce : Awaited next k k
  | blocked {child : ProcessId} {k' : Kernel W} :
    Interlude next (k.enterWait child) k' → Awaited next k k'

theorem ofCall_ofWait (caller child : ProcessId) (r : Except Errno Waited) :
    (Label.ofWait caller child r).OfCall := by
  rcases r with e | ⟨code, pid⟩ | _ <;> trivial

/-- A wait that is not refused and takes the exit signal of its child is a run that ends with a step
of its own, whether it was blocked before or not. -/
theorem Waiting.steps (hnext : ∀ {l s s'}, Step S s l s' → l.OfCall → next s (f l) s')
    {caller : ProcessId} {pid : Pid} {options : Int32}
    {r : EStateM.Result Errno (Kernel W) Waited} (hcaller : caller < s.kernel.records.size)
    (h : Waiting S (Interlude next) caller pid options s.kernel r) :
    (∃ e k, r = .error e k ∧ beginWait caller pid options s.kernel = .error e k) ∨
    (∃ k labels child, r = .ok .blocked k ∧ Steps next s labels { s with
      kernel := k
      waits := ⟨caller, (s.kernel.process caller).pid, pid, child⟩ :: s.waits }) ∨
    ∃ k₁ labels child signal, Awaited next s.kernel k₁ ∧ child < k₁.records.size ∧
      r = endWait S (s.kernel.process caller).pid pid child (k₁.putSignal child signal) ∧
      ∀ r k, (endWait S (s.kernel.process caller).pid pid child).result
        (k₁.putSignal child signal) = (r, k) →
          Steps next s (labels ++ [f (.ofWait caller child r)]) { s with kernel := k } := by
  cases h with
  | refused hrefused => exact .inl ⟨_, _, rfl, hrefused⟩
  | met hfound hdown =>
    refine .inr (.inr ⟨_, [], _, _, .atOnce, lt_of_tryDown hdown, rfl, fun r k hresult => ?_⟩)
    exact Steps.start.step (hnext (.waitMet hcaller hfound hdown hresult) (ofCall_ofWait _ _ _))
  | blocked hfound hdown hreach =>
    have hblocked := Steps.start.step (hnext (.waitBlocked hcaller hfound hdown) trivial)
    obtain ⟨labels, hsteps⟩ := hreach _ _
    exact .inr (.inl ⟨_, _, _, rfl, hblocked.trans hsteps⟩)
  | @woken child u signal hfound hdown hreach hsignal =>
    have hblocked := Steps.start.step (hnext (.waitBlocked hcaller hfound hdown) trivial)
    obtain ⟨labels, hsteps⟩ := hreach s.forks
      (⟨caller, (s.kernel.process caller).pid, pid, child⟩ :: s.waits)
    refine .inr (.inr ⟨u, [] ++ [f (.waitBlocked caller child)] ++ labels, child, signal.leave,
      .blocked hreach, lt_of_tryDown hsignal, rfl, fun r k hresult => ?_⟩)
    have hwoken := (hblocked.trans hsteps).step
      (hnext (.waitWoken (List.mem_cons_self ..) hsignal hresult) (ofCall_ofWait _ _ _))
    rw [List.erase_cons_head] at hwoken
    exact hwoken

end Kernel

theorem ensures_wait_steps (hnext : ∀ {l s s'}, Step S s l s' → l.OfCall → next s (f l) s')
    {threads : Threads W} {caller : ProcessId} {pid : Pid} {options : Int32}
    (hcaller : caller < s.kernel.records.size)
    (hyields : ∀ act ∈ threads.yields, ∀ k, Interlude next k (act k)) :
    (Kernel.wait S threads caller pid options).Ensures s.kernel
      (fun r k => match r with
        | .reaped code child => ∃ labels a,
          Steps next s (labels ++ [f (.collected caller a child code)]) { s with kernel := k }
        | .blocked => ∃ labels a, Steps next s labels { s with
            kernel := k
            waits := ⟨caller, (s.kernel.process caller).pid, pid, a⟩ :: s.waits })
      fun e k => ∃ labels,
        Steps next s (labels ++ [f (.waitFailed caller e)]) { s with kernel := k } := by
  have hwaiting := Kernel.waiting_wait (S := S) Interlude.refl Interlude.trans hyields caller pid
    options s.kernel
  unfold Action.Ensures
  generalize Kernel.wait S threads caller pid options s.kernel = r at hwaiting
  rcases hwaiting.steps hnext hcaller with ⟨e, k, rfl, hrefused⟩ | ⟨k, labels, child, rfl, hsteps⟩ |
    ⟨k₁, labels, child, signal, -, -, rfl, hsteps⟩
  · exact ⟨[], Steps.start.step (hnext (.waitRefused hcaller hrefused) trivial)⟩
  · exact ⟨labels, child, hsteps⟩
  · cases hend : Kernel.endWait S (s.kernel.process caller).pid pid child
      (k₁.putSignal child signal) with
    | ok r k =>
      obtain ⟨code, -, rfl, -⟩ := Kernel.ensures_endWait_eq.of_ok hend
      exact ⟨labels, child, hsteps (.ok (.reaped code pid)) k (by simp only [Action.result, hend])⟩
    | error e k => exact ⟨labels, hsteps (.error e) k (by simp only [Action.result, hend])⟩

end UnixCore
