import UnixCore.Proofs.Bootstrap.Streams
import UnixCore.Proofs.Exec.Atomic

/-! The stages at which the start of the first program can fail: before there is a process, while
its streams are attached, while its address space is made, and while its program is loaded. -/

namespace UnixCore.Kernel

variable {W α : Type} {S : Services W} {k : Kernel W} {p : ProcessId} {path : String}
  {args : List String} {v : ArgVector} {pid : Pid} {table : ProcessTable ProcessId}
  {d : Descriptors W} {e : Errno}

/-! ### The new process -/

/-- The arguments are in order and there is an id for the process. -/
structure Begun (path : String) (args : List String) (k : Kernel W) (v : ArgVector) (pid : Pid)
    (table : ProcessTable ProcessId) : Prop where
  short : path.utf8ByteSize < k.config.pathMax
  arguments : ArgVector.ofStrings args k.config.argMax = .ok v
  create : (k.table.create fun _ => k.records.size) = .ok (pid, table)

/-- What the new process has of files, and what it shares with the others, when it is made. -/
def blankDescriptors (k : Kernel W) (pid : Pid) (path : String) : Descriptors W :=
  ⟨.empty k.config.openMax, k.shared.report (.processCreated pid path)⟩

/-- The kernel with one more record, of a process that has `d`. -/
def withStreams (k : Kernel W) (pid : Pid) (path : String) (table : ProcessTable ProcessId)
    (d : Descriptors W) : Kernel W :=
  { k with
    table
    records := k.records.push
      { Process.fresh pid path k.config.openMax with descriptors := d.table }
    shared := d.shared }

theorem process_withStreams_self : (k.withStreams pid path table d).process k.records.size =
    { Process.fresh pid path k.config.openMax with descriptors := d.table } := by
  simp [process, withStreams]

theorem size_withStreams :
    (k.withStreams pid path table d).records.size = k.records.size + 1 :=
  Array.size_push _

theorem made_withStreams (h : (k.table.create fun _ => k.records.size) = .ok (pid, table)) :
    Made pid none 0 k (k.withStreams pid path table d) := by
  refine ⟨h, size_withStreams, fun q hq => ?_, ?_, ?_⟩
  · simp [process, withStreams, Array.getElem?_push, Nat.ne_of_lt hq]
  · rw [process_withStreams_self]
    rfl
  · rw [process_withStreams_self]
    rfl

theorem ensures_onDescriptors_created {act : Action (Descriptors W) α}
    {ok : α → Kernel W → Prop} {error : Errno → Kernel W → Prop} :
    (onDescriptors k.records.size act).Ensures (k.created pid path table) ok error ↔
      act.Ensures (k.blankDescriptors pid path)
        (fun a d => ok a (k.withStreams pid path table d))
        fun e d => error e (k.withStreams pid path table d) := by
  have hpart : (⟨((k.created pid path table).process k.records.size).descriptors,
      (k.created pid path table).shared⟩ : Descriptors W) = k.blankDescriptors pid path := by
    rw [process_created_self]
    rfl
  have hput (d : Descriptors W) :
      { modifyProcess k.records.size ({ · with descriptors := d.table })
          (k.created pid path table) with shared := d.shared } =
        k.withStreams pid path table d := by
    simp only [modifyProcess, created, report, modify_push]
    rfl
  rw [onDescriptors, Action.ensures_onPart, hpart]
  simp only [hput]

/-- The kernel when a thread of the new process runs. -/
def started (k : Kernel W) (p : ProcessId) (path : String) : Kernel W :=
  let k := modifyProcess p Process.attachThread k
  report (.programStarted (k.process p).pid path) k

/-- From the making of the process on, every failure leads to the same clean-up. -/
theorem Begun.ensures_spawnInitial (h : Begun path args k v pid table)
    {ok : ProcessId × UserEntry → Kernel W → Prop} {error : Errno → Kernel W → Prop} :
    (spawnInitial S path args).Ensures k ok error ↔
      (Descriptors.attachStreams S).Ensures (k.blankDescriptors pid path)
        (fun _ d => (exec S k.records.size path v).Ensures (k.withStreams pid path table d)
          (fun entry k' => ok (k.records.size, entry) (k'.started k.records.size path))
          fun e k' => error e (discard S k.records.size k'))
        fun e d => error e (discard S k.records.size (k.withStreams pid path table d)) := by
  have hcreate : Kernel.create path k = .ok k.records.size (k.created pid path table) := by
    rw [Kernel.create, h.create]
    rfl
  rw [spawnInitial, Action.ensures_bind, Action.ensures_get]
  dsimp only
  rw [if_neg (Nat.not_le_of_lt h.short), Action.ensures_bind, h.arguments,
    Action.ensures_of_ok (Action.ofExcept_ok _ _), Action.ensures_bind,
    Action.ensures_of_ok hcreate, Action.ensures_bind, Action.ensures_outcome,
    Action.ensures_bind, ensures_onDescriptors_created]
  rfl

/-! ### The image -/

/-- Why no image is built: the program is not loaded, it gets no stack, or its arguments do not go
on the stack. -/
inductive ImageFailure (S : Services W) (image : Vnode) (v : ArgVector) (s : AddressSpace × W) :
    Errno → Prop
  | unloaded {e : Errno} {s' : AddressSpace × W} :
    S.load image (s.1, S.activate s.1 s.2) = .error e s' → ImageFailure S image v s e
  | noStack {entry : UserAddr} {e : Errno} {s' s'' : AddressSpace × W} :
    S.load image (s.1, S.activate s.1 s.2) = .ok entry s' → S.defineStack s' = .error e s'' →
    ImageFailure S image v s e
  | unmarshalled {entry top : UserAddr} {e : Errno} {s' s'' : AddressSpace × W}
    {space : AddressSpace} :
    S.load image (s.1, S.activate s.1 s.2) = .ok entry s' → S.defineStack s' = .ok top s'' →
    v.marshal top s''.1 = .error e space → ImageFailure S image v s e

theorem imageFailure_iff {image : Vnode} {s : AddressSpace × W} :
    ImageFailure S image v s e ↔ ∃ s', buildImage S image v s = .error e s' := by
  constructor
  · intro hfails
    suffices hrun : (buildImage S image v).Ensures s (fun _ _ => False) fun e' _ => e' = e by
      obtain ⟨_, s', hbuilt, rfl⟩ := hrun.exists_error
      exact ⟨s', hbuilt⟩
    simp only [buildImage, Action.ensures_bind, Action.ensures_modify]
    cases hfails with
    | unloaded hload => exact (Action.ensures_of_error hload).2 rfl
    | noStack hload hstack =>
      exact (Action.ensures_of_ok hload).2 ((Action.ensures_of_error hstack).2 rfl)
    | unmarshalled hload hstack hmarshal =>
      refine (Action.ensures_of_ok hload).2 ((Action.ensures_of_ok hstack).2 ?_)
      exact Action.ensures_onPart.2 ((Action.ensures_of_error hmarshal).2 rfl)
  · rintro ⟨s', hbuilt⟩
    suffices hrun : (buildImage S image v).Ensures s (fun _ _ => True)
        fun e _ => ImageFailure S image v s e from hrun.of_error hbuilt
    simp only [buildImage, Action.ensures_bind, Action.ensures_modify]
    refine Action.ensures_iff.2 ⟨fun entry s₁ hload => ?_, fun e s₁ hload => .unloaded hload⟩
    refine Action.ensures_iff.2 ⟨fun top s₂ hstack => ?_, fun e s₂ hstack => .noStack hload hstack⟩
    refine Action.ensures_onPart.2 (Action.ensures_iff.2 ⟨fun _ _ _ => trivial, ?_⟩)
    exact fun e space hmarshal => .unmarshalled hload hstack hmarshal

/-! ### The start as a whole -/

/-- The streams of the new process are attached. -/
def withConsole (k : Kernel W) (pid : Pid) (path : String) (table : ProcessTable ProcessId)
    (d : Descriptors W) : Kernel W :=
  k.withStreams pid path table { d with shared := d.shared.report .streamsAttached }

/-- Why the first program is not started: its path is too long, its arguments are not in order,
there is no room or no id for a process, the console cannot be opened for all streams, there is no
new address space, or no image of the program is built in it. -/
inductive SpawnFailure (S : Services W) (path : String) (args : List String) (k : Kernel W) :
    Errno → Prop
  | tooLong : k.config.pathMax ≤ path.utf8ByteSize → SpawnFailure S path args k .nameTooLong
  | arguments {e : Errno} : path.utf8ByteSize < k.config.pathMax →
    ArgVector.ofStrings args k.config.argMax = .error e → SpawnFailure S path args k e
  | full {v : ArgVector} : path.utf8ByteSize < k.config.pathMax →
    ArgVector.ofStrings args k.config.argMax = .ok v →
    (k.table.create fun _ => k.records.size) = .error .tooManyProcesses →
    SpawnFailure S path args k .tooManyProcesses
  | unattached {v : ArgVector} {pid : Pid} {table : ProcessTable ProcessId} {e : Errno} :
    Begun path args k v pid table →
    Descriptors.AttachFailure S Descriptors.standardStreams (k.blankDescriptors pid path) e →
    SpawnFailure S path args k e
  | refused {v : ArgVector} {pid : Pid} {table : ProcessTable ProcessId} {d : Descriptors W}
    {e : Errno} {w : W} : Begun path args k v pid table →
    Descriptors.Attaches S Descriptors.standardStreams (k.blankDescriptors pid path) d →
    Refuses S path (k.withConsole pid path table d) e w → SpawnFailure S path args k e
  | unbuilt {v : ArgVector} {pid : Pid} {table : ProcessTable ProcessId} {d : Descriptors W}
    {image : Vnode} {space : AddressSpace} {w : W} {e : Errno} : Begun path args k v pid table →
    Descriptors.Attaches S Descriptors.standardStreams (k.blankDescriptors pid path) d →
    Swaps S path (k.withConsole pid path table d) image space w →
    ImageFailure S image v (space, w) e → SpawnFailure S path args k e

theorem spawnInitial_of_tooLong (hlong : k.config.pathMax ≤ path.utf8ByteSize) :
    spawnInitial S path args k = .error .nameTooLong k := by
  rw [spawnInitial, Action.get_bind, if_pos hlong]
  rfl

theorem spawnInitial_of_arguments (hshort : path.utf8ByteSize < k.config.pathMax)
    (hargs : ArgVector.ofStrings args k.config.argMax = .error e) :
    spawnInitial S path args k = .error e k := by
  rw [spawnInitial, Action.get_bind, if_neg (Nat.not_le_of_lt hshort), hargs,
    Action.bind_of_error (Action.ofExcept_error _ _)]

theorem spawnInitial_of_full (hshort : path.utf8ByteSize < k.config.pathMax)
    (hargs : ArgVector.ofStrings args k.config.argMax = .ok v)
    (hcreate : (k.table.create fun _ => k.records.size) = .error e) :
    spawnInitial S path args k = .error e k := by
  have hrefused : Kernel.create path k = .error e k := by rw [Kernel.create, hcreate]
  rw [spawnInitial, Action.get_bind, if_neg (Nat.not_le_of_lt hshort), hargs,
    Action.bind_of_ok (Action.ofExcept_ok _ _), Action.bind_of_error hrefused]

/-- Before there is a process a failure changes nothing at all. -/
theorem begun_or_fails (S : Services W) (path : String) (args : List String) (k : Kernel W) :
    (∃ v pid table, Begun path args k v pid table) ∨
      ∃ e, SpawnFailure S path args k e ∧ spawnInitial S path args k = .error e k := by
  rcases Nat.lt_or_ge path.utf8ByteSize k.config.pathMax with hshort | hlong
  · cases hargs : ArgVector.ofStrings args k.config.argMax with
    | error e => exact .inr ⟨e, .arguments hshort hargs, spawnInitial_of_arguments hshort hargs⟩
    | ok v =>
      cases hcreate : k.table.create fun _ => k.records.size with
      | error e =>
        obtain ⟨rfl, -⟩ := ProcessTable.create_eq_error_iff.1 hcreate
        exact .inr ⟨_, .full hshort hargs hcreate, spawnInitial_of_full hshort hargs hcreate⟩
      | ok made => exact .inl ⟨v, made.1, made.2, hshort, hargs, hcreate⟩
  · exact .inr ⟨_, .tooLong hlong, spawnInitial_of_tooLong hlong⟩

section Begun

variable (h : Begun path args k v pid table)
include h

theorem Begun.spawnInitial_of_failure
    (hfails : Descriptors.AttachFailure S Descriptors.standardStreams
      (k.blankDescriptors pid path) e) :
    ∃ k', spawnInitial S path args k = .error e k' := by
  obtain ⟨d, hattach⟩ := Descriptors.attachStreams_of_failure hfails
  have hrun : (spawnInitial S path args).Ensures k (fun _ _ => False) fun e' _ => e' = e :=
    h.ensures_spawnInitial.2 ((Action.ensures_of_error hattach).2 rfl)
  obtain ⟨_, k', hspawn, rfl⟩ := hrun.exists_error
  exact ⟨k', hspawn⟩

theorem Begun.ensures_spawnInitial_of_attaches
    (hattaches : Descriptors.Attaches S Descriptors.standardStreams
      (k.blankDescriptors pid path) d)
    {ok : ProcessId × UserEntry → Kernel W → Prop} {error : Errno → Kernel W → Prop} :
    (spawnInitial S path args).Ensures k ok error ↔
      (exec S k.records.size path v).Ensures (k.withConsole pid path table d)
        (fun entry k' => ok (k.records.size, entry) (k'.started k.records.size path))
        fun e k' => error e (discard S k.records.size k') := by
  rw [h.ensures_spawnInitial]
  exact Action.ensures_of_ok (Descriptors.attachStreams_of_attaches hattaches)

theorem Begun.spawnInitial_of_refused {w : W}
    (hattaches : Descriptors.Attaches S Descriptors.standardStreams
      (k.blankDescriptors pid path) d)
    (hrefuses : Refuses S path (k.withConsole pid path table d) e w) :
    ∃ k', spawnInitial S path args k = .error e k' := by
  have hrun : (spawnInitial S path args).Ensures k (fun _ _ => False) fun e' _ => e' = e :=
    (h.ensures_spawnInitial_of_attaches hattaches).2
      ((Action.ensures_of_error (exec_of_refuses hrefuses)).2 rfl)
  obtain ⟨_, k', hspawn, rfl⟩ := hrun.exists_error
  exact ⟨k', hspawn⟩

/-- From the swap on the start ends as the building of the image does. -/
theorem Begun.ensures_spawnInitial_of_swaps {image : Vnode} {space : AddressSpace} {w : W}
    (hattaches : Descriptors.Attaches S Descriptors.standardStreams
      (k.blankDescriptors pid path) d)
    (hswaps : Swaps S path (k.withConsole pid path table d) image space w) :
    (spawnInitial S path args).Ensures k
      (fun _ _ => ∃ entry s, buildImage S image v (space, w) = .ok entry s)
      fun e _ => ∃ s, buildImage S image v (space, w) = .error e s := by
  rw [h.ensures_spawnInitial_of_attaches hattaches]
  have hlt : k.records.size < (k.withConsole pid path table d).records.size :=
    Nat.lt_of_lt_of_eq (Nat.lt_succ_self _) size_withStreams.symm
  have hspace : ((k.withConsole pid path table d).process k.records.size).space = none :=
    congrArg Process.space process_withStreams_self
  have hrun := result_exec_of_swaps v hlt hswaps
  rw [hspace] at hrun
  change (exec S k.records.size path v).result (k.withConsole pid path table d) =
    (((buildImage S image v).result (space, w)).1, _) at hrun
  refine (Action.result_eq_iff.1 hrun).mono (fun entry _ hok => ?_) fun e _ herror => ?_
  · cases hbuilt : buildImage S image v (space, w) with
    | ok entry s => exact ⟨entry, s, rfl⟩
    | error e s => simp [Action.result_of_error hbuilt] at hok
  · cases hbuilt : buildImage S image v (space, w) with
    | ok entry s => simp [Action.result_of_ok hbuilt] at herror
    | error e' s =>
      have heq : e = e' := by simpa [Action.result_of_error hbuilt] using herror.1
      exact ⟨s, heq ▸ rfl⟩

end Begun

theorem spawnFailure_iff :
    SpawnFailure S path args k e ↔ ∃ k', spawnInitial S path args k = .error e k' := by
  constructor
  · intro hfails
    cases hfails with
    | tooLong hlong => exact ⟨k, spawnInitial_of_tooLong hlong⟩
    | arguments hshort hargs => exact ⟨k, spawnInitial_of_arguments hshort hargs⟩
    | full hshort hargs hcreate => exact ⟨k, spawnInitial_of_full hshort hargs hcreate⟩
    | unattached hbegun hfails => exact hbegun.spawnInitial_of_failure hfails
    | refused hbegun hattaches hrefuses => exact hbegun.spawnInitial_of_refused hattaches hrefuses
    | unbuilt hbegun hattaches hswaps hfails =>
      obtain ⟨s, hbuilt⟩ := imageFailure_iff.1 hfails
      have hends := hbegun.ensures_spawnInitial_of_swaps hattaches hswaps
      cases hrun : spawnInitial S path args k with
      | ok r k' =>
        obtain ⟨entry, s', hok⟩ := hends.of_ok hrun
        cases hbuilt.symm.trans hok
      | error e' k' =>
        obtain ⟨s', herror⟩ := hends.of_error hrun
        cases hbuilt.symm.trans herror
        exact ⟨k', rfl⟩
  · rintro ⟨k', hrun⟩
    rcases begun_or_fails S path args k with ⟨v, pid, table, hbegun⟩ | ⟨e', hfails, hrun'⟩
    · rcases Descriptors.attaches_or_fails S Descriptors.standardStreams
        (k.blankDescriptors pid path) with ⟨d, hattaches⟩ | ⟨e', hfails⟩
      · rcases refuses_or_swaps S path (k.withConsole pid path table d) with
          ⟨e', w, hrefuses⟩ | ⟨image, space, w, hswaps⟩
        · obtain ⟨k'', hrun'⟩ := hbegun.spawnInitial_of_refused hattaches hrefuses
          cases hrun.symm.trans hrun'
          exact .refused hbegun hattaches hrefuses
        · have hends := (hbegun.ensures_spawnInitial_of_swaps hattaches hswaps).of_error hrun
          exact .unbuilt hbegun hattaches hswaps (imageFailure_iff.2 hends)
      · obtain ⟨k'', hrun'⟩ := hbegun.spawnInitial_of_failure hfails
        cases hrun.symm.trans hrun'
        exact .unattached hbegun hfails
    · cases hrun.symm.trans hrun'
      exact hfails

end UnixCore.Kernel
