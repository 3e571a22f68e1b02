import UnixCore.Proofs.System.Execution

/-! What the operations do to what all processes share: one after the other, calls of the services
and single changes of an open file, of a directory or of the log. Which paths an operation opens,
with which flags, and which files it moves is its scope. -/

namespace UnixCore

/-- The paths that may be opened, and the files whose cursors may be moved. -/
structure Scope where
  opens : String → OpenFlags → Prop
  moves : FileId → Prop

namespace Scope

def nothing : Scope := ⟨fun _ _ => False, fun _ => False⟩

end Scope

variable {W α : Type} {S : Services W}

section Touches

variable {scope : Scope}

/-- One call of the services other than a transfer. -/
inductive Services.Called (S : Services W) (scope : Scope) (w : W) : W → Prop
  | openPath {path : String} {flags : OpenFlags} {r : Except Errno Vnode} {w' : W} :
    scope.opens path flags → (S.openPath path flags).result w = (r, w') → Called S scope w w'
  | release (v : Vnode) : Called S scope w (S.release v w)
  | createSpace {r : Except Errno AddressSpace} {w' : W} : S.createSpace.result w = (r, w') →
    Called S scope w w'
  | duplicateSpace {space : AddressSpace} {r : Except Errno AddressSpace} {w' : W} :
    (S.duplicateSpace space).result w = (r, w') → Called S scope w w'
  | activate (space : AddressSpace) : Called S scope w (S.activate space w)
  | defineStack {space space' : AddressSpace} {r : Except Errno UserAddr} {w' : W} :
    S.defineStack.result (space, w) = (r, space', w') → Called S scope w w'
  | destroySpace (space : AddressSpace) : Called S scope w (S.destroySpace space w)
  | load {v : Vnode} {space space' : AddressSpace} {r : Except Errno UserAddr} {w' : W} :
    (S.load v).result (space, w) = (r, space', w') → Called S scope w w'

/-- One change of what is shared. -/
inductive Shared.Touch (S : Services W) (scope : Scope) (sh : Shared W) : Shared W → Prop
  | openFile {path : String} {flags : OpenFlags} {r : Except Errno Nat} {sh' : Shared W} :
    scope.opens path flags → (openFile S path flags).result sh = (r, sh') → Touch S scope sh sh'
  | read {id count : Nat} {r : Except Errno (List UInt8)} {sh' : Shared W} : scope.moves id →
    (read S id count).result sh = (r, sh') → Touch S scope sh sh'
  | write {id : Nat} {bytes : List UInt8} {r : Except Errno UInt64} {sh' : Shared W} :
    scope.moves id → (write S id bytes).result sh = (r, sh') → Touch S scope sh sh'
  | seek {id : Nat} {pos : Int64} {whence : Whence} {r : Except Errno UInt64} {sh' : Shared W} :
    scope.moves id → (seek S id pos whence).result sh = (r, sh') → Touch S scope sh sh'
  | retainFile (id : Nat) : Touch S scope sh { sh with files := sh.files.retain id }
  | dropFile (id : Nat) : Touch S scope sh (sh.dropFile S id)
  | insertDirectory (v : Vnode) :
    Touch S scope sh { sh with directories := sh.directories.insert v }
  | retainDirectory (id : Nat) :
    Touch S scope sh { sh with directories := sh.directories.retain id }
  | dropDirectory (id : Nat) : Touch S scope sh (sh.dropDirectory S id)
  | report (e : Event) : Touch S scope sh (sh.report e)
  | called {w : W} : S.Called scope sh.world w → Touch S scope sh { sh with world := w }

abbrev Shared.Touches (S : Services W) (scope : Scope) : Shared W → Shared W → Prop :=
  Relation.ReflTransGen (Touch S scope)

/-- A computation on the world that is one call of the services. -/
def Services.IsCall (S : Services W) (scope : Scope) (act : Action W α) : Prop :=
  ∀ w, act.Ensures w (fun _ w' => S.Called scope w w') fun _ w' => S.Called scope w w'

namespace Services

theorem isCall_of_result {act : Action W α}
    (h : ∀ w r w', act.result w = (r, w') → S.Called scope w w') : S.IsCall scope act :=
  fun w => Action.ensures_result.mono (fun _ _ hr => h w _ _ hr) fun _ _ hr => h w _ _ hr

theorem isCall_openPath {path : String} {flags : OpenFlags} (h : scope.opens path flags) :
    S.IsCall scope (S.openPath path flags) :=
  isCall_of_result fun _ _ _ hr => .openPath h hr

theorem isCall_createSpace : S.IsCall scope S.createSpace :=
  isCall_of_result fun _ _ _ hr => .createSpace hr

theorem isCall_duplicateSpace (space : AddressSpace) :
    S.IsCall scope (S.duplicateSpace space) :=
  isCall_of_result fun _ _ _ hr => .duplicateSpace hr

end Services

open Action

namespace Shared

theorem touches_called {sh : Shared W} {w : W}
    (h : Relation.ReflTransGen (S.Called scope) sh.world w) :
    Touches S scope sh { sh with world := w } := by
  induction h with
  | refl => exact .refl
  | @tail w w' _ hcall ih => exact ih.tail (Touch.called hcall)

theorem touches_dropFiles (ids : List FileId) (sh : Shared W) :
    Touches S scope sh (ids.foldl (fun sh id => sh.dropFile S id) sh) := by
  induction ids generalizing sh with
  | nil => exact .refl
  | cons id ids ih => exact .head (.dropFile id) (ih _)

theorem touches_retainFiles (ids : List FileId) (sh : Shared W) :
    Touches S scope sh (sh.retainFiles ids) := by
  induction ids generalizing sh with
  | nil => exact .refl
  | cons id ids ih => exact .head (.retainFile id) (ih { sh with files := sh.files.retain id })

theorem ensures_touch {act : Action (Shared W) α} {sh : Shared W}
    (h : ∀ r sh', act.result sh = (r, sh') → Touch S scope sh sh') :
    act.Ensures sh (fun _ sh' => Touches S scope sh sh') fun _ sh' => Touches S scope sh sh' :=
  ensures_result.mono (fun _ _ hr => .single (h _ _ hr)) fun _ _ hr => .single (h _ _ hr)

end Shared

/-! ### Descriptors -/

namespace Descriptors

theorem along_onShared {act : Action (Shared W) α} (h : act.Along id (Shared.Touch S scope)) :
    (onShared act).Along shared (Shared.Touch S scope) :=
  fun d => ensures_onShared.2 (h d.shared)

theorem along_openFile {path : String} {flags : OpenFlags} (h : scope.opens path flags) :
    (onShared (Shared.openFile S path flags)).Along shared (Shared.Touch S scope) :=
  along_onShared fun _ => Shared.ensures_touch fun _ _ hr => .openFile h hr

theorem along_report (e : Event) : (report e).Along shared (Shared.Touch S scope) :=
  along_modify fun _ => .single (.report e)

theorem along_drop (id : FileId) : (drop S id).Along shared (Shared.Touch S scope) :=
  along_modify fun _ => .single (.dropFile id)

theorem along_retain (id : FileId) : (retain id).Along shared (Shared.Touch S scope) :=
  along_modify fun _ => .single (.retainFile id)

theorem along_lookup (fd : Nat) : (lookup fd).Along shared (Shared.Touch S scope) :=
  fun _ => ensures_lookup.2 ⟨fun _ _ => .refl, fun _ => .refl⟩

theorem along_alloc (id : FileId) : (alloc S id).Along shared (Shared.Touch S scope) :=
  fun _ => ensures_alloc.2 ⟨fun _ _ _ => .refl, fun _ => .single (.dropFile id)⟩

theorem along_install (fd : Nat) (id : FileId) :
    (install S fd id).Along shared (Shared.Touch S scope) :=
  fun _ => ensures_install.2 ⟨fun _ _ _ => .refl, fun _ => .single (.dropFile id)⟩

theorem along_take (fd : Nat) : (take fd).Along shared (Shared.Touch S scope) :=
  fun _ => ensures_take.2 ⟨fun _ _ _ => .refl, fun _ => .refl⟩

theorem along_dropDisplaced (displaced : Option FileId) :
    Along shared (Shared.Touch S scope)
      (match displaced with
        | some id => drop S id
        | none => pure () : Action (Descriptors W) Unit) := by
  cases displaced with
  | some id => exact along_drop id
  | none => exact along_pure _

theorem along_attachStream {fd : Nat} {flags : OpenFlags} (h : scope.opens consolePath flags) :
    (attachStream S fd flags).Along shared (Shared.Touch S scope) := by
  refine (along_openFile h).bind fun id => (along_install fd id).bind fun displaced => ?_
  exact along_dropDisplaced displaced

theorem along_attachStreams (hin : scope.opens consolePath .rdonly)
    (hout : scope.opens consolePath .wronly) :
    (attachStreams S).Along shared (Shared.Touch S scope) :=
  (along_attachStream hin).bind fun _ => (along_attachStream hout).bind fun _ =>
    (along_attachStream hout).bind fun _ => along_report _

theorem along_openPath {path : String} {raw : UInt32}
    (h : ∀ flags, OpenFlags.parse raw = .ok flags → scope.opens path flags) :
    (openPath S path raw).Along shared (Shared.Touch S scope) := by
  intro d
  rw [openPath, ensures_bind]
  refine ensures_ofExcept.2 ⟨fun flags hflags => ?_, fun _ _ => .refl⟩
  refine ((along_openFile (h flags hflags)).bind fun id => ?_) d
  exact (along_alloc id).bind fun fd => (along_report _).bind fun _ => along_pure fd

theorem along_close (fd : Nat) : (close S fd).Along shared (Shared.Touch S scope) := by
  refine (along_take fd).bind fun id => along_get.bind fun _ => ?_
  exact (along_report _).bind fun _ => along_drop id

theorem along_duplicate (old new : Nat) :
    (duplicate S old new).Along shared (Shared.Touch S scope) := by
  apply along_get.bind
  intro d
  split
  case isTrue => exact along_throw _
  case isFalse =>
    apply (along_lookup old).bind
    intro id
    split
    case isTrue => exact along_pure new
    case isFalse =>
      refine (along_retain id).bind fun _ => (along_install new id).bind fun displaced => ?_
      cases displaced with
      | some id => exact (along_drop id).bind fun _ => (along_report _).bind fun _ => along_pure new
      | none => exact (along_report _).bind fun _ => along_pure new

theorem along_clear : (modify (clear S) : Action (Descriptors W) PUnit).Along shared
    (Shared.Touch S scope) :=
  along_modify fun d => Shared.touches_dropFiles d.table.held d.shared

variable {d : Descriptors W} {fd : Nat}

/-- A computation on the file of a descriptor, and what comes after it. -/
theorem ensures_lookup_bind {act : FileId → Action (Descriptors W) α}
    (h : ∀ id, d.table.get? fd = some id → (act id).Ensures d
      (fun _ d' => Shared.Touches S scope d.shared d'.shared)
      fun _ d' => Shared.Touches S scope d.shared d'.shared) :
    (lookup fd >>= act).Ensures d (fun _ d' => Shared.Touches S scope d.shared d'.shared)
      fun _ d' => Shared.Touches S scope d.shared d'.shared := by
  rw [ensures_bind, ensures_lookup]
  exact ⟨h, fun _ => .refl⟩

theorem ensures_read_touches (count : Nat)
    (h : ∀ id, d.table.get? fd = some id → scope.moves id) :
    (read S fd count).Ensures d (fun _ d' => Shared.Touches S scope d.shared d'.shared)
      fun _ d' => Shared.Touches S scope d.shared d'.shared := by
  apply ensures_lookup_bind
  intro id hid
  rw [ensures_bind, ensures_onShared]
  refine (Shared.ensures_touch fun _ _ hr => .read (h id hid) hr).mono (fun bytes sh hsh => ?_)
    fun _ _ hsh => hsh
  exact hsh.tail (.report _)

theorem ensures_write_touches (bytes : List UInt8)
    (h : ∀ id, d.table.get? fd = some id → scope.moves id) :
    (write S fd bytes).Ensures d (fun _ d' => Shared.Touches S scope d.shared d'.shared)
      fun _ d' => Shared.Touches S scope d.shared d'.shared := by
  apply ensures_lookup_bind
  intro id hid
  rw [ensures_bind, ensures_onShared]
  refine (Shared.ensures_touch fun _ _ hr => .write (h id hid) hr).mono (fun count sh hsh => ?_)
    fun _ _ hsh => hsh
  exact hsh.tail (.report _)

theorem ensures_seek_touches (pos : Int64) (whence : Int32)
    (h : ∀ id, d.table.get? fd = some id → scope.moves id) :
    (seek S fd pos whence).Ensures d (fun _ d' => Shared.Touches S scope d.shared d'.shared)
      fun _ d' => Shared.Touches S scope d.shared d'.shared := by
  apply ensures_lookup_bind
  intro id hid
  rw [ensures_bind]
  refine ensures_ofExcept.2 ⟨fun whence _ => ?_, fun _ _ => .refl⟩
  exact ensures_onShared.2 (Shared.ensures_touch fun _ _ hr => .seek (h id hid) hr)

end Descriptors

/-! ### Processes -/

namespace Kernel

variable {k : Kernel W} {p : ProcessId}

theorem ensures_onDescriptors_touches {act : Action (Descriptors W) α}
    (h : act.Ensures ⟨(k.process p).descriptors, k.shared⟩
      (fun _ d => Shared.Touches S scope k.shared d.shared)
      fun _ d => Shared.Touches S scope k.shared d.shared) :
    (onDescriptors p act).Ensures k (fun _ k' => Shared.Touches S scope k.shared k'.shared)
      fun _ k' => Shared.Touches S scope k.shared k'.shared := by
  rw [onDescriptors, ensures_onPart]
  exact h

theorem along_onDescriptors {act : Action (Descriptors W) α}
    (h : act.Along Descriptors.shared (Shared.Touch S scope)) :
    (onDescriptors p act).Along shared (Shared.Touch S scope) :=
  fun _ => ensures_onDescriptors_touches (h _)

theorem along_onWorld {act : Action W α} (h : S.IsCall scope act) :
    (onWorld act).Along shared (Shared.Touch S scope) := by
  intro k
  rw [ensures_onWorld]
  exact (h _).mono (fun _ _ hw => .single (.called hw)) fun _ _ hw => .single (.called hw)

theorem along_onSpace {act : Action (AddressSpace × W) α}
    (h : act.Along Prod.snd (S.Called scope)) :
    (onSpace p act).Along shared (Shared.Touch S scope) := by
  intro k
  cases hspace : (k.process p).space with
  | none =>
    have hrun : onSpace p act k = (throw .badAddress : Action (Kernel W) α) k := by
      unfold onSpace
      rw [hspace]
      rfl
    exact (ensures_congr hrun).2 .refl
  | some space =>
    rw [ensures_onSpace hspace]
    exact (h (space, k.shared.world)).mono (fun _ _ hs => Shared.touches_called hs)
      fun _ _ hs => Shared.touches_called hs

theorem along_create (name : String) :
    (create name).Along shared (Shared.Touch (W := W) S scope) :=
  fun _ => ensures_create.2 ⟨fun _ _ _ => .single (.report _), fun _ _ => .refl⟩

theorem along_log (e : Event) :
    (modify (report e) : Action (Kernel W) PUnit).Along shared (Shared.Touch S scope) :=
  along_modify fun _ => .single (.report e)

theorem along_change {f : Kernel W → Kernel W}
    (h : ∀ k, Shared.Touches S scope k.shared (f k).shared) :
    (modify f : Action (Kernel W) PUnit).Along shared (Shared.Touch S scope) :=
  along_modify h

theorem along_modifyProcess (f : Process → Process) :
    (modify (modifyProcess p f) : Action (Kernel W) PUnit).Along shared (Shared.Touch S scope) :=
  along_modify fun _ => .refl

theorem touches_destroySpace (space : Option AddressSpace) :
    Shared.Touches S scope k.shared (destroySpace S space k).shared := by
  cases space with
  | none => exact .refl
  | some space => exact .single (.called (.destroySpace space))

theorem touches_dropDirectory (directory : Option Nat) :
    Shared.Touches S scope k.shared (dropDirectory S directory k).shared := by
  cases directory with
  | none => exact .refl
  | some id => exact .single (.dropDirectory id)

theorem touches_retainDirectory (directory : Option Nat) :
    Shared.Touches S scope k.shared (retainDirectory directory k).shared := by
  cases directory with
  | none => exact .refl
  | some id => exact .single (.retainDirectory id)

theorem touches_setSpace (space : Option AddressSpace) :
    Shared.Touches S scope k.shared (setSpace S p space k).shared :=
  touches_destroySpace (k := modifyProcess p ({ · with space }) k) (k.process p).space

theorem touches_setDirectory (vnode : Option Vnode) :
    Shared.Touches S scope k.shared (setDirectory S p vnode k).shared := by
  unfold setDirectory
  cases vnode with
  | none =>
    exact touches_dropDirectory (k := modifyProcess p ({ · with directory := none }) k) _
  | some vnode =>
    dsimp only
    refine .head (.insertDirectory vnode) ?_
    exact touches_dropDirectory (k := modifyProcess p
      ({ · with directory := some k.shared.directories.next })
      { k with shared.directories := k.shared.directories.insert vnode }) _

theorem touches_shareDirectory (other : ProcessId) :
    Shared.Touches S scope k.shared (shareDirectory S p other k).shared :=
  (touches_retainDirectory (k.process other).directory).trans
    (touches_dropDirectory (k := modifyProcess p
      ({ · with directory := (k.process other).directory })
      (retainDirectory (k.process other).directory k)) _)

theorem touches_reap : Shared.Touches S scope k.shared (reap S p k).shared := by
  rw [reap_eq]
  refine (Shared.touches_dropFiles (k.process p).descriptors.held k.shared).trans ?_
  refine (touches_destroySpace (k := { modifyProcess p (Process.reaped (k.cleared S p).table) k with
    shared := (k.cleared S p).shared }) (k.process p).space).trans ?_
  exact touches_dropDirectory _

theorem touches_discard : Shared.Touches S scope k.shared (discard S p k).shared :=
  touches_reap (k := k.unregister (k.process p).pid)

theorem along_buildImage (image : Vnode) (args : ArgVector) :
    (buildImage S image args).Along Prod.snd (S.Called scope) := by
  have hload : (S.load image).Along Prod.snd (S.Called scope) := fun s =>
    ensures_result.mono (fun _ _ hr => .single (.load hr)) fun _ _ hr => .single (.load hr)
  have hstack : S.defineStack.Along Prod.snd (S.Called scope) := fun s =>
    ensures_result.mono (fun _ _ hr => .single (.defineStack hr))
      fun _ _ hr => .single (.defineStack hr)
  refine (along_modify fun s => .single (.activate s.1)).bind fun _ => ?_
  refine hload.bind fun entry => hstack.bind fun top => Along.bind ?_ fun layout => along_pure _
  exact fun s => ensures_onPart.2 (ensures_true.mono (fun _ _ _ => .refl) fun _ _ _ => .refl)

theorem along_exec {path : String} (args : ArgVector) (h : scope.opens path .rdonly) :
    (exec S p path args).Along shared (Shared.Touch S scope) := by
  apply along_get.bind
  intro k
  split
  case isTrue => exact along_throw _
  case isFalse =>
    apply (along_onWorld (Services.isCall_openPath h)).bind
    intro image
    have hrelease : (modify (modifyWorld (S.release image)) : Action (Kernel W) PUnit).Along shared
        (Shared.Touch S scope) :=
      along_modify fun k => .single (Shared.Touch.called (.release image))
    apply (along_onWorld Services.isCall_createSpace).outcome.bind
    intro made
    cases made with
    | error e => exact hrelease.bind fun _ => along_throw e
    | ok space =>
      refine (along_change fun _ => touches_setSpace (some space)).bind fun _ => ?_
      refine (along_onSpace (along_buildImage image args)).outcome.bind fun built => ?_
      refine hrelease.bind fun _ => along_get.bind fun k => ?_
      cases built with
      | ok entry => exact (along_log _).bind fun _ => along_pure entry
      | error e => exact (along_log _).bind fun _ => along_throw e

theorem along_spawnInitial {path : String} (args : List String)
    (himage : scope.opens path .rdonly) (hin : scope.opens consolePath .rdonly)
    (hout : scope.opens consolePath .wronly) :
    (spawnInitial S path args).Along shared (Shared.Touch S scope) := by
  apply along_get.bind
  intro k
  dsimp only
  split
  case isTrue => exact along_throw _
  case isFalse =>
    refine (along_ofExcept _).bind fun args => (along_create path).bind fun p => ?_
    refine Along.bind (Along.outcome ?_) fun started => ?_
    · exact (along_onDescriptors (Descriptors.along_attachStreams hin hout)).bind
        fun _ => along_exec args himage
    · cases started with
      | ok entry =>
        refine (along_modifyProcess _).bind fun _ => Along.bind ?_ fun _ => along_pure _
        exact along_modify fun _ => .single (.report _)
      | error e => exact (along_change fun _ => touches_discard).bind fun _ => along_throw e

theorem along_copyIntoChild (parent child : ProcessId) :
    (copyIntoChild S parent child).Along shared (Shared.Touch S scope) := by
  apply along_get.bind
  intro k
  refine Along.bind ?_ fun space => along_modify fun k' => ?_
  · cases (k.process parent).space with
    | none => exact along_pure _
    | some space => exact (along_onWorld (Services.isCall_duplicateSpace space)).map _
  · refine (Shared.touches_retainFiles (k.process parent).descriptors.held k'.shared).trans ?_
    exact touches_retainDirectory (k := { modifyProcess child _ k' with
      shared := k'.shared.retainFiles (k.process parent).descriptors.held }) _

theorem along_rejectChild (parent : Pid) (child : ProcessId) (e : Errno) :
    (rejectChild S parent child e : Action (Kernel W) α).Along shared (Shared.Touch S scope) :=
  (along_log _).bind fun _ => (along_change fun _ => touches_discard).bind fun _ => along_throw e

theorem along_beginFork (parent : ProcessId) :
    (beginFork S parent).Along shared (Shared.Touch S scope) := by
  apply along_get.bind
  intro k
  apply (along_create _).bind
  intro child
  apply (along_copyIntoChild parent child).outcome.bind
  intro copied
  cases copied with
  | ok _ => exact (along_modifyProcess _).bind fun _ => along_pure child
  | error e => exact along_rejectChild _ child e

theorem along_endFork (parent : Pid) (child : ProcessId) (started : Except Errno Unit) :
    (endFork S parent child started).Along shared (Shared.Touch S scope) := by
  cases started with
  | ok _ =>
    refine along_get.bind fun k => (along_log _).bind fun _ => along_pure _
  | error e => exact (along_modifyProcess _).bind fun _ => along_rejectChild parent child e

theorem along_endWait (caller pid : Pid) (child : ProcessId) :
    (endWait S caller pid child).Along shared (Shared.Touch S scope) := by
  apply along_get.bind
  intro k
  cases (k.process child).exitCode with
  | none => exact along_throw _
  | some code =>
    refine Along.bind ?_ fun _ => (along_log _).bind fun _ => along_pure _
    exact along_modify fun k => touches_reap (k := k.unregister pid)

theorem touches_exit (code : Int32) :
    Shared.Touches S scope k.shared (k.exit p code).shared := by
  rcases exit_cases p code k with ⟨-, heq⟩ | ⟨-, -, heq⟩ | ⟨-, -, heq⟩
  · rw [heq]
    exact .single (.report _)
  · rw [heq]
  · rw [heq]
    exact .single (.report _)

theorem touches_enterWait (child : ProcessId) :
    Shared.Touches S scope k.shared (k.enterWait child).shared := by
  unfold enterWait
  dsimp only
  split
  · exact .single (.report _)
  · exact .refl

end Kernel

end Touches

/-! ### Turns -/

namespace Operation

/-- The paths that an operation opens, and with which flags. -/
inductive Opens : Operation → String → OpenFlags → Prop
  | program {path : String} {args : List String} :
    Opens (.spawnInitial path args) path .rdonly
  | input {path : String} {args : List String} :
    Opens (.spawnInitial path args) consolePath .rdonly
  | output {path : String} {args : List String} :
    Opens (.spawnInitial path args) consolePath .wronly
  | image {p : ProcessId} {path : String} {args : ArgVector} :
    Opens (.exec p path args) path .rdonly
  | file {p : ProcessId} {path : String} {raw : UInt32} {flags : OpenFlags} :
    OpenFlags.parse raw = .ok flags → Opens (.descriptors p (.openPath path raw)) path flags
  | directory {p : ProcessId} {path : String} {flags : OpenFlags} :
    Opens (.enterDirectory p path flags) path flags

/-- The file that an operation reads, writes or seeks in. -/
inductive Moves (k : Kernel W) : Operation → FileId → Prop
  | read {p : ProcessId} {fd count : Nat} {id : FileId} :
    (k.process p).descriptors.get? fd = some id → Moves k (.descriptors p (.read fd count)) id
  | write {p : ProcessId} {fd : Nat} {bytes : List UInt8} {id : FileId} :
    (k.process p).descriptors.get? fd = some id → Moves k (.descriptors p (.write fd bytes)) id
  | seek {p : ProcessId} {fd : Nat} {pos : Int64} {whence : Int32} {id : FileId} :
    (k.process p).descriptors.get? fd = some id →
    Moves k (.descriptors p (.seek fd pos whence)) id

def scope (op : Operation) (k : Kernel W) : Scope := ⟨op.Opens, op.Moves k⟩

theorem ensures_touches (op : Operation) (k : Kernel W) :
    (op.action S).Ensures k (fun _ k' => Shared.Touches S (op.scope k) k.shared k'.shared)
      fun _ k' => Shared.Touches S (op.scope k) k.shared k'.shared := by
  cases op with
  | spawnInitial path args =>
    exact (Kernel.along_spawnInitial args Opens.program Opens.input Opens.output).map _ k
  | exec p path args => exact (Kernel.along_exec args Opens.image).map _ k
  | exit p code => exact Kernel.touches_exit code
  | descriptors p call =>
    apply Kernel.ensures_onDescriptors_touches
    cases call with
    | openPath path raw => exact (Descriptors.along_openPath fun _ => Opens.file).map _ _
    | read fd count =>
      exact Action.ensures_map.2 (Descriptors.ensures_read_touches count fun _ => Moves.read)
    | write fd bytes =>
      exact Action.ensures_map.2 (Descriptors.ensures_write_touches bytes fun _ => Moves.write)
    | seek fd pos whence =>
      exact Action.ensures_map.2 (Descriptors.ensures_seek_touches pos whence fun _ => Moves.seek)
    | close fd => exact Descriptors.along_close fd _
    | duplicate old new => exact (Descriptors.along_duplicate old new).map _ _
  | enterDirectory p path flags =>
    have hopen : S.IsCall (scope (.enterDirectory p path flags) k) (S.openPath path flags) :=
      Services.isCall_openPath Opens.directory
    refine ((Kernel.along_onWorld hopen).bind fun vnode => ?_) k
    exact Kernel.along_change fun _ => Kernel.touches_setDirectory (some vnode)
  | leaveDirectory p => exact Kernel.touches_setDirectory none
  | shareDirectory p other => exact Kernel.touches_shareDirectory other
  | abandon p =>
    refine ((Kernel.along_change fun _ => Kernel.touches_setSpace none).bind fun _ => ?_) k
    refine (Kernel.along_change fun _ => Kernel.touches_setDirectory none).bind fun _ => ?_
    exact Kernel.along_onDescriptors Descriptors.along_clear

end Operation

/-- Where a step of a call happens, no path is opened and no cursor is moved. -/
theorem Step.touches {s s' : System W} {l : Label} (hl : l.OfCall) (hstep : Step S s l s') :
    Shared.Touches S .nothing s.kernel.shared s'.kernel.shared := by
  cases hstep with
  | @operate op => cases op <;> exact hl.elim
  | forkRefused _ hrun => exact (Kernel.along_beginFork _ _).of_error hrun
  | forkBegun _ hrun => exact (Kernel.along_beginFork _ _).of_ok hrun
  | forked _ hrun => exact (Kernel.along_endFork _ _ _ _).of_ok hrun
  | forkFailed _ hrun => exact (Kernel.along_endFork _ _ _ _).of_error hrun
  | waitRefused _ hrun =>
    obtain ⟨-, rfl⟩ := Kernel.ensures_beginWait.of_error hrun
    exact .refl
  | waitBlocked _ hrun =>
    obtain ⟨rfl, -⟩ := Kernel.ensures_beginWait.of_ok hrun
    exact Kernel.touches_enterWait _
  | waitMet _ hrun _ hend =>
    obtain ⟨rfl, -⟩ := Kernel.ensures_beginWait.of_ok hrun
    exact (Kernel.along_endWait _ _ _ _).result
      (P := fun k => Shared.Touches S .nothing s.kernel.shared k.shared) hend
  | waitWoken _ _ hend =>
    exact (Kernel.along_endWait _ _ _ _).result
      (P := fun k => Shared.Touches S .nothing s.kernel.shared k.shared) hend

def Turn.scope (k : Kernel W) : Turn → Scope
  | .operation op _ => op.scope k
  | .call _ | .store _ | .report _ => .nothing

/-- What a turn does to what is shared stays within its scope. -/
theorem Takes.touches {s s' : System W} {t : Turn} (h : Takes S s t s') :
    Shared.Touches S (t.scope s.kernel) s.kernel.shared s'.kernel.shared := by
  cases h with
  | @operate op r k _ hresult => exact (op.ensures_touches s.kernel).result hresult
  | call hl hstep => exact hstep.touches hl
  | store memory => exact .refl
  | report e => exact .single (.report e)

end UnixCore
