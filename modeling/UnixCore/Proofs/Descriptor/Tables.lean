import UnixCore.Proofs.Descriptor.Refinement

/-! Sequences of requests on any number of descriptor tables over the same open files. A machine
with bitmaps answers every sequence as the machine with linear tables does, and leaves the same
slots. -/

namespace UnixCore

inductive TableCall
  | alloc (id : FileId)
  | get (fd : Nat)
  | take (fd : Nat)
  | install (fd : Nat) (id : FileId)
  | isOpen (fd : Nat)
  | clear
  | attachStreams
  | openPath (path : String) (raw : UInt32)
  | close (fd : Nat)
  | duplicate (old new : Nat)
  deriving DecidableEq

inductive TableAnswer
  | done
  | descriptor (fd : Nat)
  | file (id : FileId)
  | displaced (id : Option FileId)
  | truth (b : Bool)
  deriving DecidableEq

variable {W : Type}

def Descriptors.perform (S : Services W) : TableCall → Action (Descriptors W) TableAnswer
  | .alloc id => return .descriptor (← alloc S id)
  | .get fd => return .file (← lookup fd)
  | .take fd => return .file (← take fd)
  | .install fd id => return .displaced (← install S fd id)
  | .isOpen fd => return .truth ((← get).table.isOpen fd)
  | .clear => do modify (clear S); return .done
  | .attachStreams => do attachStreams S; return .done
  | .openPath path raw => return .descriptor (← openPath S path raw)
  | .close fd => do close S fd; return .done
  | .duplicate old new => return .descriptor (← duplicate S old new)

def LinearDescriptors.perform (S : Services W) :
    TableCall → Action (LinearDescriptors W) TableAnswer
  | .alloc id => return .descriptor (← alloc S id)
  | .get fd => return .file (← lookup fd)
  | .take fd => return .file (← take fd)
  | .install fd id => return .displaced (← install S fd id)
  | .isOpen fd => return .truth ((← get).table.isOpen fd)
  | .clear => do modify (clear S); return .done
  | .attachStreams => do attachStreams S; return .done
  | .openPath path raw => return .descriptor (← openPath S path raw)
  | .close fd => do close S fd; return .done
  | .duplicate old new => return .descriptor (← duplicate S old new)

/-- A request to a machine with any number of tables. A request to a table that does not exist does
nothing. -/
inductive TableRequest
  | new (capacity : Nat)
  | copy (t : Nat)
  | openFile (path : String) (flags : OpenFlags)
  | hold (id : FileId)
  | drop (id : FileId)
  | call (t : Nat) (c : TableCall)

structure Tables (T W : Type) where
  tables : Array T := #[]
  shared : Shared W

/-- How tables of a kind are made, what they hold, and what a call does to one. -/
structure TableKind (T W : Type) where
  empty : Nat → T
  held : T → List FileId
  perform : TableCall → T → Shared W → Except Errno TableAnswer × T × Shared W

def bitmapTables (S : Services W) : TableKind DescriptorTable W where
  empty := DescriptorTable.empty
  held := DescriptorTable.held
  perform c table shared :=
    let (r, d) := (Descriptors.perform S c).result ⟨table, shared⟩
    (r, d.table, d.shared)

def linearTables (S : Services W) : TableKind LinearTable W where
  empty := LinearTable.empty
  held := LinearTable.held
  perform c table shared :=
    let (r, d) := (LinearDescriptors.perform S c).result ⟨table, shared⟩
    (r, d.table, d.shared)

namespace Tables

variable {T : Type}

def request (S : Services W) (K : TableKind T W) (m : Tables T W) :
    TableRequest → Except Errno TableAnswer × Tables T W
  | .new capacity => (.ok .done, { m with tables := m.tables.push (K.empty capacity) })
  | .copy t =>
    match m.tables[t]? with
    | some table => (.ok .done,
        ⟨m.tables.push table, m.shared.retainFiles (K.held table)⟩)
    | none => (.ok .done, m)
  | .openFile path flags =>
    let (r, shared) := (Shared.openFile S path flags).result m.shared
    (r.map .file, { m with shared })
  | .hold id => (.ok .done, { m with shared := m.shared.retainFiles [id] })
  | .drop id => (.ok .done, { m with shared := m.shared.dropFile S id })
  | .call t c =>
    match m.tables[t]? with
    | some table =>
      let (r, table, shared) := K.perform c table m.shared
      (r, ⟨m.tables.setIfInBounds t table, shared⟩)
    | none => (.ok .done, m)

def run (S : Services W) (K : TableKind T W) :
    List TableRequest → Tables T W → List (Except Errno TableAnswer) × Tables T W
  | [], m => ([], m)
  | r :: rs, m =>
    let (answer, m) := m.request S K r
    let (answers, m) := run S K rs m
    (answer :: answers, m)

def linear (m : Tables DescriptorTable W) : Tables LinearTable W :=
  ⟨m.tables.map (·.linear), m.shared⟩

def Exact (m : Tables DescriptorTable W) : Prop := ∀ t ∈ m.tables, t.Exact

end Tables

/-! ### Refinement -/

namespace Descriptors

theorem refines_perform (S : Services W) (c : TableCall) :
    Refines (perform S c) (LinearDescriptors.perform S c) := by
  cases c with
  | alloc id => exact (refines_alloc S id).bind fun _ => refines_pure _
  | get fd => exact (refines_lookup fd).bind fun _ => refines_pure _
  | take fd => exact (refines_take fd).bind fun _ => refines_pure _
  | install fd id => exact (refines_install S fd id).bind fun _ => refines_pure _
  | isOpen fd => exact refines_get fun d hd => refines_pure _ d hd
  | clear => exact (refines_clear S).bind fun _ => refines_pure _
  | attachStreams => exact (refines_attachStreams S).bind fun _ => refines_pure _
  | openPath path raw => exact (refines_openPath S path raw).bind fun _ => refines_pure _
  | close fd => exact (refines_close S fd).bind fun _ => refines_pure _
  | duplicate old new => exact (refines_duplicate S old new).bind fun _ => refines_pure _

end Descriptors

theorem bitmapTables_perform (S : Services W) (c : TableCall) {t : DescriptorTable}
    (ht : t.Exact) (sh : Shared W) :
    ((bitmapTables S).perform c t sh).2.1.Exact ∧
      (linearTables S).perform c t.linear sh =
        (((bitmapTables S).perform c t sh).1, ((bitmapTables S).perform c t sh).2.1.linear,
          ((bitmapTables S).perform c t sh).2.2) := by
  have h := Action.ensures_iff.1 (Descriptors.refines_perform S c ⟨t, sh⟩ ht)
  simp only [bitmapTables, linearTables, Action.result]
  cases hrun : Descriptors.perform S c ⟨t, sh⟩ with
  | ok a d =>
    obtain ⟨hexact, href⟩ := h.1 a d hrun
    refine ⟨hexact, ?_⟩
    rw [show LinearDescriptors.mk t.linear sh = Descriptors.linear ⟨t, sh⟩ from rfl, href]
    rfl
  | error e d =>
    obtain ⟨hexact, href⟩ := h.2 e d hrun
    refine ⟨hexact, ?_⟩
    rw [show LinearDescriptors.mk t.linear sh = Descriptors.linear ⟨t, sh⟩ from rfl, href]
    rfl

namespace Tables

variable {S : Services W}

theorem linear_getElem? (m : Tables DescriptorTable W) (t : Nat) :
    m.linear.tables[t]? = m.tables[t]?.map (·.linear) := by
  simp [linear]

theorem Exact.push {m : Tables DescriptorTable W} (hm : m.Exact) {t : DescriptorTable}
    (ht : t.Exact) (sh : Shared W) : Exact ⟨m.tables.push t, sh⟩ := by
  intro u hu
  rcases Array.mem_push.1 hu with hu | rfl
  · exact hm u hu
  · exact ht

theorem Exact.set {m : Tables DescriptorTable W} (hm : m.Exact) {t : DescriptorTable}
    (ht : t.Exact) (i : Nat) (sh : Shared W) : Exact ⟨m.tables.setIfInBounds i t, sh⟩ := by
  intro u hu
  rcases Array.mem_or_eq_of_mem_setIfInBounds hu with hu | rfl
  · exact hm u hu
  · exact ht

theorem request_call {T : Type} (K : TableKind T W) {m : Tables T W} {t : Nat} {table : T}
    (h : m.tables[t]? = some table) (c : TableCall) :
    m.request S K (.call t c) =
      ((K.perform c table m.shared).1,
        ⟨m.tables.setIfInBounds t (K.perform c table m.shared).2.1,
          (K.perform c table m.shared).2.2⟩) := by
  rw [request, h]

/-- One request to exact tables is answered as the linear tables answer it. -/
theorem request_linear {m : Tables DescriptorTable W} (hm : m.Exact) (r : TableRequest) :
    (m.request S (bitmapTables S) r).2.Exact ∧
      m.linear.request S (linearTables S) r =
        ((m.request S (bitmapTables S) r).1, (m.request S (bitmapTables S) r).2.linear) := by
  cases r with
  | new capacity =>
    refine ⟨hm.push (DescriptorTable.exact_empty capacity) m.shared, ?_⟩
    simp [request, linear, bitmapTables, linearTables]
  | copy t =>
    simp only [request, linear_getElem?]
    cases ht : m.tables[t]? with
    | none => exact ⟨hm, rfl⟩
    | some table =>
      refine ⟨hm.push (hm table (Array.mem_of_getElem? ht)) _, ?_⟩
      simp [linear, bitmapTables, linearTables]
  | openFile path flags => exact ⟨hm, rfl⟩
  | hold id => exact ⟨hm, rfl⟩
  | drop id => exact ⟨hm, rfl⟩
  | call t c =>
    cases ht : m.tables[t]? with
    | none =>
      simp only [request, linear_getElem?, ht]
      exact ⟨hm, rfl⟩
    | some table =>
      obtain ⟨hexact, href⟩ :=
        bitmapTables_perform S c (hm table (Array.mem_of_getElem? ht)) m.shared
      have hlinear : m.linear.tables[t]? = some table.linear := by rw [linear_getElem?, ht]; rfl
      rw [request_call _ ht, request_call _ hlinear, show m.linear.shared = m.shared from rfl, href]
      exact ⟨hm.set hexact t _, by simp [linear]⟩

/-- A run from exact tables keeps them exact and is the run of the linear tables. -/
theorem run_linear {m : Tables DescriptorTable W} (hm : m.Exact) (rs : List TableRequest) :
    (run S (bitmapTables S) rs m).2.Exact ∧
      run S (linearTables S) rs m.linear =
        ((run S (bitmapTables S) rs m).1, (run S (bitmapTables S) rs m).2.linear) := by
  induction rs generalizing m with
  | nil => exact ⟨hm, rfl⟩
  | cons r rs ih =>
    obtain ⟨hexact, href⟩ := request_linear (S := S) hm r
    obtain ⟨hlast, hrun⟩ := ih hexact
    refine ⟨hlast, ?_⟩
    simp only [run, href, hrun]

end Tables

end UnixCore
