import UnixCore.Proofs.Descriptor.Effects
import UnixCore.Proofs.Descriptor.Tables

/-! The laws of descriptor tables in terms of their slots, and the main result: on every sequence of
requests the machine with bitmaps is the machine with linear tables, and the laws hold of each of
its tables. -/

namespace UnixCore

variable {W : Type} {S : Services W}

namespace DescriptorTable

def IsEmptyAt (t : DescriptorTable) (fd : Nat) : Prop := fd < t.capacity ∧ t.get? fd = none

/-- A new file goes to the least empty slot above the standard streams and no other slot changes;
without such a slot there is no new table. -/
theorem Exact.alloc_cases {t : DescriptorTable} (ht : t.Exact) (id : FileId) :
    (∃ fd t', t.alloc id = some (fd, t') ∧ IsLeastFrom firstUserDescriptor t.IsEmptyAt fd ∧
        ∀ i, t'.get? i = if i = fd then some id else t.get? i) ∨
      (t.alloc id = none ∧ ∀ fd, firstUserDescriptor ≤ fd → ¬ t.IsEmptyAt fd) := by
  cases hscan : t.lowestFree firstUserDescriptor with
  | some fd =>
    have hleast := ht.lowestFree_eq_some_iff.1 hscan
    refine .inl ⟨fd, _, by rw [DescriptorTable.alloc, hscan]; rfl, hleast, fun i => ?_⟩
    exact get?_setIfInBounds t.slots _ _ hleast.2.1.1 i
  | none =>
    refine .inr ⟨by rw [DescriptorTable.alloc, hscan]; rfl, fun fd hfd hempty => ?_⟩
    exact ht.lowestFree_eq_none_iff.1 hscan fd hfd hempty.1 hempty.2

/-- What a caller sees of a table, in terms of its slots. -/
structure Lawful (S : Services W) (t : DescriptorTable) : Prop where
  /-- The bit of a slot is set while there is such a slot and it is empty. -/
  bits : ∀ fd, t.isFree fd = true ↔ t.IsEmptyAt fd
  words : ∀ fd < t.capacity, fd / slotsPerWord < t.free.size
  scan : ∀ start fd, t.lowestFree start = some fd → fd < t.slots.size
  alloc : ∀ (id : FileId) (sh : Shared W),
    (∃ fd t', Descriptors.alloc S id ⟨t, sh⟩ = .ok fd ⟨t', sh⟩ ∧
        IsLeastFrom firstUserDescriptor t.IsEmptyAt fd ∧
        ∀ i, t'.get? i = if i = fd then some id else t.get? i) ∨
      (Descriptors.alloc S id ⟨t, sh⟩ = .error .tooManyOpenFiles ⟨t, sh.dropFile S id⟩ ∧
        ∀ fd, firstUserDescriptor ≤ fd → ¬ t.IsEmptyAt fd)
  /-- The new descriptor refers to the file of the old one and no other slot changes. -/
  duplicate : ∀ (old new : Nat) (id : FileId) (sh : Shared W), old ≠ new → t.get? old = some id →
    new < t.capacity → ∃ t' sh', Descriptors.duplicate S old new ⟨t, sh⟩ = .ok new ⟨t', sh'⟩ ∧
      ∀ i, t'.get? i = if i = new then some id else t.get? i
  duplicate_self : ∀ (fd : Nat) (id : FileId) (sh : Shared W), t.get? fd = some id →
    Descriptors.duplicate S fd fd ⟨t, sh⟩ = .ok fd ⟨t, sh⟩
  /-- A call that fails leaves the table as it was. -/
  failure : ∀ (c : TableCall) (sh : Shared W) (e : Errno) (d : Descriptors W),
    c ≠ .attachStreams → Descriptors.perform S c ⟨t, sh⟩ = .error e d → d.table = t
  /-- Streams that fail to open leave the slots from the failing one on as they were. -/
  streams : ∀ (sh : Shared W) (e : Errno) (d : Descriptors W),
    Descriptors.attachStreams S ⟨t, sh⟩ = .error e d →
      ∃ k < firstUserDescriptor, ∀ fd, k ≤ fd → d.table.get? fd = t.get? fd

end DescriptorTable

namespace Descriptors

theorem alloc_cases (S : Services W) {t : DescriptorTable} (ht : t.Exact) (id : FileId)
    (sh : Shared W) :
    (∃ fd t', alloc S id ⟨t, sh⟩ = .ok fd ⟨t', sh⟩ ∧
        DescriptorTable.IsLeastFrom firstUserDescriptor t.IsEmptyAt fd ∧
        ∀ i, t'.get? i = if i = fd then some id else t.get? i) ∨
      (alloc S id ⟨t, sh⟩ = .error .tooManyOpenFiles ⟨t, sh.dropFile S id⟩ ∧
        ∀ fd, firstUserDescriptor ≤ fd → ¬ t.IsEmptyAt fd) := by
  rcases ht.alloc_cases id with ⟨fd, t', halloc, hleast, hget⟩ | ⟨halloc, hfull⟩
  · refine .inl ⟨fd, t', Action.eq_ok_iff.2 (ensures_alloc.2 ⟨?_, ?_⟩), hleast, hget⟩
    · intro fd' t'' h
      obtain ⟨rfl, rfl⟩ := Prod.mk.inj (Option.some.inj (halloc.symm.trans h))
      exact ⟨rfl, rfl⟩
    · intro h
      rw [halloc] at h
      cases h
  · refine .inr ⟨Action.eq_error_iff.2 (ensures_alloc.2 ⟨?_, ?_⟩), hfull⟩
    · intro fd' t'' h
      rw [halloc] at h
      cases h
    · exact fun _ => ⟨rfl, rfl⟩

theorem duplicate_ne (S : Services W) {t : DescriptorTable} {old new : Nat} {id : FileId}
    (sh : Shared W) (hne : old ≠ new) (hold : t.get? old = some id) (hnew : new < t.capacity) :
    ∃ t' sh', duplicate S old new ⟨t, sh⟩ = .ok new ⟨t', sh'⟩ ∧
      ∀ i, t'.get? i = if i = new then some id else t.get? i := by
  obtain ⟨displaced, t', hinstall⟩ : ∃ displaced t', t.install new id = some (displaced, t') :=
    ⟨_, _, if_pos hnew⟩
  suffices h : (duplicate S old new).Ensures ⟨t, sh⟩ (fun fd d => fd = new ∧ d.table = t')
      fun _ _ => False by
    obtain ⟨fd, d, hrun, rfl, rfl⟩ := h.exists_ok
    exact ⟨d.table, d.shared, hrun, DescriptorTable.get?_install hinstall⟩
  rw [duplicate, Action.ensures_bind, Action.ensures_get, if_neg (Nat.not_le.2 hnew),
    Action.ensures_bind, ensures_lookup]
  refine ⟨fun id' hid' => ?_, fun hnone => by rw [hold] at hnone; cases hnone⟩
  obtain rfl : id = id' := Option.some.inj (hold.symm.trans hid')
  rw [if_neg hne, Action.ensures_bind, ensures_retain, Action.ensures_bind, ensures_install]
  refine ⟨fun previous table h => ?_, fun hnone => by rw [hinstall] at hnone; cases hnone⟩
  obtain ⟨rfl, rfl⟩ := Prod.mk.inj (Option.some.inj (hinstall.symm.trans h))
  cases displaced with
  | some id => exact ⟨rfl, rfl⟩
  | none => exact ⟨rfl, rfl⟩

theorem duplicate_self (S : Services W) {t : DescriptorTable} {fd : Nat} {id : FileId}
    (sh : Shared W) (hfd : t.get? fd = some id) :
    duplicate S fd fd ⟨t, sh⟩ = .ok fd ⟨t, sh⟩ := by
  have hlt : fd < t.capacity := DescriptorTable.lt_of_get? hfd
  rw [Action.eq_ok_iff, duplicate, Action.ensures_bind, Action.ensures_get,
    if_neg (Nat.not_le.2 hlt), Action.ensures_bind, ensures_lookup]
  refine ⟨fun id' _ => ?_, fun hnone => by rw [hfd] at hnone; cases hnone⟩
  rw [if_pos rfl]
  exact ⟨rfl, rfl⟩

def KeepsTable {α : Type} (act : Action (Descriptors W) α) : Prop :=
  ∀ d, act.Ensures d (fun _ _ => True) fun _ d' => d'.table = d.table

theorem keepsTable_openPath (S : Services W) (path : String) (raw : UInt32) :
    KeepsTable (openPath S path raw) := by
  intro d
  rw [openPath, Action.ensures_bind, Action.ensures_ofExcept]
  refine ⟨fun flags _ => ?_, fun e _ => rfl⟩
  rw [Action.ensures_bind, ensures_onShared]
  refine Action.ensures_iff.2 ⟨fun id sh _ => ?_, fun e sh _ => rfl⟩
  rw [Action.ensures_bind, ensures_alloc]
  exact ⟨fun fd table _ => trivial, fun _ => rfl⟩

theorem keepsTable_close (S : Services W) (fd : Nat) : KeepsTable (close S fd) := by
  intro d
  rw [close, Action.ensures_bind, ensures_take]
  exact ⟨fun id table _ => trivial, fun _ => rfl⟩

theorem keepsTable_duplicate (S : Services W) (old new : Nat) :
    KeepsTable (duplicate S old new) := by
  intro d
  rw [duplicate, Action.ensures_bind, Action.ensures_get]
  split
  case isTrue => exact rfl
  case isFalse =>
    rw [Action.ensures_bind, ensures_lookup]
    refine ⟨fun id _ => ?_, fun _ => rfl⟩
    split
    case isTrue => trivial
    case isFalse =>
      rw [Action.ensures_bind, ensures_retain, Action.ensures_bind, ensures_install]
      refine ⟨fun previous table _ => ?_, fun _ => rfl⟩
      cases previous <;> trivial

theorem keepsTable_perform (S : Services W) {c : TableCall} (hc : c ≠ .attachStreams) :
    KeepsTable (perform S c) := by
  intro d
  cases c with
  | alloc id =>
    rw [perform, Action.ensures_bind, ensures_alloc]
    exact ⟨fun _ _ _ => trivial, fun _ => rfl⟩
  | get fd =>
    rw [perform, Action.ensures_bind, ensures_lookup]
    exact ⟨fun _ _ => trivial, fun _ => rfl⟩
  | take fd =>
    rw [perform, Action.ensures_bind, ensures_take]
    exact ⟨fun _ _ _ => trivial, fun _ => rfl⟩
  | install fd id =>
    rw [perform, Action.ensures_bind, ensures_install]
    exact ⟨fun _ _ _ => trivial, fun _ => rfl⟩
  | isOpen fd => trivial
  | clear => trivial
  | attachStreams => exact absurd rfl hc
  | openPath path raw =>
    exact Action.ensures_bind.2 ((keepsTable_openPath S path raw d).mono (fun _ _ h => h)
      fun _ _ h => h)
  | close fd =>
    exact Action.ensures_bind.2 ((keepsTable_close S fd d).mono (fun _ _ h => h) fun _ _ h => h)
  | duplicate old new =>
    exact Action.ensures_bind.2 ((keepsTable_duplicate S old new d).mono (fun _ _ h => h)
      fun _ _ h => h)

theorem ensures_attachStream (S : Services W) (fd : Nat) (flags : OpenFlags)
    (d : Descriptors W) :
    (attachStream S fd flags).Ensures d
      (fun _ d' => ∀ i, i ≠ fd → d'.table.get? i = d.table.get? i)
      fun _ d' => d'.table = d.table := by
  rw [attachStream, Action.ensures_bind, ensures_onShared]
  refine Action.ensures_iff.2 ⟨fun id sh _ => ?_, fun e sh _ => rfl⟩
  rw [Action.ensures_bind, ensures_install]
  refine ⟨fun previous table h => ?_, fun _ => rfl⟩
  apply ensures_dropDisplaced.2
  intro i hi
  rw [DescriptorTable.get?_install h i, if_neg hi]

theorem ensures_attachStreams (S : Services W) (d : Descriptors W) :
    (attachStreams S).Ensures d (fun _ _ => True) fun _ d' =>
      ∃ k < firstUserDescriptor, ∀ fd, k ≤ fd → d'.table.get? fd = d.table.get? fd := by
  rw [attachStreams, Action.ensures_bind]
  refine (ensures_attachStream S 0 _ d).mono (fun _ d₁ h₁ => ?_) fun _ d₁ h₁ => ?_
  · rw [Action.ensures_bind]
    refine (ensures_attachStream S 1 _ d₁).mono (fun _ d₂ h₂ => ?_) fun _ d₂ h₂ => ?_
    · rw [Action.ensures_bind]
      refine (ensures_attachStream S 2 _ d₂).mono (fun _ d₃ h₃ => trivial) fun _ d₃ h₃ => ?_
      refine ⟨2, by decide, fun fd hfd => ?_⟩
      rw [h₃, h₂ fd (by omega), h₁ fd (by omega)]
    · refine ⟨1, by decide, fun fd hfd => ?_⟩
      rw [h₂, h₁ fd (by omega)]
  · exact ⟨0, by decide, fun fd _ => by rw [h₁]⟩

end Descriptors

theorem DescriptorTable.Exact.lawful {t : DescriptorTable} (ht : t.Exact) (S : Services W) :
    t.Lawful S where
  bits := ht.isFree_iff
  words _ hfd := ht.word_lt hfd
  scan _ _ h := ht.lowestFree_lt h
  alloc id sh := Descriptors.alloc_cases S ht id sh
  duplicate _ _ _ sh hne hold hnew := Descriptors.duplicate_ne S sh hne hold hnew
  duplicate_self _ _ sh hfd := Descriptors.duplicate_self S sh hfd
  failure _ sh _ _ hc h := (Descriptors.keepsTable_perform S hc ⟨t, sh⟩).of_error h
  streams sh _ _ h := (Descriptors.ensures_attachStreams S ⟨t, sh⟩).of_error h

/-- From no tables on, every sequence of requests gets the same answers from tables with bitmaps as
from linear tables and leaves the same slots and the same shared state, and the laws hold of every
table that it leaves. -/
theorem bitmap_refines_linear (S : Services W) (shared : Shared W) (rs : List TableRequest) :
    Tables.run S (linearTables S) rs { shared } =
        ((Tables.run S (bitmapTables S) rs { shared }).1,
          (Tables.run S (bitmapTables S) rs { shared }).2.linear) ∧
      ∀ t ∈ (Tables.run S (bitmapTables S) rs { shared }).2.tables, t.Lawful S := by
  have hstart : Tables.Exact (W := W) { shared } := fun t ht => absurd ht (Array.not_mem_empty t)
  have hlinear : Tables.linear (W := W) { shared } = { shared } := by simp [Tables.linear]
  obtain ⟨hexact, hrun⟩ := Tables.run_linear (S := S) hstart rs
  rw [hlinear] at hrun
  exact ⟨hrun, fun t ht => (hexact t ht).lawful S⟩

end UnixCore
