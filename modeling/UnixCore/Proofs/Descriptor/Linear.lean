import UnixCore.Proofs.Descriptor.Bitmap

/-! The descriptor table without a bitmap: an array of slots in which the lowest empty one is found
by looking at one slot after the other. An exact table does what the linear table of its slots
does, and stays exact. -/

namespace UnixCore

/-- A descriptor table that is only its slots. -/
structure LinearTable where
  slots : Array (Option FileId)

namespace LinearTable

def empty (capacity : Nat) : LinearTable := ⟨.replicate capacity none⟩

def capacity (t : LinearTable) : Nat := t.slots.size

def get? (t : LinearTable) (fd : Nat) : Option FileId := t.slots[fd]?.join

def isOpen (t : LinearTable) (fd : Nat) : Bool := (t.get? fd).isSome

def held (t : LinearTable) : List FileId := t.slots.toList.filterMap id

/-- The first empty slot at or above `start`, slot by slot. -/
def scan (t : LinearTable) (start : Nat) : Option Nat :=
  (List.range' start (t.capacity - start)).find? fun fd => !t.isOpen fd

def put (t : LinearTable) (fd : Nat) (file : Option FileId) : LinearTable :=
  ⟨t.slots.setIfInBounds fd file⟩

def alloc (t : LinearTable) (file : FileId) : Option (Nat × LinearTable) :=
  (t.scan firstUserDescriptor).map fun fd => (fd, t.put fd (some file))

def take (t : LinearTable) (fd : Nat) : Option (FileId × LinearTable) :=
  (t.get? fd).map fun file => (file, t.put fd none)

def install (t : LinearTable) (fd : Nat) (file : FileId) :
    Option (Option FileId × LinearTable) :=
  if fd < t.capacity then some (t.get? fd, t.put fd (some file)) else none

def clear (t : LinearTable) : LinearTable := empty t.capacity

theorem ext_get? {t u : LinearTable} (hcap : t.capacity = u.capacity)
    (hget : ∀ fd, t.get? fd = u.get? fd) : t = u := by
  obtain ⟨slots⟩ := t
  obtain ⟨slots'⟩ := u
  refine congrArg mk (Array.ext hcap fun i hi hi' => ?_)
  simpa [get?, hi, hi'] using hget i

end LinearTable

namespace DescriptorTable

def linear (t : DescriptorTable) : LinearTable := ⟨t.slots⟩

@[simp] theorem get?_linear (t : DescriptorTable) (fd : Nat) : t.linear.get? fd = t.get? fd := rfl

@[simp] theorem capacity_linear (t : DescriptorTable) : t.linear.capacity = t.capacity := rfl

@[simp] theorem isOpen_linear (t : DescriptorTable) (fd : Nat) :
    t.linear.isOpen fd = t.isOpen fd := rfl

@[simp] theorem held_linear (t : DescriptorTable) : t.linear.held = t.held := rfl

@[simp] theorem linear_empty (capacity : Nat) : (empty capacity).linear = .empty capacity := rfl

theorem not_isOpen_iff {t : DescriptorTable} {fd : Nat} :
    (!t.isOpen fd) = true ↔ t.get? fd = none := by
  simp [isOpen]

theorem Exact.lowestFree_eq_scan {t : DescriptorTable} (ht : t.Exact) (start : Nat) :
    t.lowestFree start = t.linear.scan start := by
  cases hscan : t.linear.scan start with
  | some fd =>
    obtain ⟨hopen, hmem, hleast⟩ := List.find?_range'_eq_some.1 hscan
    simp only [capacity_linear, List.mem_range'_1] at hmem
    refine ht.lowestFree_eq_some_iff.2 ⟨hmem.1, ⟨by omega, not_isOpen_iff.1 hopen⟩, ?_⟩
    intro i hi hlt hfree
    have := hleast i hi hlt
    rw [isOpen_linear, not_isOpen_iff.2 hfree.2] at this
    cases this
  | none =>
    apply ht.lowestFree_eq_none_iff.2
    intro fd hfd hlt hfree
    have := List.find?_range'_eq_none.1 hscan fd hfd (by rw [capacity_linear]; omega)
    rw [isOpen_linear, not_isOpen_iff.2 hfree] at this
    cases this

theorem Exact.lowestFree_lt {t : DescriptorTable} (ht : t.Exact) {start fd : Nat}
    (h : t.lowestFree start = some fd) : fd < t.capacity :=
  (ht.lowestFree_eq_some_iff.1 h).2.1.1

/-! ### Every operation on exact tables -/

theorem Exact.linear_alloc {t : DescriptorTable} (ht : t.Exact) (file : FileId) :
    t.linear.alloc file = (t.alloc file).map fun r => (r.1, r.2.linear) := by
  rw [LinearTable.alloc, DescriptorTable.alloc, ← ht.lowestFree_eq_scan, Option.map_map]
  rfl

theorem linear_take (t : DescriptorTable) (fd : Nat) :
    t.linear.take fd = (t.take fd).map fun r => (r.1, r.2.linear) := by
  rw [LinearTable.take, DescriptorTable.take, Option.map_map]
  rfl

theorem linear_install (t : DescriptorTable) (fd : Nat) (file : FileId) :
    t.linear.install fd file = (t.install fd file).map fun r => (r.1, r.2.linear) := by
  rw [LinearTable.install, DescriptorTable.install, capacity_linear]
  by_cases h : fd < t.capacity
  · rw [if_pos h, if_pos h]
    rfl
  · rw [if_neg h, if_neg h]
    rfl

theorem Exact.alloc {t t' : DescriptorTable} {file : FileId} {fd : Nat} (ht : t.Exact)
    (h : t.alloc file = some (fd, t')) : t'.Exact := by
  obtain ⟨n, hn, heq⟩ := Option.map_eq_some_iff.1 h
  obtain ⟨-, rfl⟩ := Prod.mk.inj heq
  exact ht.fill (ht.lowestFree_lt hn) file

theorem Exact.take {t t' : DescriptorTable} {file : FileId} {fd : Nat} (ht : t.Exact)
    (h : t.take fd = some (file, t')) : t'.Exact := by
  obtain ⟨n, hn, heq⟩ := Option.map_eq_some_iff.1 h
  obtain ⟨-, rfl⟩ := Prod.mk.inj heq
  exact ht.vacate (lt_of_get? hn)

theorem Exact.install {t t' : DescriptorTable} {file : FileId} {fd : Nat}
    {previous : Option FileId} (ht : t.Exact) (h : t.install fd file = some (previous, t')) :
    t'.Exact := by
  unfold DescriptorTable.install at h
  split at h
  case isTrue hlt =>
    obtain ⟨-, rfl⟩ := Prod.mk.inj (Option.some.inj h)
    exact ht.fill hlt file
  case isFalse => cases h

theorem capacity_take {t t' : DescriptorTable} {file : FileId} {fd : Nat}
    (h : t.take fd = some (file, t')) : t'.capacity = t.capacity := by
  obtain ⟨n, hn, heq⟩ := Option.map_eq_some_iff.1 h
  obtain ⟨-, rfl⟩ := Prod.mk.inj heq
  simp [capacity]

/-- The table after `clear` has emptied the slots below `n`. -/
def clearBelow (t : DescriptorTable) (n : Nat) : DescriptorTable :=
  (List.range n).foldl (fun t fd => ((t.take fd).map (·.2)).getD t) t

theorem clearBelow_succ (t : DescriptorTable) (n : Nat) :
    t.clearBelow (n + 1) =
      (((t.clearBelow n).take n).map (·.2)).getD (t.clearBelow n) := by
  simp [clearBelow, List.range_succ]

/-- The loop of `clear` has emptied the slots that it has passed. -/
theorem get?_clearBelow (t : DescriptorTable) (n : Nat) :
    (t.clearBelow n).capacity = t.capacity ∧
      ∀ fd, (t.clearBelow n).get? fd = if fd < n then none else t.get? fd := by
  induction n with
  | zero => exact ⟨rfl, fun fd => by simp [clearBelow]⟩
  | succ n ih =>
    obtain ⟨hcap, hget⟩ := ih
    rw [clearBelow_succ]
    cases htake : (t.clearBelow n).take n with
    | none =>
      have hn : t.get? n = none := by
        have := Option.map_eq_none_iff.1 htake
        rwa [hget n, if_neg (Nat.lt_irrefl n)] at this
      refine ⟨hcap, fun fd => ?_⟩
      simp only [Option.map_none, Option.getD_none, hget, Nat.lt_succ_iff_lt_or_eq]
      by_cases hfd : fd = n
      · simp [hfd, hn]
      · simp [hfd]
    | some r =>
      obtain ⟨file, t'⟩ := r
      refine ⟨(capacity_take htake).trans hcap, fun fd => ?_⟩
      simp only [Option.map_some, Option.getD_some, get?_take htake, hget,
        Nat.lt_succ_iff_lt_or_eq]
      by_cases hfd : fd = n
      · simp [hfd]
      · simp [hfd]

@[simp] theorem get?_clear (t : DescriptorTable) (fd : Nat) : t.clear.get? fd = none := by
  have hget : t.clear.get? fd = if fd < t.capacity then none else t.get? fd :=
    (get?_clearBelow t t.capacity).2 fd
  rw [hget]
  split
  case isTrue => rfl
  case isFalse hfd => rw [get?, Array.getElem?_eq_none (Nat.le_of_not_lt hfd), Option.join_none]

theorem Exact.clearBelow {t : DescriptorTable} (ht : t.Exact) (n : Nat) :
    (t.clearBelow n).Exact := by
  induction n with
  | zero => exact ht
  | succ n ih =>
    rw [clearBelow_succ]
    cases htake : (t.clearBelow n).take n with
    | none => exact ih
    | some r => exact ih.take htake

theorem Exact.clear {t : DescriptorTable} (ht : t.Exact) : t.clear.Exact :=
  ht.clearBelow t.capacity

theorem linear_clear (t : DescriptorTable) : t.clear.linear = t.linear.clear := by
  obtain ⟨hcap, hget⟩ := get?_clearBelow t t.capacity
  refine LinearTable.ext_get? ?_ fun fd => ?_
  · apply Eq.trans hcap
    simp [LinearTable.clear, LinearTable.empty, LinearTable.capacity, linear, capacity]
  · have hempty : (LinearTable.empty t.capacity).get? fd = none := get?_empty t.capacity fd
    rw [get?_linear, get?_clear, LinearTable.clear, capacity_linear, hempty]

end DescriptorTable

end UnixCore
