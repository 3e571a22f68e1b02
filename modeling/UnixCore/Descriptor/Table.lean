import UnixCore.Config
import UnixCore.Errno

/-! Descriptor tables: a fixed number of slots, each empty or referring to an open file, and a
bitmap of the empty slots in which the lowest one is found word by word. A table counts no
references; whoever fills or empties a slot does. -/

namespace UnixCore

abbrev FileId := Nat

def slotsPerWord : Nat := 64

/-- A descriptor table. Bit `i` of the bitmap is set while slot `i` is empty. -/
structure DescriptorTable where
  slots : Array (Option FileId)
  free : Array (BitVec 64)
  deriving DecidableEq, Repr, Inhabited

namespace DescriptorTable

/-- The table of `capacity` empty slots. The last word has bits for the slots only. -/
def empty (capacity : Nat) : DescriptorTable where
  slots := .replicate capacity none
  free := .ofFn fun word : Fin ((capacity + (slotsPerWord - 1)) / slotsPerWord) =>
    if capacity < (word + 1) * slotsPerWord then
      1#64 <<< (capacity % slotsPerWord) - 1#64
    else
      .allOnes 64

def capacity (t : DescriptorTable) : Nat := t.slots.size

def get? (t : DescriptorTable) (fd : Nat) : Option FileId := t.slots[fd]?.join

def isOpen (t : DescriptorTable) (fd : Nat) : Bool := (t.get? fd).isSome

/-- The open files of the table, one entry per slot, by ascending descriptor. -/
def held (t : DescriptorTable) : List FileId := t.slots.toList.filterMap id

def entries (t : DescriptorTable) : List (Nat × FileId) :=
  (List.range t.capacity).filterMap fun fd => (t.get? fd).map (fd, ·)

def openCount (t : DescriptorTable) : Nat := t.held.length

/-- The lowest bit set in `words`, of whose first word only the bits of `mask` count. The first
bit of the first word has number `base`. -/
def lowestBit (base : Nat) (mask : BitVec 64) : (words : List (BitVec 64)) → Option Nat
  | [] => none
  | word :: words =>
    let bits := word &&& mask
    if bits = 0 then lowestBit (base + slotsPerWord) (.allOnes 64) words
    else some (base + bits.ctz.toNat)

def lowestFree (t : DescriptorTable) (start : Nat) : Option Nat :=
  let word := start / slotsPerWord
  let mask := BitVec.allOnes 64 <<< (start % slotsPerWord)
  lowestBit (word * slotsPerWord) mask (t.free.toList.drop word)

def markUsed (free : Array (BitVec 64)) (fd : Nat) : Array (BitVec 64) :=
  free.modify (fd / slotsPerWord) (· &&& ~~~(1#64 <<< (fd % slotsPerWord)))

def markFree (free : Array (BitVec 64)) (fd : Nat) : Array (BitVec 64) :=
  free.modify (fd / slotsPerWord) (· ||| 1#64 <<< (fd % slotsPerWord))

/-- Puts a file in the lowest empty slot above the standard streams. -/
def alloc (t : DescriptorTable) (file : FileId) : Option (Nat × DescriptorTable) :=
  (t.lowestFree firstUserDescriptor).map fun fd =>
    (fd, ⟨t.slots.setIfInBounds fd (some file), markUsed t.free fd⟩)

def take (t : DescriptorTable) (fd : Nat) : Option (FileId × DescriptorTable) :=
  (t.get? fd).map fun file => (file, ⟨t.slots.setIfInBounds fd none, markFree t.free fd⟩)

def install (t : DescriptorTable) (fd : Nat) (file : FileId) :
    Option (Option FileId × DescriptorTable) :=
  if fd < t.capacity then
    some (t.get? fd, ⟨t.slots.setIfInBounds fd (some file), markUsed t.free fd⟩)
  else
    none

def clear (t : DescriptorTable) : DescriptorTable :=
  (List.range t.capacity).foldl (fun t fd => ((t.take fd).map (·.2)).getD t) t

def describe (t : DescriptorTable) : String :=
  "FdTable \x7b capacity: " ++ toString t.capacity ++ ", open: " ++ toString t.openCount ++ " \x7d"

@[simp] theorem get?_empty (capacity fd : Nat) : (empty capacity).get? fd = none := by
  simp only [get?, empty, Array.getElem?_replicate]
  split <;> rfl

theorem get?_setIfInBounds (slots : Array (Option FileId)) (free : Array (BitVec 64)) {fd : Nat}
    (file : Option FileId) (h : fd < slots.size) (i : Nat) :
    (mk (slots.setIfInBounds fd file) free).get? i =
      if i = fd then file else (mk slots free).get? i := by
  by_cases hi : i = fd
  · simp [get?, hi, h]
  · simp [get?, hi, Array.getElem?_setIfInBounds_ne (Ne.symm hi)]

theorem lt_of_get? {t : DescriptorTable} {fd : Nat} {file : FileId} (h : t.get? fd = some file) :
    fd < t.capacity := by
  by_cases hlt : fd < t.capacity
  · exact hlt
  · simp [get?, Array.getElem?_eq_none (Nat.le_of_not_lt hlt)] at h

theorem get?_install {t t' : DescriptorTable} {fd : Nat} {file : FileId} {previous : Option FileId}
    (h : t.install fd file = some (previous, t')) (i : Nat) :
    t'.get? i = if i = fd then some file else t.get? i := by
  unfold install at h
  split at h
  case isTrue hlt =>
    obtain ⟨-, rfl⟩ := Prod.mk.inj (Option.some.inj h)
    exact get?_setIfInBounds t.slots _ _ hlt i
  case isFalse => cases h

theorem get?_take {t t' : DescriptorTable} {fd : Nat} {file : FileId}
    (h : t.take fd = some (file, t')) (i : Nat) :
    t'.get? i = if i = fd then none else t.get? i := by
  obtain ⟨old, hold, heq⟩ := Option.map_eq_some_iff.1 h
  obtain ⟨-, rfl⟩ := Prod.mk.inj heq
  exact get?_setIfInBounds t.slots _ _ (lt_of_get? hold) i

end DescriptorTable

end UnixCore
