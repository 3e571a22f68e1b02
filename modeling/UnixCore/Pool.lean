/-! Values with several holders. A value stays in the pool while it has a holder, and the operation
that takes its last holder away gives the value back, so that what it stands for can be released
there and then. -/

namespace UnixCore

structure Held (α : Type) where
  value : α
  holders : Nat
  deriving Repr

/-- Values by number. Numbers are given out in order and never again. -/
structure Pool (α : Type) where
  cells : Array (Option (Held α)) := #[]

namespace Pool

variable {α : Type}

instance : Inhabited (Pool α) := ⟨{}⟩

def held? (p : Pool α) (i : Nat) : Option (Held α) := p.cells[i]?.join

/-- The value with number `i`, while it has a holder. -/
def get? (p : Pool α) (i : Nat) : Option α := (p.held? i).map (·.value)

def holders (p : Pool α) (i : Nat) : Nat := ((p.held? i).map (·.holders)).getD 0

def next (p : Pool α) : Nat := p.cells.size

def insert (p : Pool α) (a : α) : Pool α := ⟨p.cells.push (some ⟨a, 1⟩)⟩

def modify (p : Pool α) (i : Nat) (f : α → α) : Pool α :=
  ⟨p.cells.modify i (·.map fun h => { h with value := f h.value })⟩

def retain (p : Pool α) (i : Nat) : Pool α :=
  ⟨p.cells.modify i (·.map fun h => { h with holders := h.holders + 1 })⟩

/-- One holder less. Gives the value if that was the last one. -/
def release (p : Pool α) (i : Nat) : Option α × Pool α :=
  match p.held? i with
  | none => (none, p)
  | some h =>
    if h.holders ≤ 1 then
      (some h.value, ⟨p.cells.setIfInBounds i none⟩)
    else
      (none, ⟨p.cells.setIfInBounds i (some { h with holders := h.holders - 1 })⟩)

theorem held?_insert (p : Pool α) (a : α) (i : Nat) :
    (p.insert a).held? i = if i = p.next then some ⟨a, 1⟩ else p.held? i := by
  unfold next
  by_cases h : i = p.cells.size <;> simp [held?, insert, Array.getElem?_push, h]

theorem held?_retain (p : Pool α) (i j : Nat) :
    (p.retain i).held? j =
      if j = i then (p.held? j).map fun h => { h with holders := h.holders + 1 }
      else p.held? j := by
  simp only [held?, retain, Array.getElem?_modify, eq_comm (a := j)]
  split
  · cases p.cells[j]? <;> simp
  · rfl

theorem held?_modify (p : Pool α) (i j : Nat) (f : α → α) :
    (p.modify i f).held? j =
      if j = i then (p.held? j).map fun h => { h with value := f h.value } else p.held? j := by
  simp only [held?, modify, Array.getElem?_modify, eq_comm (a := j)]
  split
  · cases p.cells[j]? <;> simp
  · rfl

theorem lt_of_held? {p : Pool α} {i : Nat} {h : Held α} (hi : p.held? i = some h) :
    i < p.cells.size := by
  by_cases hlt : i < p.cells.size
  · exact hlt
  · simp [held?, Array.getElem?_eq_none (Nat.le_of_not_lt hlt)] at hi

theorem held?_setIfInBounds (cells : Array (Option (Held α))) (i j : Nat) (c : Option (Held α))
    (hi : i < cells.size) :
    (Pool.mk (cells.setIfInBounds i c)).held? j = if j = i then c else (Pool.mk cells).held? j := by
  by_cases h : j = i
  · simp [held?, h, hi]
  · simp [held?, h, Array.getElem?_setIfInBounds_ne (Ne.symm h)]

theorem held?_release (p : Pool α) (i j : Nat) :
    (p.release i).2.held? j =
      if j = i then
        (p.held? j).bind fun h =>
          if h.holders ≤ 1 then none else some { h with holders := h.holders - 1 }
      else p.held? j := by
  unfold release
  cases hi : p.held? i with
  | none =>
    by_cases h : j = i
    · simp [h, hi]
    · simp [h]
  | some c =>
    have hlt := lt_of_held? hi
    by_cases hc : c.holders ≤ 1 <;>
      simp only [hc, if_true, if_false, held?_setIfInBounds _ _ _ _ hlt]
    all_goals
      by_cases h : j = i
      · simp [h, hi, hc]
      · simp [h]

theorem release_fst (p : Pool α) (i : Nat) :
    (p.release i).1 = (p.held? i).bind fun h => if h.holders ≤ 1 then some h.value else none := by
  unfold release
  cases p.held? i with
  | none => rfl
  | some c => by_cases hc : c.holders ≤ 1 <;> simp [hc]

end Pool

end UnixCore
