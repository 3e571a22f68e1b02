import Std.Data.TreeMap
import UnixCore.Errno
import UnixCore.Process.Pid

/-! The registry of processes by id. Ids come from a counter that goes round the range of ids and
passes over those still registered, so that an id is not given out again soon. -/

namespace UnixCore

/-- The registered processes, as something of type `α` each. -/
structure ProcessTable (α : Type) where
  capacity : Nat
  entries : Std.TreeMap Pid α := {}
  nextPid : Pid := Pid.lowest

namespace ProcessTable

variable {α : Type}

instance : Inhabited (ProcessTable α) := ⟨{ capacity := 0 }⟩

def following (pid : Pid) : Pid := if Pid.highest ≤ pid then Pid.lowest else pid + 1

def pidCount : Nat := Pid.highest.toNat - Pid.lowest.toNat + 1

/-- The first unregistered id among the next `left` from `pid` on. -/
def search (entries : Std.TreeMap Pid α) : (left : Nat) → (pid : Pid) → Option Pid
  | 0, _ => none
  | left + 1, pid =>
    if entries.contains pid then search entries left (following pid) else some pid

def get? (t : ProcessTable α) (pid : Pid) : Option α := t.entries[pid]?

def contains (t : ProcessTable α) (pid : Pid) : Bool := t.entries.contains pid

def size (t : ProcessTable α) : Nat := t.entries.size

def isEmpty (t : ProcessTable α) : Bool := t.size == 0

def pids (t : ProcessTable α) : List Pid := t.entries.keys

/-- Registers `make pid` under a new id. Where every id is taken the counter has gone all the way
round, so a failure changes nothing. -/
def create (t : ProcessTable α) (make : Pid → α) : Except Errno (Pid × ProcessTable α) :=
  if t.capacity ≤ t.size then
    .error .tooManyProcesses
  else
    match search t.entries pidCount t.nextPid with
    | none => .error .tooManyProcesses
    | some pid =>
      .ok (pid, { t with entries := t.entries.insert pid (make pid), nextPid := following pid })

def remove (t : ProcessTable α) (pid : Pid) : ProcessTable α :=
  { t with entries := t.entries.erase pid }

theorem get?_remove (t : ProcessTable α) (pid i : Pid) :
    (t.remove pid).get? i = if i = pid then none else t.get? i := by
  simp only [get?, remove, Std.TreeMap.getElem?_erase, Std.compare_eq_iff_eq, eq_comm (a := pid)]

theorem get?_create {t t' : ProcessTable α} {make : Pid → α} {pid : Pid}
    (h : t.create make = .ok (pid, t')) (i : Pid) :
    t'.get? i = if i = pid then some (make pid) else t.get? i := by
  unfold create at h
  split at h
  · cases h
  · split at h
    · cases h
    · obtain ⟨rfl, rfl⟩ := Prod.mk.inj (Except.ok.inj h)
      simp only [get?, Std.TreeMap.getElem?_insert, Std.compare_eq_iff_eq, eq_comm (b := i)]

end ProcessTable

end UnixCore
