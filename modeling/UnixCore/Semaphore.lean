import UnixCore.Event

/-! Counting semaphores. Giving a unit never blocks. Taking one waits by yielding the processor
until there is a unit, and what the others do during each yield is a script, so that a wait is a
total function of its script. -/

namespace UnixCore

/-- Units to take, and how many wait for one. -/
structure Semaphore where
  count : UInt64 := 0
  waiters : UInt64 := 0
  deriving DecidableEq, Repr, Inhabited

/-- Repeats `take` until it succeeds, with the next action of the script before each repetition.
Gives the number of actions that ran before the success, or nothing if the script ended first. -/
def await {σ : Type} (take : σ → Option σ) : (script : List (σ → σ)) → σ → Option Nat × σ
  | [], s =>
    match take s with
    | some s => (some 0, s)
    | none => (none, s)
  | act :: script, s =>
    match take s with
    | some s => (some 0, s)
    | none =>
      let (yields, s) := await take script (act s)
      (yields.map (· + 1), s)

namespace Semaphore

def up (s : Semaphore) : Semaphore := { s with count := s.count + 1 }

def tryDown (s : Semaphore) : Option Semaphore :=
  if s.count = 0 then none else some { s with count := s.count - 1 }

def enter (s : Semaphore) : Semaphore := { s with waiters := s.waiters + 1 }

def leave (s : Semaphore) : Semaphore := { s with waiters := s.waiters - 1 }

/-- Takes one unit of the semaphore `sem` inside a state, waiting while there is none. Each action
of the script is one yield of the wait. A wait whose script ends goes on for ever: it gives nothing
and stays among the waiters. -/
def down {σ : Type} (sem : σ → Semaphore) (put : Semaphore → σ → σ) (report : Event → σ → σ)
    (script : List (σ → σ)) (s : σ) : Option Nat × σ :=
  let take s := (sem s).tryDown.map (put · s)
  match take s with
  | some s => (some 0, s)
  | none =>
    let s := if 0 < (sem s).waiters then report .secondWaiter s else s
    match await take script (put (sem s).enter s) with
    | (some yields, s) => (some yields, put (sem s).leave s)
    | (none, s) => (none, s)

theorem toNat_count_up {s : Semaphore} (h : s.count.toNat + 1 < UInt64.size) :
    s.up.count.toNat = s.count.toNat + 1 := by
  simp only [up, UInt64.toNat_add, UInt64.toNat_one]
  exact Nat.mod_eq_of_lt h

theorem tryDown_eq_none_iff {s : Semaphore} : s.tryDown = none ↔ s.count = 0 := by
  unfold tryDown
  split <;> simp [*]

/-- A unit that was given can be taken again, which leaves what was there before. -/
theorem tryDown_up {s : Semaphore} (h : s.count = 0) : s.up.tryDown = some s := by
  obtain ⟨count, waiters⟩ := s
  simp only at h
  subst h
  simp [up, tryDown]

theorem toNat_count_of_tryDown {s t : Semaphore} (h : s.tryDown = some t) :
    t.count.toNat + 1 = s.count.toNat ∧ t.waiters = s.waiters := by
  unfold tryDown at h
  split at h
  case isTrue => cases h
  case isFalse hs =>
    cases h
    have hpos : s.count.toNat ≠ 0 := fun h0 => hs (UInt64.toNat_inj.1 h0)
    have hle : 1 ≤ s.count := by
      rw [UInt64.le_iff_toNat_le]
      exact Nat.one_le_iff_ne_zero.2 hpos
    refine ⟨?_, rfl⟩
    rw [UInt64.toNat_sub_of_le _ _ hle]
    exact Nat.sub_add_cancel (Nat.one_le_iff_ne_zero.2 hpos)

end Semaphore

end UnixCore
