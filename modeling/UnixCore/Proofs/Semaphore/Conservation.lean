import Mathlib.Algebra.GroupWithZero.Nat
import UnixCore.Semaphore

/-! The units of a semaphore over any sequence of calls. No unit is lost or taken twice, not even
one that comes during the last yield before a wait looks again, and a wait returns as soon as there
is a unit for it. -/

namespace UnixCore

namespace Semaphore

variable {σ : Type}

/-- Where a state has a semaphore, and how the semaphore reports. -/
structure Place (σ : Type) where
  sem : σ → Semaphore
  put : Semaphore → σ → σ
  report : Event → σ → σ
  sem_put : ∀ x s, sem (put x s) = x
  sem_report : ∀ e s, sem (report e s) = sem s

/-- A call on a semaphore. With a wait comes how many units others give during each of its
yields. -/
inductive Call
  | up
  | tryDown
  | down (script : List Nat)
  deriving DecidableEq, Repr

inductive Answer
  | given
  | tried (took : Bool)
  | returned (yields : Nat)
  | blocked
  deriving DecidableEq, Repr

/-! ### Runs -/

namespace Place

variable (place : Place σ)

/-- The units there are to take. -/
def units (s : σ) : Nat := (place.sem s).count.toNat

def up (s : σ) : σ := place.put (place.sem s).up s

/-- Gives units one after the other. -/
def ups : Nat → σ → σ
  | 0, s => s
  | n + 1, s => ups n (place.up s)

def take (s : σ) : Option σ := (place.sem s).tryDown.map (place.put · s)

/-- Becomes one of the waiters, which is reported if it is not the first. -/
def enter (s : σ) : σ :=
  let s := if 0 < (place.sem s).waiters then place.report .secondWaiter s else s
  place.put (place.sem s).enter s

def leave (s : σ) : σ := place.put (place.sem s).leave s

def step : Call → σ → Answer × σ
  | .up, s => (.given, place.up s)
  | .tryDown, s =>
    match place.take s with
    | some s => (.tried true, s)
    | none => (.tried false, s)
  | .down script, s =>
    match down place.sem place.put place.report (script.map place.ups) s with
    | (some yields, s) => (.returned yields, s)
    | (none, s) => (.blocked, s)

def run : List Call → σ → List (Call × Answer) × σ
  | [], s => ([], s)
  | call :: calls, s =>
    let (answer, s) := place.step call s
    let (history, s) := run calls s
    ((call, answer) :: history, s)

theorem run_append (calls calls' : List Call) (s : σ) :
    place.run (calls ++ calls') s =
      ((place.run calls s).1 ++ (place.run calls' (place.run calls s).2).1,
        (place.run calls' (place.run calls s).2).2) := by
  induction calls generalizing s with
  | nil => rfl
  | cons call calls ih => simp only [List.cons_append, run, ih]

end Place

/-- The units that a wait is given until it returns, or altogether. -/
def delivered (script : List Nat) : Option Nat → Nat
  | some yields => (script.take yields).sum
  | none => script.sum

/-- The units that are given during a call. -/
def given : Call × Answer → Nat
  | (.up, _) => 1
  | (.down script, .returned yields) => delivered script (some yields)
  | (.down script, .blocked) => delivered script none
  | _ => 0

/-- The units that a call takes. -/
def taken : Call × Answer → Nat
  | (_, .tried true) => 1
  | (_, .returned _) => 1
  | _ => 0

/-! ### Waits -/

/-- The first time that there is a unit for a wait is after its `k`th yield. -/
structure FirstUnit (count : Nat) (script : List Nat) (k : Nat) : Prop where
  within : k ≤ script.length
  arrived : 0 < count + (script.take k).sum
  least : ∀ j < k, count + (script.take j).sum = 0

/-- How a wait goes that finds `count` units, and how many it leaves. -/
inductive Waited (count : Nat) (script : List Nat) : Option Nat → Nat → Prop
  | returned {k left : Nat} : FirstUnit count script k →
    left + 1 = count + delivered script (some k) → Waited count script (some k) left
  | blocked {left : Nat} : (∀ k, count + (script.take k).sum = 0) →
    left = count + delivered script none → Waited count script none left

variable {count n k left : Nat} {script : List Nat} {r : Option Nat}

theorem FirstUnit.zero (h : 0 < count) : FirstUnit count script 0 where
  within := Nat.zero_le _
  arrived := Nat.add_pos_left h _
  least := nofun

theorem FirstUnit.cons (h : FirstUnit n script k) : FirstUnit 0 (n :: script) (k + 1) where
  within := Nat.succ_le_succ h.within
  arrived := by simpa using h.arrived
  least j hj := by
    cases j with
    | zero => rfl
    | succ j => simpa using h.least j (Nat.lt_of_succ_lt_succ hj)

theorem Waited.cons (h : Waited n script r left) :
    Waited 0 (n :: script) (r.map (· + 1)) left := by
  cases h with
  | returned hfirst hleft => exact .returned hfirst.cons (by simpa [delivered] using hleft)
  | blocked hnever hleft =>
    refine .blocked (fun k => ?_) (by simpa [delivered] using hleft)
    cases k with
    | zero => rfl
    | succ k => simpa using hnever k

theorem delivered_cons (n : Nat) (script : List Nat) (r : Option Nat) :
    delivered (n :: script) (r.map (· + 1)) = n + delivered script r := by
  cases r <;> simp [delivered]

namespace Place

variable {place : Place σ} {s t : σ} {call : Call} {calls : List Call}

theorem units_up (h : place.units s + 1 < UInt64.size) :
    place.units (place.up s) = place.units s + 1 := by
  rw [units, up, sem_put]
  exact toNat_count_up h

theorem units_ups (h : place.units s + n < UInt64.size) :
    place.units (place.ups n s) = place.units s + n := by
  induction n generalizing s with
  | zero => rfl
  | succ n ih =>
    have hup : place.units (place.up s) = place.units s + 1 := units_up (by omega)
    rw [ups, ih (by omega), hup]
    omega

theorem take_eq_none_iff : place.take s = none ↔ place.units s = 0 := by
  rw [take, Option.map_eq_none_iff, tryDown_eq_none_iff, ← UInt64.toNat_inj]
  rfl

theorem units_of_take (h : place.take s = some t) : place.units t + 1 = place.units s := by
  obtain ⟨x, hx, rfl⟩ := Option.map_eq_some_iff.1 h
  rw [units, sem_put]
  exact (toNat_count_of_tryDown hx).1

theorem waited_of_take (h : place.take s = some t) :
    Waited (place.units s) script (some 0) (place.units t) := by
  have hunits := units_of_take h
  exact .returned (.zero (by omega)) (by simpa [delivered] using hunits)

theorem waited_await (hawait : await place.take (script.map place.ups) s = (r, t))
    (hroom : place.units s + delivered script r < UInt64.size) :
    Waited (place.units s) script r (place.units t) := by
  induction script generalizing s r with
  | nil =>
    cases htake : place.take s with
    | some u =>
      simp only [List.map_nil, await, htake] at hawait
      cases hawait
      exact waited_of_take htake
    | none =>
      simp only [List.map_nil, await, htake] at hawait
      cases hawait
      have hzero := take_eq_none_iff.1 htake
      exact .blocked (by simpa using hzero) rfl
  | cons n script ih =>
    cases htake : place.take s with
    | some u =>
      simp only [List.map_cons, await, htake] at hawait
      cases hawait
      exact waited_of_take htake
    | none =>
      -- A wait yields only while there is no unit, so after a yield there is what the yield gave.
      have hzero := take_eq_none_iff.1 htake
      simp only [List.map_cons, await, htake] at hawait
      cases hawait
      rw [hzero, delivered_cons] at hroom
      have hunits : place.units (place.ups n s) = n := by rw [units_ups (by omega), hzero]; omega
      have hwait := ih (s := place.ups n s) rfl (by omega)
      rw [hunits] at hwait
      rw [hzero]
      exact hwait.cons

theorem units_enter (s : σ) : place.units (place.enter s) = place.units s := by
  simp only [units, enter, sem_put, Semaphore.enter]
  split
  · rw [sem_report]
  · rfl

theorem units_leave (s : σ) : place.units (place.leave s) = place.units s := by
  simp only [units, leave, sem_put, Semaphore.leave]

theorem down_eq (place : Place σ) (script : List (σ → σ)) (s : σ) :
    down place.sem place.put place.report script s =
      match place.take s with
      | some t => (some 0, t)
      | none =>
        match await place.take script (place.enter s) with
        | (some yields, t) => (some yields, place.leave t)
        | (none, t) => (none, t) := rfl

theorem waited_down
    (hdown : down place.sem place.put place.report (script.map place.ups) s = (r, t))
    (hroom : place.units s + delivered script r < UInt64.size) :
    Waited (place.units s) script r (place.units t) := by
  rw [down_eq] at hdown
  cases htake : place.take s with
  | some u =>
    rw [htake] at hdown
    cases hdown
    exact waited_of_take htake
  | none =>
    rw [htake] at hdown
    rw [← units_enter s] at hroom ⊢
    rcases hawait : await place.take (script.map place.ups) (place.enter s) with ⟨_ | yields, u⟩
    · rw [hawait] at hdown
      cases hdown
      exact waited_await hawait hroom
    · rw [hawait] at hdown
      cases hdown
      rw [units_leave]
      exact waited_await hawait hroom

end Place

/-! ### Calls -/

/-- What a call gives that finds `count` units. -/
inductive Gives (count : Nat) : Call → Answer → Prop
  | given : Gives count .up .given
  | took : 0 < count → Gives count .tryDown (.tried true)
  | refused : count = 0 → Gives count .tryDown (.tried false)
  | returned {script : List Nat} {k : Nat} : FirstUnit count script k →
    Gives count (.down script) (.returned k)
  | blocked {script : List Nat} : (¬ ∃ k, FirstUnit count script k) →
    Gives count (.down script) .blocked

def givenIn (history : List (Call × Answer)) : Nat := (history.map given).sum

def takenIn (history : List (Call × Answer)) : Nat := (history.map taken).sum

namespace Place

variable {place : Place σ} {s t : σ} {call : Call} {calls : List Call} {answer : Answer}

/-- What one call does. -/
theorem step_conserves (hstep : place.step call s = (answer, t))
    (hroom : place.units s + given (call, answer) < UInt64.size) :
    Gives (place.units s) call answer ∧
      place.units t + taken (call, answer) = place.units s + given (call, answer) := by
  cases call with
  | up =>
    cases hstep
    exact ⟨.given, units_up hroom⟩
  | tryDown =>
    rw [step] at hstep
    cases htake : place.take s with
    | some u =>
      rw [htake] at hstep
      cases hstep
      have hunits := units_of_take htake
      exact ⟨.took (by omega), hunits⟩
    | none =>
      rw [htake] at hstep
      cases hstep
      exact ⟨.refused (take_eq_none_iff.1 htake), rfl⟩
  | down script =>
    rw [step] at hstep
    rcases hdown : down place.sem place.put place.report (script.map place.ups) s with ⟨_ | k, u⟩
    · rw [hdown] at hstep
      cases hstep
      cases waited_down hdown hroom with
      | blocked hnever hleft =>
        refine ⟨.blocked ?_, hleft⟩
        rintro ⟨k, hfirst⟩
        exact absurd (hnever k) (Nat.ne_of_gt hfirst.arrived)
    · rw [hdown] at hstep
      cases hstep
      cases waited_down hdown hroom with
      | returned hfirst hleft => exact ⟨.returned hfirst, hleft⟩

theorem run_conserves (calls : List Call) (s : σ)
    (hroom : place.units s + givenIn (place.run calls s).1 < UInt64.size) :
    place.units (place.run calls s).2 + takenIn (place.run calls s).1 =
      place.units s + givenIn (place.run calls s).1 := by
  induction calls generalizing s with
  | nil => rfl
  | cons call calls ih =>
    rcases hstep : place.step call s with ⟨answer, t⟩
    simp only [run, hstep, givenIn, takenIn, List.map_cons, List.sum_cons] at hroom ih ⊢
    obtain ⟨-, hconserves⟩ := step_conserves hstep (by omega)
    have hrest := ih t (by omega)
    omega

/-- After every call the semaphore has the units that it had and those that it was given, but not
those that were taken. A try takes a unit if there is one, and a wait returns with the first unit
that there is. -/
theorem units_conserved (place : Place σ) (calls : List Call) (s : σ)
    (hroom : place.units s + givenIn (place.run calls s).1 < UInt64.size) :
    (∀ pre post, calls = pre ++ post →
        place.units (place.run pre s).2 + takenIn (place.run pre s).1 =
          place.units s + givenIn (place.run pre s).1) ∧
      ∀ pre call post, calls = pre ++ call :: post →
        Gives (place.units (place.run pre s).2) call (place.step call (place.run pre s).2).1 := by
  have hprefix (pre post : List Call) (hcalls : calls = pre ++ post) :
      givenIn (place.run calls s).1 =
        givenIn (place.run pre s).1 + givenIn (place.run post (place.run pre s).2).1 := by
    simp only [hcalls, run_append, givenIn, List.map_append, List.sum_append]
  have hconserves (pre post : List Call) (hcalls : calls = pre ++ post) :
      place.units (place.run pre s).2 + takenIn (place.run pre s).1 =
        place.units s + givenIn (place.run pre s).1 := by
    have := hprefix pre post hcalls
    exact run_conserves pre s (by omega)
  refine ⟨hconserves, fun pre call post hcalls => ?_⟩
  have hunits := hconserves pre (call :: post) hcalls
  have hgiven := hprefix pre (call :: post) hcalls
  rcases hstep : place.step call (place.run pre s).2 with ⟨answer, t⟩
  simp only [run, hstep, givenIn, List.map_cons, List.sum_cons] at hunits hgiven hroom
  exact (step_conserves hstep (by omega)).1

/-- A semaphore beside its log. -/
def logged : Place (Semaphore × Array Event) where
  sem := Prod.fst
  put x s := (x, s.2)
  report e s := (s.1, s.2.push e)
  sem_put _ _ := rfl
  sem_report _ _ := rfl

/-- Two units come during the last yield of a wait. One of them is left for a later call. -/
theorem units_conserved_logged :
    (logged.run [.down [0, 2], .tryDown, .down [0, 0]] ({}, #[])).1 =
        [(.down [0, 2], .returned 2), (.tryDown, .tried true), (.down [0, 0], .blocked)] ∧
      logged.units ({}, #[]) +
          givenIn (logged.run [.down [0, 2], .tryDown, .down [0, 0]] ({}, #[])).1 < UInt64.size ∧
      ∀ pre post, [.down [0, 2], .tryDown, .down [0, 0]] = pre ++ post →
        logged.units (logged.run pre ({}, #[])).2 + takenIn (logged.run pre ({}, #[])).1 =
          logged.units ({}, #[]) + givenIn (logged.run pre ({}, #[])).1 :=
  ⟨by decide, by decide,
    (units_conserved logged [.down [0, 2], .tryDown, .down [0, 0]] ({}, #[]) (by decide)).1⟩

end Place

end Semaphore

end UnixCore
