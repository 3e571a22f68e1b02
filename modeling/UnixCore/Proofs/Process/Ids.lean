import UnixCore.Process.Table

/-! The ids of processes go round: after the highest one comes the lowest. A table gives out the
first free id from its counter on. -/

namespace UnixCore

theorem ProcessTable.pidCount_eq : pidCount = 32766 := rfl

namespace Pid

open ProcessTable

def InRange (pid : Pid) : Prop := lowest ≤ pid ∧ pid ≤ highest

/-- The id `n` places behind another, going round. -/
def ahead (pid : Pid) (n : Nat) : Pid :=
  .ofNat (lowest.toNat + (pid.toNat - lowest.toNat + n) % pidCount)

variable {pid i : Pid}

theorem inRange_iff : pid.InRange ↔ 2 ≤ pid.toNat ∧ pid.toNat ≤ 32767 := by
  rw [InRange, UInt32.le_iff_toNat_le, UInt32.le_iff_toNat_le]
  rfl

theorem toNat_ahead (pid : Pid) (n : Nat) :
    (pid.ahead n).toNat = 2 + (pid.toNat - 2 + n) % 32766 := by
  have hlt : (pid.toNat - 2 + n) % 32766 < 32766 := Nat.mod_lt _ (by decide)
  exact UInt32.toNat_ofNat_of_lt' (show 2 + (pid.toNat - 2 + n) % 32766 < 2 ^ 32 by omega)

theorem inRange_ahead (pid : Pid) (n : Nat) : (pid.ahead n).InRange := by
  rw [inRange_iff, toNat_ahead]
  omega

theorem ahead_zero (h : pid.InRange) : pid.ahead 0 = pid := by
  rw [inRange_iff] at h
  rw [← UInt32.toNat_inj, toNat_ahead]
  omega

theorem ahead_ahead (pid : Pid) (m n : Nat) : (pid.ahead m).ahead n = pid.ahead (m + n) := by
  rw [← UInt32.toNat_inj, toNat_ahead, toNat_ahead, toNat_ahead]
  omega

/-- Going on from an id, one is back only after a whole turn. -/
theorem ahead_eq_self_iff (h : pid.InRange) (n : Nat) : pid.ahead n = pid ↔ pidCount ∣ n := by
  rw [inRange_iff] at h
  rw [← UInt32.toNat_inj, toNat_ahead, pidCount_eq]
  omega

theorem ahead_inj {m n : Nat} (hm : m < pidCount) (hn : n < pidCount)
    (h : pid.ahead m = pid.ahead n) : m = n := by
  rw [← UInt32.toNat_inj, toNat_ahead, toNat_ahead] at h
  rw [pidCount_eq] at hm hn
  omega

/-- The places from an id on are the id itself and those from the next id on. -/
theorem forall_ahead_succ (h : pid.InRange) {P : Pid → Prop} {n : Nat} :
    (∀ m < n + 1, P (pid.ahead m)) ↔ P pid ∧ ∀ m < n, P ((pid.ahead 1).ahead m) := by
  simp only [ahead_ahead, Nat.add_comm 1]
  refine ⟨fun hall => ⟨ahead_zero h ▸ hall 0 (Nat.succ_pos n), fun m hm => ?_⟩,
    fun ⟨hpid, hall⟩ m hm => ?_⟩
  · exact hall (m + 1) (Nat.succ_lt_succ hm)
  · cases m with
    | zero => rwa [ahead_zero h]
    | succ m => exact hall m (Nat.lt_of_succ_lt_succ hm)

/-- In one turn every id comes up. -/
theorem exists_ahead (h : pid.InRange) (hi : i.InRange) : ∃ n < pidCount, i = pid.ahead n := by
  rw [inRange_iff] at h hi
  refine ⟨(i.toNat + 32766 - pid.toNat) % 32766, Nat.mod_lt _ (by decide), ?_⟩
  rw [← UInt32.toNat_inj, toNat_ahead]
  omega

end Pid

namespace ProcessTable

variable {α : Type} {entries : Std.TreeMap Pid α} {t t' : ProcessTable α} {make : Pid → α}
  {pid i : Pid} {left : Nat}

theorem toNat_following (h : pid.toNat < Pid.highest.toNat) :
    (following pid).toNat = pid.toNat + 1 := by
  have hhighest : Pid.highest.toNat = 32767 := rfl
  have hle : ¬ Pid.highest ≤ pid := by
    rw [UInt32.le_iff_toNat_le]
    omega
  rw [following, if_neg hle, UInt32.toNat_add, UInt32.toNat_one]
  omega

theorem following_eq_ahead (h : pid.InRange) : following pid = pid.ahead 1 := by
  rw [Pid.inRange_iff] at h
  have hhighest : Pid.highest.toNat = 32767 := rfl
  rw [← UInt32.toNat_inj, Pid.toNat_ahead]
  by_cases hlt : pid.toNat < 32767
  · rw [toNat_following hlt]
    omega
  · have hle : Pid.highest ≤ pid := by
      rw [UInt32.le_iff_toNat_le]
      omega
    rw [following, if_pos hle, show Pid.lowest.toNat = 2 from rfl]
    omega

/-! ### The search for a free id -/

theorem search_eq_none_iff (h : pid.InRange) :
    search entries left pid = none ↔ ∀ n < left, pid.ahead n ∈ entries := by
  induction left generalizing pid with
  | zero => simp [search]
  | succ left ih =>
    rw [Pid.forall_ahead_succ h, search]
    split
    case isTrue htaken =>
      rw [following_eq_ahead h, ih (pid.inRange_ahead 1)]
      exact ⟨fun hall => ⟨htaken, hall⟩, fun hall => hall.2⟩
    case isFalse hfree => exact ⟨nofun, fun hall => (hfree hall.1).elim⟩

/-- What is found is some places from the start, and all that was passed over is taken. -/
theorem exists_ahead_of_search (h : pid.InRange) (hsearch : search entries left pid = some i) :
    ∃ n < left, i = pid.ahead n ∧ ∀ m < n, pid.ahead m ∈ entries := by
  induction left generalizing pid with
  | zero => cases hsearch
  | succ left ih =>
    rw [search] at hsearch
    split at hsearch
    case isTrue htaken =>
      rw [following_eq_ahead h] at hsearch
      obtain ⟨n, hn, hi, hall⟩ := ih (pid.inRange_ahead 1) hsearch
      refine ⟨n + 1, Nat.succ_lt_succ hn, ?_, (Pid.forall_ahead_succ h).2 ⟨htaken, hall⟩⟩
      rw [hi, Pid.ahead_ahead, Nat.add_comm]
    case isFalse =>
      cases hsearch
      exact ⟨0, Nat.succ_pos _, (Pid.ahead_zero h).symm, nofun⟩

theorem get?_of_search (h : search entries left pid = some i) : entries[i]? = none := by
  induction left generalizing pid with
  | zero => cases h
  | succ left ih =>
    rw [search] at h
    split at h
    case isTrue => exact ih h
    case isFalse hfree =>
      cases h
      exact Std.TreeMap.getElem?_eq_none_of_contains_eq_false (Bool.of_not_eq_true hfree)

/-! ### Creation -/

/-- All that a creation that succeeds does. -/
theorem create_eq_ok_iff : t.create make = .ok (pid, t') ↔
    t.size < t.capacity ∧ search t.entries pidCount t.nextPid = some pid ∧
      t' = { t with entries := t.entries.insert pid (make pid), nextPid := following pid } := by
  unfold create
  split
  case isTrue hfull => exact ⟨nofun, fun h => (Nat.not_lt_of_le hfull h.1).elim⟩
  case isFalse hroom =>
    cases search t.entries pidCount t.nextPid with
    | none => simp
    | some i =>
      simp only [Except.ok.injEq, Prod.mk.injEq, Option.some.injEq]
      constructor
      · rintro ⟨rfl, rfl⟩
        exact ⟨Nat.lt_of_not_le hroom, rfl, rfl⟩
      · rintro ⟨-, rfl, rfl⟩
        exact ⟨rfl, rfl⟩

theorem create_eq_error_iff {e : Errno} : t.create make = .error e ↔ e = .tooManyProcesses ∧
    (t.capacity ≤ t.size ∨ search t.entries pidCount t.nextPid = none) := by
  unfold create
  split
  case isTrue hfull => simp [hfull, eq_comm]
  case isFalse hroom => cases search t.entries pidCount t.nextPid <;> simp [hroom, eq_comm]

theorem get?_eq_none_of_create (h : t.create make = .ok (pid, t')) : t.get? pid = none :=
  get?_of_search (create_eq_ok_iff.1 h).2.1

theorem nextPid_of_create (h : t.create make = .ok (pid, t')) : t'.nextPid = following pid := by
  obtain ⟨-, -, rfl⟩ := create_eq_ok_iff.1 h
  rfl

theorem contains_eq_false_of_get? (h : t.get? i = none) : t.entries.contains i = false := by
  rw [get?, ← Option.not_isSome_iff_eq_none, Std.TreeMap.isSome_getElem?_iff_mem] at h
  exact Bool.of_not_eq_true h

theorem size_remove_of_create (h : t.create make = .ok (pid, t')) :
    (t'.remove pid).size = t.size ∧ (t'.remove pid).capacity = t.capacity := by
  have hfree := contains_eq_false_of_get? (get?_eq_none_of_create h)
  obtain ⟨-, -, rfl⟩ := create_eq_ok_iff.1 h
  refine ⟨?_, rfl⟩
  simp only [remove, size, Std.TreeMap.size_erase, Std.TreeMap.size_insert]
  simp [hfree]

/-- An id that was given out and unregistered again is as free as it was before. -/
theorem get?_remove_of_create (h : t.create make = .ok (pid, t')) (i : Pid) :
    (t'.remove pid).get? i = t.get? i := by
  rw [get?_remove, get?_create h]
  split
  case isTrue heq => rw [heq, get?_eq_none_of_create h]
  case isFalse => rfl

/-! ### The registered ids -/

theorem mem_pids : pid ∈ t.pids ↔ pid ∈ t.entries := Std.TreeMap.mem_keys

theorem length_pids (t : ProcessTable α) : t.pids.length = t.size := Std.TreeMap.length_keys

theorem nodup_pids (t : ProcessTable α) : t.pids.Nodup := Std.TreeMap.nodup_keys

theorem pids_eq (h : ∀ pid, t.get? pid = t'.get? pid) : t.pids = t'.pids :=
  Std.TreeMap.Equiv.keys_eq (Std.TreeMap.Equiv.of_forall_constGet?_eq h)

end ProcessTable

end UnixCore
