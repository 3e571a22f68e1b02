import Mathlib.Data.List.Nodup
import Mathlib.Data.List.Perm.Subperm
import UnixCore.Proofs.Process.Ids

/-! The ids that a process table gives out over any sequence of creations and removals. An id that
was given out comes up again only after the counter has gone round, and what the counter passes over
on its way was registered when the id was given out or was created since. -/

namespace UnixCore

namespace ProcessTable

variable {α : Type}

inductive Request (α : Type)
  | create (make : Pid → α)
  | remove (pid : Pid)

/-- Processes are created and unregistered. Gives the ids that were given out, in order, and the
table in the end. A creation that fails leaves the table as it is. -/
def run : (requests : List (Request α)) → ProcessTable α → List Pid × ProcessTable α
  | [], t => ([], t)
  | .create make :: requests, t =>
    match t.create make with
    | .ok (pid, t) =>
      let (given, t) := run requests t
      (pid :: given, t)
    | .error _ => run requests t
  | .remove pid :: requests, t => run requests (t.remove pid)

/-- There is no room for one more process, or no id. -/
def Full (t : ProcessTable α) : Prop :=
  t.capacity ≤ t.pids.length ∨ ∀ pid : Pid, pid.InRange → pid ∈ t.pids

/-- The first free id, going round from the counter on. -/
structure FirstFree (t : ProcessTable α) (pid : Pid) : Prop where
  free : pid ∉ t.pids
  first : ∃ n < pidCount, pid = t.nextPid.ahead n ∧ ∀ m < n, t.nextPid.ahead m ∈ t.pids

/-- What holds of a table of some capacity after some requests, in which it gave out some ids. -/
structure Allocates (capacity : Nat) (requests : List (Request α)) (given : List Pid)
    (t : ProcessTable α) : Prop where
  refuses : ∀ make, (∃ e, t.create make = .error e) ↔ t.Full
  error : ∀ make e, t.create make = .error e → e = .tooManyProcesses
  gives : ∀ make pid t', t.create make = .ok (pid, t') →
    t.FirstFree pid ∧ ∀ i, t'.get? i = if i = pid then some (make pid) else t.get? i
  /-- What is registered under an id was made for this id. -/
  made : ∀ pid a, t.get? pid = some a → ∃ make, .create make ∈ requests ∧ a = make pid
  inRange : ∀ pid ∈ t.pids, pid.InRange
  distinct : t.pids.Nodup
  room : t.capacity = capacity
  bounded : t.pids.length ≤ capacity
  /-- Between two creations that give the same id there are so many others. -/
  late : ∀ before between after pid, given = before ++ pid :: (between ++ pid :: after) →
    pidCount - capacity ≤ between.length

variable {t t' : ProcessTable α} {make : Pid → α} {pid i : Pid} {requests : List (Request α)}

/-! ### One request -/

/-- The counter and the registered ids are in range, and there are not too many of them. -/
structure Sound (t : ProcessTable α) : Prop where
  nextPid : t.nextPid.InRange
  inRange : ∀ pid ∈ t.pids, pid.InRange
  bounded : t.pids.length ≤ t.capacity

theorem mem_pids_iff_get? : pid ∈ t.pids ↔ t.get? pid ≠ none := by
  rw [mem_pids, get?, ne_eq, ← Option.not_isSome_iff_eq_none, Std.TreeMap.isSome_getElem?_iff_mem,
    Decidable.not_not]

theorem mem_pids_create (h : t.create make = .ok (pid, t')) :
    i ∈ t'.pids ↔ i = pid ∨ i ∈ t.pids := by
  rw [mem_pids_iff_get?, mem_pids_iff_get?, get?_create h]
  by_cases hi : i = pid <;> simp [hi]

theorem mem_pids_remove : i ∈ (t.remove pid).pids ↔ i ≠ pid ∧ i ∈ t.pids := by
  rw [mem_pids_iff_get?, mem_pids_iff_get?, get?_remove]
  by_cases hi : i = pid <;> simp [hi]

theorem Sound.firstFree (h : t.Sound) (hcreate : t.create make = .ok (pid, t')) :
    t.FirstFree pid := by
  refine ⟨fun hmem => mem_pids_iff_get?.1 hmem (get?_eq_none_of_create hcreate), ?_⟩
  obtain ⟨n, hn, hpid, htaken⟩ :=
    exists_ahead_of_search h.nextPid (create_eq_ok_iff.1 hcreate).2.1
  exact ⟨n, hn, hpid, fun m hm => mem_pids.2 (htaken m hm)⟩

theorem Sound.full_iff (h : t.Sound) : (∃ e, t.create make = .error e) ↔ t.Full := by
  have hall : (∀ n < pidCount, t.nextPid.ahead n ∈ t.entries) ↔
      ∀ pid : Pid, pid.InRange → pid ∈ t.pids := by
    refine ⟨fun htaken pid hpid => ?_, fun htaken n _ => ?_⟩
    · obtain ⟨n, hn, rfl⟩ := Pid.exists_ahead h.nextPid hpid
      exact mem_pids.2 (htaken n hn)
    · exact mem_pids.1 (htaken _ (t.nextPid.inRange_ahead n))
  simp only [create_eq_error_iff, exists_eq_left, search_eq_none_iff h.nextPid, hall, Full,
    length_pids]

theorem Sound.create (h : t.Sound) (hcreate : t.create make = .ok (pid, t')) : t'.Sound := by
  obtain ⟨n, -, hpid, -⟩ := (h.firstFree hcreate).first
  have hrange : pid.InRange := hpid ▸ t.nextPid.inRange_ahead n
  refine ⟨?_, fun i hi => ?_, ?_⟩
  · rw [nextPid_of_create hcreate, following_eq_ahead hrange]
    exact pid.inRange_ahead 1
  · rcases (mem_pids_create hcreate).1 hi with rfl | hi
    · exact hrange
    · exact h.inRange i hi
  · obtain ⟨hroom, -, rfl⟩ := create_eq_ok_iff.1 hcreate
    rw [length_pids]
    exact Nat.le_trans Std.TreeMap.size_insert_le hroom

theorem Sound.remove (h : t.Sound) (pid : Pid) : (t.remove pid).Sound := by
  refine ⟨h.nextPid, fun i hi => h.inRange i (mem_pids_remove.1 hi).2, ?_⟩
  have hle : (t.remove pid).size ≤ t.size := Std.TreeMap.size_erase_le
  rw [length_pids]
  exact Nat.le_trans hle (length_pids t ▸ h.bounded)

theorem Sound.empty (capacity : Nat) : ({ capacity } : ProcessTable α).Sound :=
  ⟨Pid.inRange_iff.2 ⟨Nat.le_refl 2, Nat.le_of_ble_eq_true rfl⟩,
    fun pid hpid => by simp [mem_pids] at hpid, by simp [length_pids, size]⟩

/-! ### Until an id comes up again -/

/-- Since `pid` was given out the counter has moved on, over nothing but the ids `past`. They have
all been registered since then. -/
structure PassedOver (pid : Pid) (past : List Pid) (t : ProcessTable α) : Prop where
  nextPid : ∃ n, 0 < n ∧ t.nextPid = pid.ahead n ∧ ∀ m < n, pid.ahead m ∈ past
  registered : ∀ i ∈ t.pids, i ∈ past

theorem PassedOver.given (h : t.Sound) (hcreate : t.create make = .ok (pid, t')) :
    PassedOver pid t'.pids t' := by
  have hmem : pid ∈ t'.pids := (mem_pids_create hcreate).2 (.inl rfl)
  have hrange := (h.create hcreate).inRange pid hmem
  refine ⟨⟨1, Nat.one_pos, ?_, fun m hm => ?_⟩, fun i hi => hi⟩
  · rw [nextPid_of_create hcreate, following_eq_ahead hrange]
  · rwa [Nat.lt_one_iff.1 hm, Pid.ahead_zero hrange]

theorem PassedOver.remove {past : List Pid} (h : PassedOver pid past t) (i : Pid) :
    PassedOver pid past (t.remove i) :=
  ⟨h.nextPid, fun j hj => h.registered j (mem_pids_remove.1 hj).2⟩

/-- The counter goes over what is registered up to the id that it gives out. -/
theorem PassedOver.exists_ahead {past : List Pid} (h : PassedOver pid past t) (hsound : t.Sound)
    (hcreate : t.create make = .ok (i, t')) :
    ∃ n, 0 < n ∧ i = pid.ahead n ∧ ∀ m < n, pid.ahead m ∈ past := by
  obtain ⟨n, hpos, hnext, hpast⟩ := h.nextPid
  obtain ⟨l, -, hi, htaken⟩ := (hsound.firstFree hcreate).first
  rw [hnext, Pid.ahead_ahead] at hi
  refine ⟨n + l, Nat.add_pos_left hpos l, hi, fun m hm => ?_⟩
  by_cases hmn : m < n
  · exact hpast m hmn
  · have htaken := htaken (m - n) (by omega)
    rw [hnext, Pid.ahead_ahead, Nat.add_sub_cancel' (Nat.le_of_not_lt hmn)] at htaken
    exact h.registered _ htaken

theorem PassedOver.create {past : List Pid} (h : PassedOver pid past t) (hsound : t.Sound)
    (hcreate : t.create make = .ok (i, t')) : PassedOver pid (past ++ [i]) t' := by
  obtain ⟨n, hpos, hi, hpast⟩ := h.exists_ahead hsound hcreate
  refine ⟨⟨n + 1, Nat.succ_pos n, ?_, fun m hm => ?_⟩, fun j hj => ?_⟩
  · have hrange : i.InRange := hi ▸ pid.inRange_ahead n
    rw [nextPid_of_create hcreate, following_eq_ahead hrange, hi, Pid.ahead_ahead]
  · rcases Nat.lt_succ_iff_lt_or_eq.1 hm with hm | rfl
    · exact List.mem_append_left _ (hpast m hm)
    · exact List.mem_append_right _ (List.mem_singleton.2 hi.symm)
  · rcases (mem_pids_create hcreate).1 hj with rfl | hj
    · exact List.mem_append_right _ (List.mem_singleton_self _)
    · exact List.mem_append_left _ (h.registered j hj)

/-- When the id is given out again, all ids have been passed over. -/
theorem PassedOver.pidCount_le {past : List Pid} (h : PassedOver pid past t) (hsound : t.Sound)
    (hrange : pid.InRange) (hcreate : t.create make = .ok (pid, t')) : pidCount ≤ past.length := by
  obtain ⟨n, hpos, hpid, hpast⟩ := h.exists_ahead hsound hcreate
  have hturn : pidCount ≤ n :=
    Nat.le_of_dvd hpos ((Pid.ahead_eq_self_iff hrange n).1 hpid.symm)
  have hnodup : ((List.range pidCount).map pid.ahead).Nodup :=
    List.Nodup.map_on (fun m hm l hl heq => Pid.ahead_inj (List.mem_range.1 hm)
      (List.mem_range.1 hl) heq) List.nodup_range
  have hsubset : (List.range pidCount).map pid.ahead ⊆ past := by
    intro i hi
    obtain ⟨m, hm, rfl⟩ := List.mem_map.1 hi
    exact hpast m (Nat.lt_of_lt_of_le (List.mem_range.1 hm) hturn)
  have hlength := (hnodup.subperm hsubset).length_le
  rwa [List.length_map, List.length_range] at hlength

theorem PassedOver.le_of_run {past between after : List Pid} (h : PassedOver pid past t)
    (hsound : t.Sound) (hrange : pid.InRange)
    (hgiven : (run requests t).1 = between ++ pid :: after) :
    pidCount ≤ past.length + between.length := by
  induction requests generalizing t past between with
  | nil => simp [run] at hgiven
  | cons request requests ih =>
    cases request with
    | remove i => exact ih (h.remove i) (hsound.remove i) hgiven
    | create make =>
      rw [run] at hgiven
      cases hcreate : t.create make with
      | error e =>
        rw [hcreate] at hgiven
        exact ih h hsound hgiven
      | ok r =>
        obtain ⟨i, t'⟩ := r
        rw [hcreate] at hgiven
        cases between with
        | nil =>
          obtain ⟨rfl, -⟩ := List.cons.inj hgiven
          exact h.pidCount_le hsound hrange hcreate
        | cons j between =>
          obtain ⟨rfl, hrest⟩ := List.cons.inj hgiven
          have hle := ih (h.create hsound hcreate) (hsound.create hcreate) hrest
          simp only [List.length_append, List.length_cons, List.length_nil] at hle ⊢
          omega

/-! ### Runs -/

theorem Sound.le_of_run {before between after : List Pid} (h : t.Sound)
    (hgiven : (run requests t).1 = before ++ pid :: (between ++ pid :: after)) :
    pidCount ≤ t.capacity + between.length := by
  induction requests generalizing t before with
  | nil => simp [run] at hgiven
  | cons request requests ih =>
    cases request with
    | remove i => exact ih (t := t.remove i) (h.remove i) hgiven
    | create make =>
      rw [run] at hgiven
      cases hcreate : t.create make with
      | error e =>
        rw [hcreate] at hgiven
        exact ih h hgiven
      | ok r =>
        obtain ⟨i, t'⟩ := r
        rw [hcreate] at hgiven
        have hsound := h.create hcreate
        have hcapacity : t'.capacity = t.capacity := by
          obtain ⟨-, -, rfl⟩ := create_eq_ok_iff.1 hcreate
          rfl
        rw [← hcapacity]
        cases before with
        | nil =>
          obtain ⟨rfl, hrest⟩ := List.cons.inj hgiven
          have hmem : i ∈ t'.pids := (mem_pids_create hcreate).2 (.inl rfl)
          have hle := (PassedOver.given h hcreate).le_of_run hsound (hsound.inRange i hmem) hrest
          exact Nat.le_trans hle (Nat.add_le_add_right hsound.bounded _)
        | cons j before =>
          exact ih hsound (List.cons.inj hgiven).2

/-- What is kept by every creation and every removal is kept by a run. -/
theorem run_preserves {P : ProcessTable α → Prop}
    (hcreate : ∀ make t pid t', .create make ∈ requests → P t →
      t.create make = .ok (pid, t') → P t')
    (hremove : ∀ t pid, P t → P (t.remove pid)) (h : P t) : P (run requests t).2 := by
  induction requests generalizing t with
  | nil => exact h
  | cons request requests ih =>
    have hrest {t : ProcessTable α} (h : P t) : P (run requests t).2 :=
      ih (fun make t pid t' hmem => hcreate make t pid t' (List.mem_cons_of_mem _ hmem)) h
    cases request with
    | remove i => exact hrest (hremove t i h)
    | create make =>
      rw [run]
      cases hrun : t.create make with
      | error e => exact hrest h
      | ok r => exact hrest (hcreate make t r.1 r.2 List.mem_cons_self h hrun)

/-- After any creations and removals a creation fails exactly if the table is full, and gives the
first free id otherwise; the registered ids are different ones and in range and not more than the
capacity; and no id was given out again early. -/
theorem ids_go_round (capacity : Nat) (requests : List (Request α)) :
    Allocates capacity requests (run requests { capacity }).1 (run requests { capacity }).2 := by
  have hsound : (run requests ({ capacity } : ProcessTable α)).2.Sound :=
    run_preserves (fun _ _ _ _ _ h hcreate => h.create hcreate) (fun _ i h => h.remove i)
      (.empty capacity)
  have hcapacity : (run requests ({ capacity } : ProcessTable α)).2.capacity = capacity := by
    refine run_preserves (P := fun t => t.capacity = capacity) (fun _ t _ t' _ h hcreate => ?_)
      (fun _ _ h => h) rfl
    obtain ⟨-, -, rfl⟩ := create_eq_ok_iff.1 hcreate
    exact h
  have hmade : ∀ pid a, (run requests ({ capacity } : ProcessTable α)).2.get? pid = some a →
      ∃ make, .create make ∈ requests ∧ a = make pid := by
    refine run_preserves (P := fun t => ∀ pid a, t.get? pid = some a →
      ∃ make, .create make ∈ requests ∧ a = make pid) ?_ ?_ ?_
    · intro make t pid t' hmem h hcreate i a ha
      rw [get?_create hcreate] at ha
      split at ha
      case isTrue heq =>
        subst heq
        exact ⟨make, hmem, (Option.some.inj ha).symm⟩
      case isFalse => exact h i a ha
    · intro t pid h i a ha
      rw [get?_remove] at ha
      split at ha
      · cases ha
      · exact h i a ha
    · intro pid a ha
      simp [get?] at ha
  refine ⟨fun _ => hsound.full_iff, fun _ e he => (create_eq_error_iff.1 he).1,
    fun make pid t' hcreate => ⟨hsound.firstFree hcreate, get?_create hcreate⟩, hmade,
    hsound.inRange, nodup_pids _, hcapacity, Nat.le_trans hsound.bounded (Nat.le_of_eq hcapacity),
    ?_⟩
  intro before between after pid hgiven
  have hle : pidCount ≤ capacity + between.length := (Sound.empty capacity).le_of_run hgiven
  omega

-- The id that was just given up is not the next one to be given out.
example : (run [.create id, .remove 2, .create id] { capacity := 4 }).1 = [2, 3] := by
  decide +kernel

end ProcessTable

end UnixCore
