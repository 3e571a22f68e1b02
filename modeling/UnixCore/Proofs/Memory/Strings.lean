import UnixCore.Proofs.Memory.Bytes

/-! Copies of strings out of one contiguous mapping. A copy looks at the bytes one after the other
and stops for the first of three reasons: the string ends, it has become too long, or there is no
byte where the next one should be, be it that the mapping ends or that the addresses do. -/

namespace UnixCore

namespace Mapping

open Bytewise

variable {m m' : Mapping} {a k n : Nat} {s : List UInt8} {r r' : Except Errno (List UInt8)}

/-- The byte at the place `a`, if `a` is an address at all and is mapped. -/
def reach? (m : Mapping) (a : Nat) : Option UInt8 :=
  if a < UInt64.size then m.byte? a else none

theorem reach?_eq_some_iff {b : UInt8} :
    m.reach? a = some b ↔ m.byte? a = some b ∧ a < UInt64.size := by
  rw [reach?, Option.ite_none_right_eq_some, and_comm]

/-- One byte is copied exactly if it is mapped. -/
theorem copyIn_byte (m : Mapping) (src : UserAddr) :
    UserMemory.copyIn m src 1 =
      match m.byte? src.toNat with
      | some b => .ok #v[b]
      | none => .error .badAddress := by
  cases hb : m.byte? src.toNat with
  | some b => exact copyIn_one_iff.2 hb
  | none =>
    simp only [UserMemory.copyIn]
    refine dif_neg fun hcovers => ?_
    obtain ⟨hle, hsize⟩ := hcovers
    rw [byte?_of_le hle, Array.getElem?_eq_none_iff] at hb
    omega

theorem copyInStrFrom_succ (m : Mapping) (src : UserAddr) (got : Array UInt8) (left : Nat) :
    UserMemory.copyInStrFrom m src got (left + 1) =
      match m.reach? (src.toNat + got.size) with
      | some b =>
        if b = 0 then .ok got.toList else UserMemory.copyInStrFrom m src (got.push b) left
      | none => .error .badAddress := by
  cases hadd : src.add got.size with
  | ok place =>
    have hlt := place.toNat_lt
    rw [reach?, ← UserAddr.add_eq_ok.1 hadd, if_pos hlt]
    have hcopy := copyIn_byte m place
    cases hb : m.byte? place.toNat with
    | some b =>
      rw [hb] at hcopy
      exact UserMemory.copyInStrFrom_of_byte hadd hcopy
    | none =>
      rw [hb] at hcopy
      simp only [UserMemory.copyInStrFrom, hadd, bind, Except.bind, hcopy]
  | error e =>
    obtain ⟨rfl, hover⟩ := UserAddr.add_eq_error.1 hadd
    rw [UserMemory.copyInStrFrom, hadd, reach?, if_neg (by omega)]
    rfl

/-! ### The ways a copy ends -/

/-- The `n` bytes from `a` on are all there, and none of them is zero. -/
def Unbroken (m : Mapping) (a n : Nat) : Prop := ∀ i < n, ∃ b ≠ 0, m.reach? (a + i) = some b

/-- A zero byte stands `k` places behind `a`, and everything up to it is mapped. -/
structure TerminatorAt (m : Mapping) (a k : Nat) : Prop where
  mapped : ∀ i ≤ k, ∃ b, m.reach? (a + i) = some b
  zero : m.reach? (a + k) = some 0

theorem unbroken_zero : m.Unbroken a 0 := fun _ hi => absurd hi (Nat.not_lt_zero _)

theorem unbroken_succ :
    m.Unbroken a (n + 1) ↔ (∃ b ≠ 0, m.reach? a = some b) ∧ m.Unbroken (a + 1) n := by
  constructor
  · intro h
    refine ⟨h 0 (Nat.succ_pos n), fun i hi => ?_⟩
    obtain ⟨b, hne, hb⟩ := h (i + 1) (Nat.succ_lt_succ hi)
    exact ⟨b, hne, by rwa [show a + 1 + i = a + (i + 1) by omega]⟩
  · rintro ⟨hfirst, hrest⟩ i hi
    cases i with
    | zero => exact hfirst
    | succ i =>
      obtain ⟨b, hne, hb⟩ := hrest i (Nat.lt_of_succ_lt_succ hi)
      exact ⟨b, hne, by rwa [show a + (i + 1) = a + 1 + i by omega]⟩

/-- No byte that a string goes on with stands `k` places behind `a`. -/
def StopAt (m : Mapping) (a k : Nat) : Prop := ∀ b, m.reach? (a + k) = some b → b = 0

theorem stopAt_of_zero (h : m.reach? (a + k) = some 0) : m.StopAt a k :=
  fun _ hb => Option.some.inj (hb.symm.trans h)

theorem stopAt_of_none (h : m.reach? (a + k) = none) : m.StopAt a k :=
  fun _ hb => absurd (h.symm.trans hb) nofun

theorem Unbroken.le_of_stopAt (h : m.Unbroken a n) (hstop : m.StopAt a k) : n ≤ k := by
  refine Nat.le_of_not_lt fun hlt => ?_
  obtain ⟨b, hne, hb⟩ := h k hlt
  exact hne (hstop b hb)

theorem Unbroken.eq_of_stopAt (h : m.Unbroken a n) (h' : m.Unbroken a k) (hstop : m.StopAt a n)
    (hstop' : m.StopAt a k) : n = k :=
  Nat.le_antisymm (h.le_of_stopAt hstop') (h'.le_of_stopAt hstop)

theorem stringAt_iff : StringAt m a s ↔
    m.Unbroken a s.length ∧ (∀ i (hi : i < s.length), m.reach? (a + i) = some s[i]) ∧
      m.reach? (a + s.length) = some 0 := by
  constructor
  · intro h
    have hbytes (i : Nat) (hi : i < s.length) : m.reach? (a + i) = some s[i] :=
      reach?_eq_some_iff.2 ⟨h.bytes i hi, Nat.lt_trans (Nat.add_lt_add_left hi a) h.bound⟩
    exact ⟨fun i hi => ⟨s[i], h.nonzero _ (List.getElem_mem hi), hbytes i hi⟩, hbytes,
      reach?_eq_some_iff.2 ⟨h.nul, h.bound⟩⟩
  · rintro ⟨hunbroken, hbytes, hzero⟩
    obtain ⟨hnul, hbound⟩ := reach?_eq_some_iff.1 hzero
    refine ⟨fun i hi => (reach?_eq_some_iff.1 (hbytes i hi)).1, hnul, fun b hb => ?_, hbound⟩
    obtain ⟨i, hi, rfl⟩ := List.getElem_of_mem hb
    obtain ⟨b', hne, hb'⟩ := hunbroken i hi
    rwa [Option.some.inj ((hbytes i hi).symm.trans hb')]

theorem stopAt_of_stringAt (h : StringAt m a s) : m.StopAt a s.length :=
  stopAt_of_zero (stringAt_iff.1 h).2.2

/-- The ways a copy of a string from `a` on ends that may take `left` bytes. -/
inductive Scanned (m : Mapping) (a left : Nat) : Except Errno (List UInt8) → Prop
  | terminated {s : List UInt8} : s.length < left → StringAt m a s → Scanned m a left (.ok s)
  | overlong : m.Unbroken a left → Scanned m a left (.error .nameTooLong)
  | unreachable {k : Nat} : k < left → m.Unbroken a k → m.reach? (a + k) = none →
    Scanned m a left (.error .badAddress)

theorem Scanned.cons {left : Nat} {b : UInt8} (h : Scanned m (a + 1) left r) (hne : b ≠ 0)
    (hb : m.reach? a = some b) : Scanned m a (left + 1) (r.map (b :: ·)) := by
  have hlonger {n : Nat} (hrest : m.Unbroken (a + 1) n) : m.Unbroken a (n + 1) :=
    unbroken_succ.2 ⟨⟨b, hne, hb⟩, hrest⟩
  cases h with
  | terminated hlt hstring =>
    obtain ⟨hbyte, hbound⟩ := reach?_eq_some_iff.1 hb
    exact .terminated (Nat.succ_lt_succ hlt) (stringAt_cons.2 ⟨hbyte, hne, hbound, hstring⟩)
  | overlong hunbroken => exact .overlong (hlonger hunbroken)
  | @unreachable k hlt hunbroken hnone =>
    exact .unreachable (Nat.succ_lt_succ hlt) (hlonger hunbroken)
      (by rwa [show a + (k + 1) = a + 1 + k by omega])

theorem scanned_copyInStrFrom (m : Mapping) (src : UserAddr) (got : Array UInt8) (left : Nat) :
    ∃ r, Scanned m (src.toNat + got.size) left r ∧
      UserMemory.copyInStrFrom m src got left = r.map (got.toList ++ ·) := by
  induction left generalizing got with
  | zero => exact ⟨_, .overlong unbroken_zero, rfl⟩
  | succ left ih =>
    rw [copyInStrFrom_succ]
    cases hb : m.reach? (src.toNat + got.size) with
    | none => exact ⟨_, .unreachable (Nat.succ_pos left) unbroken_zero hb, rfl⟩
    | some b =>
      dsimp only
      by_cases hzero : b = 0
      · rw [if_pos hzero]
        have hstring : StringAt m (src.toNat + got.size) [] :=
          stringAt_nil.2 (reach?_eq_some_iff.1 (hzero ▸ hb))
        refine ⟨_, .terminated (s := []) (Nat.succ_pos left) hstring, ?_⟩
        exact congrArg Except.ok (List.append_nil _).symm
      · rw [if_neg hzero]
        obtain ⟨r, hscan, hrun⟩ := ih (got.push b)
        rw [Array.size_push, ← Nat.add_assoc] at hscan
        refine ⟨_, hscan.cons hzero hb, hrun.trans ?_⟩
        cases r with
        | ok s => simp [Except.map]
        | error e => rfl

theorem scanned_copyInStr {src : UserAddr} (hnull : src.isNull = false) (max : Nat) :
    Scanned m src.toNat max (UserMemory.copyInStr m src max) := by
  obtain ⟨r, hscan, hrun⟩ := scanned_copyInStrFrom m src #[] max
  rw [UserMemory.copyInStr, hnull, if_neg Bool.false_ne_true, hrun]
  cases r <;> exact hscan

/-- A copy ends in one way only: the first place where the string does not go on decides. -/
theorem Scanned.unique (h : Scanned m a n r) (h' : Scanned m a n r') : r = r' := by
  cases h with
  | terminated hlt hstring =>
    obtain ⟨hunbroken, -, hzero⟩ := stringAt_iff.1 hstring
    cases h' with
    | terminated _ hstring' => rw [hstring.unique hstring']
    | overlong hlong =>
      have := hlong.le_of_stopAt (stopAt_of_stringAt hstring)
      omega
    | unreachable _ hunbroken' hnone =>
      have hplace := hunbroken.eq_of_stopAt hunbroken' (stopAt_of_stringAt hstring)
        (stopAt_of_none hnone)
      rw [← hplace, hzero] at hnone
      cases hnone
  | overlong hlong =>
    cases h' with
    | terminated _ hstring =>
      have := hlong.le_of_stopAt (stopAt_of_stringAt hstring)
      omega
    | overlong _ => rfl
    | unreachable _ _ hnone =>
      have := hlong.le_of_stopAt (stopAt_of_none hnone)
      omega
  | unreachable hlt hunbroken hnone =>
    cases h' with
    | terminated _ hstring =>
      obtain ⟨hunbroken', -, hzero⟩ := stringAt_iff.1 hstring
      have hplace := hunbroken.eq_of_stopAt hunbroken' (stopAt_of_none hnone)
        (stopAt_of_stringAt hstring)
      rw [hplace, hzero] at hnone
      cases hnone
    | overlong hlong =>
      have := hlong.le_of_stopAt (stopAt_of_none hnone)
      omega
    | unreachable _ _ _ => rfl

/-- How a copy ends hangs on those bytes only that it comes to. -/
theorem Scanned.congr (h : Scanned m a n r)
    (hsame : ∀ i < n, m.Unbroken a i → m'.reach? (a + i) = m.reach? (a + i)) :
    Scanned m' a n r := by
  have hstretch {k : Nat} (hk : m.Unbroken a k) (hle : k ≤ n) : m'.Unbroken a k := by
    intro i hi
    rw [hsame i (by omega) fun j hj => hk j (by omega)]
    exact hk i hi
  cases h with
  | terminated hlt hstring =>
    obtain ⟨hunbroken, hbytes, hzero⟩ := stringAt_iff.1 hstring
    refine .terminated hlt (stringAt_iff.2 ⟨hstretch hunbroken (Nat.le_of_lt hlt), ?_, ?_⟩)
    · intro i hi
      rw [hsame i (by omega) fun j hj => hunbroken j (by omega)]
      exact hbytes i hi
    · rw [hsame _ hlt hunbroken]
      exact hzero
  | overlong hunbroken => exact .overlong (hstretch hunbroken (Nat.le_refl n))
  | unreachable hlt hunbroken hend =>
    refine .unreachable hlt (hstretch hunbroken (Nat.le_of_lt hlt)) ?_
    rw [hsame _ hlt hunbroken]
    exact hend

/-! ### The law -/

/-- The string at a place: the bytes before the first terminator, which is one of the first `max`
bytes. -/
def StringOf (m : Mapping) (a max : Nat) (s : List UInt8) : Prop :=
  ∃ k < max, (m.TerminatorAt a k ∧ ∀ j < k, ¬ m.TerminatorAt a j) ∧
    s.length = k ∧ ∀ i (hi : i < s.length), m.reach? (a + i) = some s[i]

/-- The first terminator is the zero byte that ends an unbroken stretch. -/
theorem first_terminatorAt_iff :
    (m.TerminatorAt a k ∧ ∀ j < k, ¬ m.TerminatorAt a j) ↔
      m.Unbroken a k ∧ m.reach? (a + k) = some 0 := by
  constructor
  · rintro ⟨hend, hfirst⟩
    refine ⟨fun i hi => ?_, hend.zero⟩
    obtain ⟨b, hb⟩ := hend.mapped i (Nat.le_of_lt hi)
    refine ⟨b, fun hzero => hfirst i hi ⟨fun j hj => hend.mapped j (by omega), ?_⟩, hb⟩
    rw [hb, hzero]
  · rintro ⟨hunbroken, hzero⟩
    refine ⟨⟨fun i hi => ?_, hzero⟩, fun j hj hend => ?_⟩
    · rcases Nat.lt_or_eq_of_le hi with hlt | rfl
      · obtain ⟨b, -, hb⟩ := hunbroken i hlt
        exact ⟨b, hb⟩
      · exact ⟨0, hzero⟩
    · have := hunbroken.le_of_stopAt (stopAt_of_zero hend.zero)
      omega

theorem stringOf_iff : m.StringOf a n s ↔ s.length < n ∧ StringAt m a s := by
  rw [stringAt_iff]
  constructor
  · rintro ⟨_, hlt, hfirst, rfl, hbytes⟩
    obtain ⟨hunbroken, hzero⟩ := first_terminatorAt_iff.1 hfirst
    exact ⟨hlt, hunbroken, hbytes, hzero⟩
  · rintro ⟨hlt, hunbroken, hbytes, hzero⟩
    exact ⟨s.length, hlt, first_terminatorAt_iff.2 ⟨hunbroken, hzero⟩, rfl, hbytes⟩

theorem scanned_nameTooLong_iff : Scanned m a n (.error .nameTooLong) ↔ m.Unbroken a n := by
  constructor
  · intro h
    cases h with
    | overlong hunbroken => exact hunbroken
  · exact .overlong

theorem Scanned.error_cases {e : Errno} (h : Scanned m a n (.error e)) :
    e = .nameTooLong ∨ e = .badAddress := by
  cases h with
  | overlong => exact .inl rfl
  | unreachable => exact .inr rfl

/-- A copy gives the bytes before the first terminator among the first `max` bytes, or finds that
these are all there and none of them is a terminator, or fails, which is so in all other cases. It
looks at no byte behind the terminator and at none behind the first `max`. -/
theorem copyInStr_answers (m : Mapping) (src : UserAddr) (max : Nat) :
    (∀ s, UserMemory.copyInStr m src max = .ok s ↔
        src.toNat ≠ 0 ∧ m.StringOf src.toNat max s) ∧
      (UserMemory.copyInStr m src max = .error .nameTooLong ↔
        src.toNat ≠ 0 ∧ m.Unbroken src.toNat max) ∧
      (UserMemory.copyInStr m src max = .error .badAddress ↔
        src.toNat = 0 ∨ (¬ ∃ s, m.StringOf src.toNat max s) ∧ ¬ m.Unbroken src.toNat max) ∧
      ∀ m' : Mapping,
        (∀ i < max, m.Unbroken src.toNat i →
          m'.reach? (src.toNat + i) = m.reach? (src.toNat + i)) →
        UserMemory.copyInStr m' src max = UserMemory.copyInStr m src max := by
  by_cases hzero : src.toNat = 0
  · have hnull (m : Mapping) : UserMemory.copyInStr m src max = .error .badAddress :=
      if_pos (UserAddr.isNull_iff.2 hzero)
    simp [hnull, hzero]
  · have hnonnull : src.isNull = false := by
      rwa [Bool.eq_false_iff, ne_eq, UserAddr.isNull_iff]
    have hok (s : List UInt8) :
        UserMemory.copyInStr m src max = .ok s ↔ m.StringOf src.toNat max s := by
      rw [copyInStr_eq_ok, and_iff_right hnonnull, stringOf_iff]
    have hscan := scanned_copyInStr (m := m) hnonnull max
    have hlong :
        UserMemory.copyInStr m src max = .error .nameTooLong ↔ m.Unbroken src.toNat max := by
      rw [← scanned_nameTooLong_iff]
      exact ⟨fun h => h ▸ hscan, hscan.unique⟩
    refine ⟨fun s => by rw [hok, and_iff_right hzero], by rw [hlong, and_iff_right hzero], ?_,
      fun m' hsame => ?_⟩
    · rw [or_iff_right hzero, ← hlong]
      simp only [← hok]
      cases hrun : UserMemory.copyInStr m src max with
      | ok s => simp
      | error e =>
        rw [hrun] at hscan
        rcases hscan.error_cases with rfl | rfl <;> simp
    · exact (scanned_copyInStr hnonnull max).unique (hscan.congr hsame)

/-- A terminator may be the last byte that is allowed and the last that is mapped. -/
example : UserMemory.copyInStr (⟨0x1000, #[0x61, 0x62, 0]⟩ : Mapping) ⟨0x1000⟩ 3 =
    .ok [0x61, 0x62] := rfl

/-- Where the addresses end, the bytes that are allowed may end first. -/
example : UserMemory.copyInStr (⟨0xfffffffffffffffe, #[0x61, 0x62, 0]⟩ : Mapping)
      ⟨0xfffffffffffffffe⟩ 2 = .error .nameTooLong ∧
    UserMemory.copyInStr (⟨0xfffffffffffffffe, #[0x61, 0x62, 0]⟩ : Mapping)
      ⟨0xfffffffffffffffe⟩ 3 = .error .badAddress := ⟨rfl, rfl⟩

end Mapping

end UnixCore
