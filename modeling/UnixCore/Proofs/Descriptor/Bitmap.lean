import UnixCore.Descriptor.Table

/-! The bitmap of a descriptor table: `Exact`, the agreement of its bits with the slots, which every
operation keeps, and the word scan as a search for the least empty slot. -/

namespace UnixCore

/-- Bit `i` of a bitmap, words in order and the lowest bit of each word first. -/
def bitAt (words : List (BitVec 64)) (i : Nat) : Bool :=
  (words[i / slotsPerWord]?.getD 0).getLsbD (i % slotsPerWord)

@[simp] theorem bitAt_nil (i : Nat) : bitAt [] i = false := by simp [bitAt]

theorem bitAt_cons_of_lt {word : BitVec 64} {words : List (BitVec 64)} {i : Nat}
    (h : i < slotsPerWord) : bitAt (word :: words) i = word.getLsbD i := by
  simp [bitAt, Nat.div_eq_of_lt h, Nat.mod_eq_of_lt h]

theorem bitAt_cons_add (word : BitVec 64) (words : List (BitVec 64)) (i : Nat) :
    bitAt (word :: words) (slotsPerWord + i) = bitAt words i := by
  have h : 0 < slotsPerWord := by decide
  simp [bitAt, Nat.add_div_left _ h]

theorem bitAt_drop (words : List (BitVec 64)) (n i : Nat) :
    bitAt (words.drop n) i = bitAt words (n * slotsPerWord + i) := by
  have h : 0 < slotsPerWord := by decide
  simp only [bitAt, List.getElem?_drop]
  rw [Nat.add_comm (n * slotsPerWord), Nat.add_mul_div_right _ _ h, Nat.add_mul_mod_self_right,
    Nat.add_comm n]

theorem getLsbD_low {k : Nat} (hk : k < 64) (i : Nat) :
    (1#64 <<< k - 1#64).getLsbD i = decide (i < k) := by
  have hpow : 2 ^ k < 2 ^ 64 := Nat.pow_lt_pow_right (by decide) hk
  have hpos : 0 < 2 ^ k := Nat.two_pow_pos k
  have hval : (1#64 <<< k - 1#64).toNat = 2 ^ k - 1 := by
    rw [BitVec.toNat_sub, BitVec.toNat_shiftLeft, BitVec.toNat_one (by decide), Nat.shiftLeft_eq,
      Nat.one_mul, Nat.mod_eq_of_lt hpow]
    omega
  rw [BitVec.getLsbD, hval, Nat.testBit_two_pow_sub_one]

theorem getLsbD_single {i : Nat} (hi : i < 64) (k : Nat) :
    (1#64 <<< k).getLsbD i = decide (i = k) := by
  rw [BitVec.getLsbD_shiftLeft, BitVec.getLsbD_one]
  rcases Nat.lt_trichotomy i k with h | rfl | h
  · simp [h, Nat.ne_of_lt h]
  · simp [hi]
  · simp [Nat.ne_of_gt h, Nat.sub_ne_zero_of_lt h]

theorem mod_slotsPerWord_eq_iff {i j : Nat} (h : i / slotsPerWord = j / slotsPerWord) :
    i % slotsPerWord = j % slotsPerWord ↔ i = j := by
  simp only [slotsPerWord] at *
  omega

namespace DescriptorTable

def isFree (t : DescriptorTable) (fd : Nat) : Bool := bitAt t.free.toList fd

/-- There is a bitmap word for every slot and no word more, and the bits that are set are those of
the empty slots. Bits past the last slot are clear. -/
structure Exact (t : DescriptorTable) : Prop where
  words : t.free.size = (t.capacity + (slotsPerWord - 1)) / slotsPerWord
  isFree_iff : ∀ fd, t.isFree fd = true ↔ fd < t.capacity ∧ t.get? fd = none

theorem Exact.word_lt {t : DescriptorTable} (ht : t.Exact) {fd : Nat} (h : fd < t.capacity) :
    fd / slotsPerWord < t.free.size := by
  rw [ht.words]
  simp only [slotsPerWord]
  omega

/-! ### The bits after an operation -/

theorem bitAt_modify (free : Array (BitVec 64)) (f : BitVec 64 → BitVec 64) (word i : Nat) :
    bitAt (free.modify word f).toList i =
      if i / slotsPerWord = word then
        ((free[word]?.map f).getD 0).getLsbD (i % slotsPerWord)
      else bitAt free.toList i := by
  simp only [bitAt, Array.getElem?_toList, Array.getElem?_modify, eq_comm (a := word)]
  split
  case isTrue h => rw [h]
  case isFalse => rfl

theorem bitAt_markUsed (free : Array (BitVec 64)) (fd i : Nat) :
    bitAt (markUsed free fd).toList i = (bitAt free.toList i && decide (i ≠ fd)) := by
  have hmod : i % slotsPerWord < 64 := Nat.mod_lt _ (by decide)
  rw [markUsed, bitAt_modify]
  split
  case isTrue h =>
    simp only [bitAt, Array.getElem?_toList, h]
    cases free[fd / slotsPerWord]? with
    | none => simp
    | some word =>
      simp only [Option.map_some, Option.getD_some, BitVec.getLsbD_and, BitVec.getLsbD_not, hmod,
        getLsbD_single hmod, mod_slotsPerWord_eq_iff h, decide_true, Bool.true_and, decide_not]
  case isFalse h =>
    have hi : i ≠ fd := fun hi => h (by rw [hi])
    simp [hi]

theorem bitAt_markFree (free : Array (BitVec 64)) {fd : Nat} (hfd : fd / slotsPerWord < free.size)
    (i : Nat) :
    bitAt (markFree free fd).toList i = (bitAt free.toList i || decide (i = fd)) := by
  have hmod : i % slotsPerWord < 64 := Nat.mod_lt _ (by decide)
  rw [markFree, bitAt_modify]
  split
  case isTrue h =>
    simp only [bitAt, Array.getElem?_toList, h, Array.getElem?_eq_getElem hfd, Option.map_some,
      Option.getD_some, BitVec.getLsbD_or, getLsbD_single hmod, mod_slotsPerWord_eq_iff h]
  case isFalse h =>
    have hi : i ≠ fd := fun hi => h (by rw [hi])
    simp [hi]

theorem exact_empty (capacity : Nat) : (empty capacity).Exact where
  words := by simp [empty, DescriptorTable.capacity]
  isFree_iff fd := by
    have hcap : (empty capacity).capacity = capacity := by simp [empty, DescriptorTable.capacity]
    rw [get?_empty, hcap]
    simp only [and_true, isFree, bitAt, Array.getElem?_toList, empty, Array.getElem?_ofFn]
    by_cases hword : fd / slotsPerWord < (capacity + (slotsPerWord - 1)) / slotsPerWord
    · simp only [hword, dite_true, Option.getD_some]
      have hmod : fd % slotsPerWord < 64 := Nat.mod_lt _ (by decide)
      by_cases htail : capacity < (fd / slotsPerWord + 1) * slotsPerWord
      · have hk : capacity % slotsPerWord < 64 := Nat.mod_lt _ (by decide)
        simp only [htail, if_true, getLsbD_low hk, decide_eq_true_eq]
        simp only [slotsPerWord] at *
        omega
      · simp only [htail, if_false, BitVec.getLsbD_allOnes, hmod, decide_true, true_iff]
        simp only [slotsPerWord] at *
        omega
    · simp only [hword, dite_false, Option.getD_none, BitVec.ofNat_eq_ofNat, BitVec.getLsbD_zero,
        Bool.false_eq_true, false_iff]
      simp only [slotsPerWord] at *
      omega

theorem Exact.fill {t : DescriptorTable} (ht : t.Exact) {fd : Nat} (hfd : fd < t.capacity)
    (file : FileId) : Exact ⟨t.slots.setIfInBounds fd (some file), markUsed t.free fd⟩ where
  words := by simpa [markUsed, capacity] using ht.words
  isFree_iff i := by
    have hbit := ht.isFree_iff i
    have hget := get?_setIfInBounds t.slots (markUsed t.free fd) (some file) hfd i
    simp only [isFree] at hbit
    simp only [isFree, bitAt_markUsed, hget, capacity, Array.size_setIfInBounds, Bool.and_eq_true,
      decide_eq_true_eq, hbit]
    by_cases hi : i = fd
    · simp [hi]
    · simp [hi, get?]

theorem Exact.vacate {t : DescriptorTable} (ht : t.Exact) {fd : Nat} (hfd : fd < t.capacity) :
    Exact ⟨t.slots.setIfInBounds fd none, markFree t.free fd⟩ where
  words := by simpa [markFree, capacity] using ht.words
  isFree_iff i := by
    have hbit := ht.isFree_iff i
    have hget := get?_setIfInBounds t.slots (markFree t.free fd) none hfd i
    simp only [isFree] at hbit
    simp only [isFree, bitAt_markFree _ (ht.word_lt hfd), hget, capacity,
      Array.size_setIfInBounds, Bool.or_eq_true, decide_eq_true_eq, hbit]
    by_cases hi : i = fd
    · simpa [hi, capacity] using hfd
    · simp [hi, get?]

/-! ### The word scan -/

/-- `n` is the least index at or above `start` at which `p` holds. -/
def IsLeastFrom (start : Nat) (p : Nat → Prop) (n : Nat) : Prop :=
  start ≤ n ∧ p n ∧ ∀ i, start ≤ i → i < n → ¬ p i

theorem IsLeastFrom.unique {start : Nat} {p : Nat → Prop} {m n : Nat} (hm : IsLeastFrom start p m)
    (hn : IsLeastFrom start p n) : m = n := by
  rcases Nat.lt_trichotomy m n with h | h | h
  · exact absurd hm.2.1 (hn.2.2 m hm.1 h)
  · exact h
  · exact absurd hn.2.1 (hm.2.2 n hn.1 h)

/-- The scan finds the lowest bit that is set. The induction goes word by word; a word without bits
moves the base on by one word. -/
theorem lowestBit_eq_some {words : List (BitVec 64)} {base n : Nat}
    (h : lowestBit base (.allOnes 64) words = some n) :
    ∃ i, n = base + i ∧ IsLeastFrom 0 (bitAt words · = true) i := by
  induction words generalizing base with
  | nil => cases h
  | cons word words ih =>
    simp only [lowestBit, BitVec.and_allOnes] at h
    split at h
    case isTrue hzero =>
      obtain ⟨i, rfl, -, hi, hleast⟩ := ih h
      refine ⟨slotsPerWord + i, by omega, Nat.zero_le _, ?_, fun j _ hj => ?_⟩
      · show bitAt _ _ = true
        rw [bitAt_cons_add]
        exact hi
      · show ¬ bitAt _ _ = true
        by_cases hlt : j < slotsPerWord
        · simp [bitAt_cons_of_lt hlt, hzero]
        · obtain ⟨k, rfl⟩ := Nat.exists_eq_add_of_le (Nat.le_of_not_lt hlt)
          rw [bitAt_cons_add]
          exact hleast k (Nat.zero_le _) (by omega)
    case isFalse hword =>
      cases h
      have hlt : word.ctz.toNat < slotsPerWord := BitVec.ctz_lt_iff_ne_zero.2 hword
      refine ⟨_, rfl, Nat.zero_le _, ?_, fun j _ hj => ?_⟩
      · show bitAt _ _ = true
        rw [bitAt_cons_of_lt hlt]
        exact BitVec.getLsbD_true_ctz_of_ne_zero hword
      · show ¬ bitAt _ _ = true
        rw [bitAt_cons_of_lt (by omega)]
        simp [BitVec.getLsbD_false_of_lt_ctz hj]

theorem lowestBit_eq_none {words : List (BitVec 64)} {base : Nat}
    (h : lowestBit base (.allOnes 64) words = none) (i : Nat) : bitAt words i = false := by
  induction words generalizing base i with
  | nil => exact bitAt_nil i
  | cons word words ih =>
    simp only [lowestBit, BitVec.and_allOnes] at h
    split at h
    case isTrue hzero =>
      by_cases hlt : i < slotsPerWord
      · simp [bitAt_cons_of_lt hlt, hzero]
      · obtain ⟨k, rfl⟩ := Nat.exists_eq_add_of_le (Nat.le_of_not_lt hlt)
        rw [bitAt_cons_add]
        exact ih h k
    case isFalse => cases h

/-- The mask of a scan is the same as clearing bits of the first word. -/
theorem lowestBit_cons (base : Nat) (mask word : BitVec 64) (words : List (BitVec 64)) :
    lowestBit base mask (word :: words) =
      lowestBit base (.allOnes 64) ((word &&& mask) :: words) := by
  simp only [lowestBit, BitVec.and_allOnes]

theorem lowestFree_cases (t : DescriptorTable) (start : Nat) :
    (∃ fd, t.lowestFree start = some fd ∧ IsLeastFrom start (t.isFree · = true) fd) ∨
      (t.lowestFree start = none ∧ ∀ fd, start ≤ fd → t.isFree fd = false) := by
  have hmod : start % slotsPerWord < slotsPerWord := Nat.mod_lt _ (by decide)
  have hsplit : start / slotsPerWord * slotsPerWord + start % slotsPerWord = start :=
    Nat.div_add_mod' start slotsPerWord
  simp only [lowestFree, isFree]
  cases hwords : t.free.toList.drop (start / slotsPerWord) with
  | nil =>
    refine .inr ⟨rfl, fun fd hfd => ?_⟩
    obtain ⟨i, rfl⟩ := Nat.exists_eq_add_of_le (show start / slotsPerWord * slotsPerWord ≤ fd by
      omega)
    rw [← bitAt_drop, hwords, bitAt_nil]
  | cons word words =>
    -- the bits of the masked words, counted from the start of the first word
    have hbit (i : Nat) :
        bitAt ((word &&& BitVec.allOnes 64 <<< (start % slotsPerWord)) :: words) i =
        (bitAt t.free.toList (start / slotsPerWord * slotsPerWord + i) &&
          decide (start % slotsPerWord ≤ i)) := by
      rw [← bitAt_drop, hwords]
      by_cases hi : i < slotsPerWord
      · have hi' : i < 64 := hi
        rw [bitAt_cons_of_lt hi, bitAt_cons_of_lt hi, BitVec.getLsbD_and, BitVec.getLsbD_shiftLeft,
          BitVec.getLsbD_allOnes]
        have hbelow : i - start % slotsPerWord < 64 := by omega
        by_cases hle : start % slotsPerWord ≤ i
        · simp only [hle, Nat.not_lt.2 hle, hi', hbelow, decide_true, decide_false, Bool.not_false,
            Bool.and_true]
        · simp only [hle, Nat.lt_of_not_le hle, decide_true, decide_false, Bool.not_true,
            Bool.and_false, Bool.false_and]
      · obtain ⟨k, rfl⟩ := Nat.exists_eq_add_of_le (Nat.le_of_not_lt hi)
        rw [bitAt_cons_add, bitAt_cons_add]
        simp [show start % slotsPerWord ≤ slotsPerWord + k by omega]
    rw [lowestBit_cons]
    cases hscan : lowestBit (start / slotsPerWord * slotsPerWord) (.allOnes 64)
        ((word &&& BitVec.allOnes 64 <<< (start % slotsPerWord)) :: words) with
    | some n =>
      obtain ⟨i, rfl, -, hi, hleast⟩ := lowestBit_eq_some hscan
      simp only [hbit, Bool.and_eq_true, decide_eq_true_eq] at hi hleast
      refine .inl ⟨_, rfl, by omega, hi.1, fun j hj hlt => ?_⟩
      obtain ⟨k, rfl⟩ := Nat.exists_eq_add_of_le (show start / slotsPerWord * slotsPerWord ≤ j by
        omega)
      exact fun hk => hleast k (Nat.zero_le _) (by omega) ⟨hk, by omega⟩
    | none =>
      refine .inr ⟨rfl, fun fd hfd => ?_⟩
      obtain ⟨i, rfl⟩ := Nat.exists_eq_add_of_le (show start / slotsPerWord * slotsPerWord ≤ fd by
        omega)
      have := lowestBit_eq_none hscan i
      rw [hbit] at this
      simpa [show start % slotsPerWord ≤ i by omega] using this

/-- The scan of an exact table gives the least empty slot at or above `start`. -/
theorem Exact.lowestFree_eq_some_iff {t : DescriptorTable} (ht : t.Exact) {start fd : Nat} :
    t.lowestFree start = some fd ↔
      IsLeastFrom start (fun fd => fd < t.capacity ∧ t.get? fd = none) fd := by
  have hiff : (t.isFree · = true) = fun fd => fd < t.capacity ∧ t.get? fd = none :=
    funext fun fd => propext (ht.isFree_iff fd)
  rcases t.lowestFree_cases start with ⟨n, hn, hleast⟩ | ⟨hnone, hfull⟩
  · rw [hiff] at hleast
    rw [hn, Option.some.injEq]
    exact ⟨fun h => h ▸ hleast, fun h => hleast.unique h⟩
  · rw [hnone]
    simp only [reduceCtorEq, false_iff]
    intro h
    have := hfull fd h.1
    rw [(ht.isFree_iff fd).2 h.2.1] at this
    cases this

/-- The scan of an exact table fails when there is no empty slot at or above `start`. -/
theorem Exact.lowestFree_eq_none_iff {t : DescriptorTable} (ht : t.Exact) {start : Nat} :
    t.lowestFree start = none ↔ ∀ fd, start ≤ fd → fd < t.capacity → t.get? fd ≠ none := by
  rcases t.lowestFree_cases start with ⟨n, hn, hleast⟩ | ⟨hnone, hfull⟩
  · rw [hn]
    simp only [reduceCtorEq, false_iff]
    intro h
    obtain ⟨hlt, hget⟩ := (ht.isFree_iff n).1 hleast.2.1
    exact h n hleast.1 hlt hget
  · rw [hnone]
    simp only [true_iff]
    intro fd hfd hlt hget
    have := hfull fd hfd
    rw [(ht.isFree_iff fd).2 ⟨hlt, hget⟩] at this
    cases this

end DescriptorTable

end UnixCore
