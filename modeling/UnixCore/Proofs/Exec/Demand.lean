import UnixCore.Config
import UnixCore.Proofs.Exec.Extent
import UnixCore.Proofs.Exec.Logged

/-! The stack that the vectors within a limit need. The limit is on the bytes of the strings, and
on the stack each string is padded and has an address besides, so the need is up to eight times the
limit. It is greatest for empty strings, as many as the limit allows, and not for long ones. -/

namespace UnixCore

open Bytewise UserMemory

/-! ### Strings and their padding -/

theorem padded_succ_le (n : Nat) : padded (n + 1) ≤ 4 * (n + 1) := by
  unfold padded stackAlign
  omega

theorem stringBytes_le_paddedBytes (args : List (List UInt8)) :
    stringBytes args ≤ paddedBytes args := by
  induction args with
  | nil => exact Nat.le_refl 0
  | cons arg args ih => exact Nat.add_le_add (le_padded _) ih

theorem paddedBytes_le (args : List (List UInt8)) : paddedBytes args ≤ 4 * stringBytes args := by
  induction args with
  | nil => exact Nat.le_refl 0
  | cons arg args ih =>
    rw [paddedBytes_cons, stringBytes_cons, Nat.mul_add]
    exact Nat.add_le_add (padded_succ_le arg.length) ih

/-- Every string takes at least its terminator. -/
theorem length_le_stringBytes (args : List (List UInt8)) : args.length ≤ stringBytes args := by
  induction args with
  | nil => exact Nat.le_refl 0
  | cons arg args ih =>
    rw [List.length_cons, stringBytes_cons]
    omega

/-! ### The size in 64-bit words

The computation of `ArgVector.stackSize` step by step in 64-bit words, where a sum or a product
that is out of range has no value. The lengths of strings are words to begin with. -/

namespace Checked

def add (a b : UInt64) : Option UInt64 :=
  if a.toNat + b.toNat < UInt64.size then some (a + b) else none

def mul (a b : UInt64) : Option UInt64 :=
  if a.toNat * b.toNat < UInt64.size then some (a * b) else none

/-- Padding by a mask that clears the low bits. -/
def padded (n : UInt64) : Option UInt64 := do
  -- The sum is not zero, so one can be taken off.
  return ((← add n (.ofNat stackAlign)) - 1) &&& ~~~(.ofNat stackAlign - 1)

def paddedBytes (sum : UInt64) : (args : List (List UInt8)) → Option UInt64
  | [] => some sum
  | arg :: args => do
    let size ← padded (← add (.ofNat arg.length) 1)
    paddedBytes (← add sum size) args

def stackSize (v : ArgVector) : Option UInt64 := do
  let strings ← paddedBytes 0 v.args
  add strings (← mul (.ofNat wordSize) (← add (.ofNat v.argc) 1))

theorem exists_add (a b : UInt64) (h : a.toNat + b.toNat < UInt64.size) :
    ∃ c, add a b = some c ∧ c.toNat = a.toNat + b.toNat := by
  refine ⟨a + b, if_pos h, ?_⟩
  rw [UInt64.toNat_add]
  exact Nat.mod_eq_of_lt h

theorem exists_mul (a b : UInt64) (h : a.toNat * b.toNat < UInt64.size) :
    ∃ c, mul a b = some c ∧ c.toNat = a.toNat * b.toNat := by
  refine ⟨a * b, if_pos h, ?_⟩
  rw [UInt64.toNat_mul]
  exact Nat.mod_eq_of_lt h

/-- A mask with the two lowest bits clear rounds down to a multiple of four. -/
theorem toNat_and_not_three (n : UInt64) : (n &&& ~~~3).toNat = n.toNat / 2 ^ 2 * 2 ^ 2 := by
  have hmask : (~~~3 : UInt64).toNat = (2 ^ 62 - 1) * 2 ^ 2 := by decide +kernel
  rw [UInt64.toNat_and, hmask]
  apply Nat.eq_of_testBit_eq
  intro i
  rw [Nat.testBit_and, Nat.testBit_mul_two_pow, Nat.testBit_mul_two_pow,
    Nat.testBit_two_pow_sub_one, Nat.testBit_div_two_pow]
  by_cases hlow : 2 ≤ i
  · rw [Nat.sub_add_cancel hlow]
    by_cases hword : i < 64
    · simp [hlow, show i - 2 < 62 by omega]
    · have hlt : n.toNat < 2 ^ i :=
        Nat.lt_of_lt_of_le n.toNat_lt (Nat.pow_le_pow_right Nat.two_pos (by omega))
      simp [Nat.testBit_lt_two_pow hlt]
  · simp [hlow]

theorem exists_padded (n : UInt64) (h : n.toNat + stackAlign < UInt64.size) :
    ∃ size, padded n = some size ∧ size.toNat = UnixCore.padded n.toNat := by
  have halign : (UInt64.ofNat stackAlign).toNat = stackAlign := rfl
  obtain ⟨sum, hadd, hsum⟩ := exists_add n (.ofNat stackAlign) h
  rw [halign] at hsum
  have hone : (1 : UInt64) ≤ sum := by
    rw [UInt64.le_iff_toNat_le, hsum]
    unfold stackAlign
    simp
  refine ⟨(sum - 1) &&& ~~~3, by rw [padded, hadd]; rfl, ?_⟩
  rw [toNat_and_not_three, UInt64.toNat_sub_of_le _ _ hone, hsum]
  rfl

theorem exists_paddedBytes (sum : UInt64) (args : List (List UInt8))
    (h : sum.toNat + UnixCore.paddedBytes args + stackAlign < UInt64.size) :
    ∃ total, paddedBytes sum args = some total ∧
      total.toNat = sum.toNat + UnixCore.paddedBytes args := by
  induction args generalizing sum with
  | nil => exact ⟨sum, rfl, rfl⟩
  | cons arg args ih =>
    have hle := le_padded (arg.length + 1)
    rw [paddedBytes_cons] at h
    have hlen : (UInt64.ofNat arg.length).toNat = arg.length :=
      UInt64.toNat_ofNat_of_lt' (by omega)
    have hone : (1 : UInt64).toNat = 1 := rfl
    obtain ⟨len, hadd, hlen'⟩ := exists_add (.ofNat arg.length) 1 (by omega)
    rw [hlen, hone] at hlen'
    obtain ⟨size, hpad, hsize⟩ := exists_padded len (by omega)
    rw [hlen'] at hsize
    obtain ⟨next, hsum, hnext⟩ := exists_add sum size (by omega)
    obtain ⟨total, hrest, htotal⟩ := ih next (by omega)
    refine ⟨total, ?_, ?_⟩
    · simp only [paddedBytes, hadd, hpad, hsum, hrest, Option.bind_eq_bind, Option.bind_some]
    · rw [htotal, hnext, hsize, paddedBytes_cons, Nat.add_assoc]

/-- No step of the computation overflows if the size leaves room for one more alignment. -/
theorem exists_stackSize (v : ArgVector) (h : v.stackSize + stackAlign < UInt64.size) :
    ∃ size, stackSize v = some size ∧ size.toNat = v.stackSize := by
  have hsize := v.stackSize_eq
  have hword : (UInt64.ofNat wordSize).toNat = wordSize := rfl
  have hzero : (0 : UInt64).toNat = 0 := rfl
  have hone : (1 : UInt64).toNat = 1 := rfl
  have hslots : v.argc + 1 ≤ wordSize * (v.argc + 1) := Nat.le_mul_of_pos_left _ (Nat.succ_pos 3)
  have hargc : (UInt64.ofNat v.argc).toNat = v.argc := UInt64.toNat_ofNat_of_lt' (by omega)
  obtain ⟨strings, hstrings, hstrings'⟩ := exists_paddedBytes 0 v.args (by omega)
  obtain ⟨count, hcount, hcount'⟩ := exists_add (.ofNat v.argc) 1 (by omega)
  rw [hargc, hone] at hcount'
  obtain ⟨slots, hmul, hmul'⟩ :=
    exists_mul (.ofNat wordSize) count (by rw [hword, hcount']; omega)
  rw [hword, hcount'] at hmul'
  obtain ⟨size, hadd, hadd'⟩ := exists_add strings slots (by omega)
  refine ⟨size, ?_, by omega⟩
  simp only [stackSize, hstrings, hcount, hmul, hadd, Option.bind_eq_bind, Option.bind_some]

end Checked

/-! ### Vectors within the limit -/

namespace ArgVector

variable {v : ArgVector} {argMax : Nat}

/-- The vector is made of the kernel's own strings or copied out of some user memory. -/
inductive Accepted (argMax : Nat) (v : ArgVector) : Prop
  | ofArgs {args : List (List UInt8)} : ArgVector.ofArgs args argMax = .ok v → Accepted argMax v
  | copyIn {M : Type} [UserMemory M] {m : M} {argv : UserAddr} :
    ArgVector.copyIn m argv argMax = .ok v → Accepted argMax v

theorem totalFrom_eq_ok {total sum : Nat} {args : List (List UInt8)}
    (h : totalFrom argMax total args = .ok sum) (hle : total ≤ argMax) :
    sum = total + stringBytes args ∧ sum ≤ argMax := by
  induction args generalizing total with
  | nil =>
    cases h
    exact ⟨rfl, hle⟩
  | cons arg args ih =>
    rw [totalFrom] at h
    split at h
    case isTrue => cases h
    case isFalse =>
      split at h
      case isTrue => cases h
      case isFalse hfit =>
        obtain ⟨rfl, hsum⟩ := ih h (Nat.le_of_not_lt hfit)
        exact ⟨by rw [stringBytes_cons, Nat.add_assoc], hsum⟩

theorem ofArgs_total {args : List (List UInt8)} (h : ofArgs args argMax = .ok v) :
    v.total = stringBytes v.args ∧ v.total ≤ argMax := by
  rw [ofArgs] at h
  cases htotal : totalFrom argMax 0 args with
  | error e =>
    rw [htotal] at h
    cases h
  | ok total =>
    rw [htotal] at h
    cases h
    rw [← Nat.zero_add (stringBytes args)]
    exact totalFrom_eq_ok htotal (Nat.zero_le argMax)

theorem copyIn_total {M : Type} [UserMemory M] {m : M} {argv : UserAddr}
    (h : copyIn m argv argMax = .ok v) : v.total = stringBytes v.args ∧ v.total ≤ argMax := by
  have halike (log : List CopyEvent) : AnswersAlike m m log := ⟨fun _ _ => rfl, fun _ _ => rfl⟩
  have hspec := @Logged.ensures_copyIn M _ m argv argMax
  cases hrun : (Logged.copyIn m argv argMax).result [] with
  | mk r log =>
  cases r with
  | ok v' =>
    obtain ⟨⟨htotal, hfit, -⟩, hsame⟩ := hspec.of_result hrun
    rw [hsame m (halike log)] at h
    cases h
    exact ⟨htotal, hfit⟩
  | error e =>
    obtain ⟨-, hsame⟩ := hspec.of_result hrun
    rw [hsame m (halike log)] at h
    cases h

theorem Accepted.total (h : Accepted argMax v) :
    v.total = stringBytes v.args ∧ v.total ≤ argMax := by
  cases h with
  | ofArgs h => exact ofArgs_total h
  | copyIn h => exact copyIn_total h

theorem Accepted.stackSize_le (h : Accepted argMax v) :
    v.total + 4 * (v.argc + 1) ≤ v.stackSize ∧ v.stackSize ≤ 4 * v.total + 4 * (v.argc + 1) := by
  obtain ⟨htotal, -⟩ := h.total
  have hlow := stringBytes_le_paddedBytes v.args
  have hhigh := paddedBytes_le v.args
  have hsize : v.stackSize = paddedBytes v.args + 4 * (v.argc + 1) := v.stackSize_eq
  omega

theorem Accepted.stackSize_le_limit (h : Accepted argMax v) : v.stackSize ≤ 8 * argMax + 4 := by
  obtain ⟨htotal, hfit⟩ := h.total
  have hargc : v.argc ≤ stringBytes v.args := length_le_stringBytes v.args
  have hsize := h.stackSize_le.2
  omega

/-! ### The greatest need -/

/-- As many empty strings as fit into `n` bytes. -/
def emptyStrings (n : Nat) : ArgVector := ⟨.replicate n [], n⟩

theorem stringBytes_replicate_nil (n : Nat) : stringBytes (.replicate n []) = n := by
  induction n with
  | zero => rfl
  | succ n ih =>
    rw [List.replicate_succ, stringBytes_cons, ih, List.length_nil]
    omega

theorem paddedBytes_replicate_nil (n : Nat) : paddedBytes (.replicate n []) = 4 * n := by
  induction n with
  | zero => rfl
  | succ n ih =>
    have hempty : padded (([] : List UInt8).length + 1) = 4 := rfl
    rw [List.replicate_succ, paddedBytes_cons, ih, hempty]
    omega

theorem stackSize_emptyStrings (n : Nat) : (emptyStrings n).stackSize = 8 * n + 4 := by
  have hslots : wordSize * ((emptyStrings n).argc + 1) = 4 * (n + 1) := by
    rw [argc, emptyStrings, List.length_replicate]
    rfl
  rw [stackSize_eq, hslots, emptyStrings, paddedBytes_replicate_nil]
  omega

theorem ofArgs_emptyStrings (n : Nat) : ofArgs (.replicate n []) n = .ok (emptyStrings n) := by
  rw [ofArgs_of_nonzero (by simp), stringBytes_replicate_nil, if_pos (Nat.le_refl n)]
  rfl

/-- An array of `n` addresses and a null behind them. They are all the address of the last byte of
the first slot, which is zero. -/
def emptyPointers (n : Nat) : Mapping where
  base := 4
  bytes := .ofFn fun i : Fin (4 * (n + 1)) => if i.val % 4 = 0 ∧ i.val < 4 * n then 7 else 0

theorem byte?_emptyPointers {n i : Nat} (hi : i < 4 * (n + 1)) :
    (emptyPointers n).byte? (4 + i) = some (if i % 4 = 0 ∧ i < 4 * n then 7 else 0) := by
  have hbase : (emptyPointers n).base.toNat = 4 := rfl
  rw [Mapping.byte?_of_le (by omega), hbase, Nat.add_sub_cancel_left, emptyPointers,
    Array.getElem?_ofFn, dif_pos hi]

theorem wordAt_emptyPointers {n i : Nat} (hi : i < n) :
    WordAt (emptyPointers n) (4 + wordSize * i) 7 := by
  intro k hk
  rw [length_wordBytes] at hk
  change (emptyPointers n).byte? (4 + 4 * i + k) = _
  rw [Nat.add_assoc, byte?_emptyPointers (by omega)]
  match k with
  | 0 => rw [if_pos (by omega)]; rfl
  | 1 | 2 | 3 => rw [if_neg (by omega)]; rfl

theorem wordAt_end_emptyPointers (n : Nat) :
    WordAt (emptyPointers n) (4 + wordSize * n) 0 := by
  intro k hk
  rw [length_wordBytes] at hk
  change (emptyPointers n).byte? (4 + 4 * n + k) = _
  rw [Nat.add_assoc, byte?_emptyPointers (by omega), if_neg (by omega)]
  match k with
  | 0 | 1 | 2 | 3 => rfl

theorem argvAt_emptyPointers {n : Nat} (h : n ≤ 2 ^ 60) :
    ArgvAt (emptyPointers n) 4 (.replicate n []) := by
  have hsize : UInt64.size = 2 ^ 64 := rfl
  have hempty : StringAt (emptyPointers n) 7 [] :=
    stringAt_nil.2 ⟨byte?_emptyPointers (show 3 < 4 * (n + 1) by omega), by decide⟩
  apply ArgvAt.of_pointers
  · rw [List.length_replicate]
    unfold wordSize
    omega
  · intro i hi
    rw [List.length_replicate] at hi
    refine ⟨7, wordAt_emptyPointers hi, by decide, ?_⟩
    rw [List.getElem_replicate]
    exact hempty
  · rw [List.length_replicate]
    exact wordAt_end_emptyPointers n

theorem copyIn_emptyPointers {n : Nat} (h : n ≤ 2 ^ 60) :
    copyIn (emptyPointers n) ⟨4⟩ n = .ok (emptyStrings n) := by
  have hargv : ArgvAt (emptyPointers n) (UserAddr.mk 4).toNat (.replicate n []) :=
    argvAt_emptyPointers h
  rw [copyIn_of_argvAt rfl hargv, stringBytes_replicate_nil, if_pos (Nat.le_refl n)]
  rfl

/-! ### The law -/

/-- What an accepted vector needs of a stack: a size that can be computed in 64-bit words, with
bounds on both sides, and no more than a stack for the limit has. -/
structure Demand (argMax : Nat) (v : ArgVector) : Prop where
  aligned : 4 ∣ v.stackSize
  computed : ∃ size : UInt64, Checked.stackSize v = some size ∧ size.toNat = v.stackSize
  atLeast : v.total + 4 * (v.argc + 1) ≤ v.stackSize
  atMost : v.stackSize ≤ 4 * v.total + 4 * (v.argc + 1)
  limit : v.stackSize ≤ 8 * argMax + 4
  enough {M : Type} [UserMemory M] (m : M) (mapped : Nat → Prop) (stackTop : UserAddr) :
    Maps m mapped → StackBelow mapped (stackTop.toNat / 4 * 4) (8 * argMax + 4) →
      ∃ layout m', v.marshal stackTop m = .ok layout m'

/-- The vector is accepted from either side, and it needs all of a stack for the limit. -/
structure GreatestDemand (argMax : Nat) (v : ArgVector) : Prop where
  ofArgs : ∃ args, ArgVector.ofArgs args argMax = .ok v
  copyIn : ∃ (m : Mapping) (argv : UserAddr), ArgVector.copyIn m argv argMax = .ok v
  size : v.stackSize = 8 * argMax + 4
  needed {M : Type} [UserMemory M] (m : M) (mapped : Nat → Prop) (stackTop : UserAddr) :
    Maps m mapped → stackTop.toNat / 4 * 4 ≤ 2 ^ 32 →
      (∃ layout m', v.marshal stackTop m = .ok layout m') →
        StackBelow mapped (stackTop.toNat / 4 * 4) (8 * argMax + 4)

/-- Every vector that is accepted under a limit has an aligned size on the stack that fits in
64 bits, and a stack of `8 * argMax + 4` bytes with addresses that fit in a word takes it, in
whatever memory. That is the size of the greatest need: some vector does not fit on less. -/
theorem stack_demand_bounded {argMax : Nat} (h : argMax ≤ 2 ^ 60) :
    (∀ v, Accepted argMax v → v.Demand argMax) ∧ ∃ v, GreatestDemand argMax v := by
  have htop (stackTop : UserAddr) :
      (stackTop.alignDown stackAlign).toNat = stackTop.toNat / 4 * 4 :=
    UserAddr.toNat_alignDown stackTop stackAlign
  constructor
  · intro v hv
    obtain ⟨hlow, hhigh⟩ := hv.stackSize_le
    have hlimit := hv.stackSize_le_limit
    have hroom : v.stackSize + stackAlign < UInt64.size := by
      have hsize : UInt64.size = 2 ^ 64 := rfl
      unfold stackAlign
      omega
    refine ⟨v.dvd_stackSize, Checked.exists_stackSize v hroom, hlow, hhigh, hlimit, ?_⟩
    intro M _ m mapped stackTop hmaps hstack
    rw [← htop] at hstack
    exact (v.marshal_succeeds_iff hmaps hstack.words).2 (hstack.mono hlimit)
  · have hsize := stackSize_emptyStrings argMax
    refine ⟨emptyStrings argMax, ⟨_, ofArgs_emptyStrings argMax⟩,
      ⟨_, _, copyIn_emptyPointers h⟩, hsize, ?_⟩
    intro M _ m mapped stackTop hmaps hwords hok
    rw [← htop] at hwords ⊢
    rw [← hsize]
    exact (marshal_succeeds_iff _ hmaps hwords).1 hok

/-- The arguments "prog", "a" and "bb". -/
def threeArguments : ArgVector :=
  ⟨[[0x70, 0x72, 0x6f, 0x67], [0x61], [0x62, 0x62]], 10⟩

/-- Under a limit of 64 KiB a process whose stack has 524292 bytes can be given any vector, and
with one byte less there is one that it cannot be given. -/
theorem stack_demand_bounded_defaultLimit :
    ({} : Config).argMax = 65536 ∧ 65536 ≤ 2 ^ 60 ∧
      ArgVector.ofArgs threeArguments.args 65536 = .ok threeArguments ∧
      threeArguments.stackSize = 32 ∧
      (∃ layout s, threeArguments.marshal ⟨0x80000000⟩
        ({ memory := .filled 0x7ff7fffc 524292 0 } : AddressSpace) = .ok layout s) ∧
      ∃ v, (∃ args, ArgVector.ofArgs args 65536 = .ok v) ∧ v.stackSize = 524292 ∧
        (∃ layout s, v.marshal ⟨0x80000000⟩
          ({ memory := .filled 0x7ff7fffc 524292 0 } : AddressSpace) = .ok layout s) ∧
        ¬ ∃ layout s, v.marshal ⟨0x80000000⟩
          ({ memory := .filled 0x7ff7fffd 524291 0 } : AddressSpace) = .ok layout s := by
  have hlimit : 65536 ≤ 2 ^ 60 := by decide
  have hargs : ArgVector.ofArgs threeArguments.args 65536 = .ok threeArguments := rfl
  obtain ⟨hall, v, hv⟩ := stack_demand_bounded hlimit
  have hstack : StackBelow
      (fun a => (0x7ff7fffc : UInt64).toNat ≤ a ∧ a < (0x7ff7fffc : UInt64).toNat + 524292)
      ((UserAddr.mk 0x80000000).toNat / 4 * 4) (8 * 65536 + 4) := by
    have hbase : (0x7ff7fffc : UInt64).toNat = 0x7ff7fffc := rfl
    have htop : (UserAddr.mk 0x80000000).toNat = 0x80000000 := rfl
    refine ⟨by decide, fun a ha ha' => ?_, by decide⟩
    omega
  have hmaps : Maps ({ memory := .filled 0x7ff7fffc 524292 0 } : AddressSpace) _ :=
    AddressSpace.maps (Mapping.maps_filled _ _ _)
  refine ⟨rfl, hlimit, hargs, rfl, ?_, v, hv.ofArgs, hv.size, ?_, fun hok => ?_⟩
  · exact (hall threeArguments (.ofArgs hargs)).enough _ _ _ hmaps hstack
  · obtain ⟨args, hv'⟩ := hv.ofArgs
    exact (hall v (.ofArgs hv')).enough _ _ _ hmaps hstack
  · have hbase : (0x7ff7fffd : UInt64).toNat = 0x7ff7fffd := rfl
    have hless := hv.needed _ _ _ (AddressSpace.maps (Mapping.maps_filled _ _ _)) (by decide) hok
    have hlowest := hless.area 0x7ff7fffc (by decide) (by decide)
    omega

end ArgVector

end UnixCore
