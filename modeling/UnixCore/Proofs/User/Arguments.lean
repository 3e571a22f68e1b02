import Mathlib.Algebra.Group.Nat.Defs
import UnixCore.Proofs.Exec.Layout
import UnixCore.User.Arguments

/-! Argument arrays between user programs and the kernel. The array that a program builds for a new
image is the one the kernel copies in, and the array that the kernel lays out on a new stack is the
one a program reads its arguments from. Both sides have code of their own for either direction. -/

namespace UnixCore

open Bytewise

namespace User

variable {args : List CString} {slots slots' : ArgSlots}

/-! ### Building the array -/

/-- Addresses are stored if each of them fits into a slot, whatever the slots held. -/
theorem storeAddresses_eq_ok_iff (index : Nat) (slots : ArgSlots) :
    (storeAddresses index slots args).1 = .ok () ↔
      ∀ arg ∈ args, arg.address.toNat < UInt32.size := by
  induction args generalizing index slots with
  | nil => simp [storeAddresses]
  | cons arg args ih =>
    rw [storeAddresses]
    split
    case isTrue hlt => simp [ih, hlt]
    case isFalse hge => simp [hge]

theorem buildArgv_eq_ok_iff :
    (buildArgv args slots).1 = .ok () ↔
      args.length ≤ maxExecArgs ∧ ∀ arg ∈ args, arg.address.toNat < UInt32.size := by
  rw [buildArgv]
  split
  case isTrue hmany =>
    constructor
    · exact nofun
    · rintro ⟨hfew, -⟩
      omega
  case isFalse hfew =>
    rw [← storeAddresses_eq_ok_iff 0 slots]
    cases hstored : storeAddresses 0 slots args with
    | mk result slots' =>
      cases result with
      | ok _ => simp [Nat.le_of_not_lt hfew]
      | error e => simp

/-- The slots behind the stored addresses keep what they held, and so do those before. -/
theorem getElem?_storeAddresses {index : Nat}
    (h : storeAddresses index slots args = (.ok (), slots'))
    (hroom : index + args.length ≤ maxExecArgs + 1) (j : Nat) :
    slots'[j]? =
      if index ≤ j ∧ j < index + args.length then args[j - index]?.map (·.address.toUInt32)
      else slots[j]? := by
  induction args generalizing index slots with
  | nil =>
    cases h
    rw [if_neg]
    rw [List.length_nil]
    omega
  | cons arg args ih =>
    rw [storeAddresses] at h
    rw [List.length_cons] at hroom ⊢
    split at h
    case isFalse => cases h
    case isTrue =>
      rw [ih h (by omega), Vector.getElem?_setIfInBounds]
      by_cases hj : index = j
      · subst hj
        rw [if_neg (by omega), if_pos rfl, if_pos (by omega), if_pos (by omega), Nat.sub_self]
        rfl
      · rw [if_neg hj]
        by_cases hin : index + 1 ≤ j ∧ j < index + 1 + args.length
        · rw [if_pos hin, if_pos (by omega), show j - index = j - (index + 1) + 1 by omega,
            List.getElem?_cons_succ]
        · rw [if_neg hin, if_neg (by omega)]

theorem getElem?_buildArgv (h : buildArgv args slots = (.ok (), slots')) (j : Nat) :
    slots'[j]? =
      if j < args.length then args[j]?.map (·.address.toUInt32)
      else if j = args.length then some 0
      else slots[j]? := by
  obtain ⟨hfew, -⟩ := buildArgv_eq_ok_iff.1 (congrArg Prod.fst h)
  rw [buildArgv, if_neg (Nat.not_lt.2 hfew)] at h
  cases hstored : storeAddresses 0 slots args with
  | mk result stored =>
    rw [hstored] at h
    cases result with
    | error e => cases h
    | ok _ =>
      cases h
      rw [Vector.getElem?_setIfInBounds, getElem?_storeAddresses hstored (by omega)]
      by_cases hj : args.length = j
      · subst hj
        rw [if_pos rfl, if_pos (by omega), if_neg (Nat.lt_irrefl _), if_pos rfl]
      · rw [if_neg hj, if_neg (c := j = args.length) (Ne.symm hj), Nat.zero_add, Nat.sub_zero]
        simp only [Nat.zero_le, true_and]

/-! ### Reading the array -/

section

variable {M : Type} [UserMemory M] [Bytewise M]

/-- The array up to its null pointer and the strings of the arguments stand in memory, and none of
them at the null address. -/
structure Present (m : M) (argv : UserAddr) (slots : ArgSlots) (args : List CString) : Prop where
  nonnull : argv.isNull = false
  slots : ∀ i ≤ args.length, ∀ w, slots[i]? = some w →
    argv.toNat + wordSize * i < UInt64.size ∧ WordAt m (argv.toNat + wordSize * i) w
  strings : ∀ arg ∈ args, arg.address ≠ 0 ∧ StringAt m arg.address.toNat arg.bytes

/-- The kernel's walk over an array that was built finds the strings of the arguments. -/
theorem Present.argvAt {m : M} {argv : UserAddr} (h : Present m argv slots' args)
    (hbuilt : buildArgv args slots = (.ok (), slots')) :
    ArgvAt m argv.toNat (args.map (·.bytes)) := by
  obtain ⟨-, hfits⟩ := buildArgv_eq_ok_iff.1 (congrArg Prod.fst hbuilt)
  have hlast : slots'[args.length]? = some 0 := by
    rw [getElem?_buildArgv hbuilt, if_neg (Nat.lt_irrefl _), if_pos rfl]
  obtain ⟨hbound, hnull⟩ := h.slots args.length (Nat.le_refl _) 0 hlast
  apply ArgvAt.of_pointers
  · rwa [List.length_map]
  · intro i hi
    rw [List.length_map] at hi
    have hmem : args[i] ∈ args := List.getElem_mem hi
    obtain ⟨hne, hstring⟩ := h.strings args[i] hmem
    have hword : args[i].address.toUInt32.toNat = args[i].address.toNat := by
      rw [UInt64.toNat_toUInt32]
      exact Nat.mod_eq_of_lt (hfits args[i] hmem)
    have hslot : slots'[i]? = some args[i].address.toUInt32 := by
      rw [getElem?_buildArgv hbuilt, if_pos hi, List.getElem?_eq_getElem hi]
      rfl
    refine ⟨args[i].address.toUInt32, (h.slots i (Nat.le_of_lt hi) _ hslot).2, ?_, ?_⟩
    · intro hzero
      rw [hzero] at hword
      exact hne (UInt64.toNat_inj.1 hword.symm)
    · rw [hword, List.getElem_map]
      exact hstring
  · rwa [List.length_map]

/-- The words of the array on a new stack: the address of each string, and then a zero. -/
theorem exists_words_of_laidOut {m : M} {cursor slot : Nat} {strings : List (List UInt8)}
    (h : LaidOut m cursor slot strings) (hnull : WordAt m (slot + wordSize * strings.length) 0) :
    ∃ words : List UInt32, words.length = strings.length + 1 ∧
      (∀ i (hi : i < words.length), WordAt m (slot + wordSize * i) words[i]) ∧
      (∀ i (hi : i < strings.length),
        (argvEntry words i).toNat = cursor + paddedBytes (strings.take i) ∧
          BlockAt m (argvEntry words i).toNat (paddedString strings[i])) ∧
      argvEntry words strings.length = 0 := by
  have hnext (slot i : Nat) : slot + wordSize * (i + 1) = slot + wordSize + wordSize * i := by
    unfold wordSize
    omega
  induction h with
  | nil =>
    refine ⟨[0], rfl, fun i hi => ?_, nofun, rfl⟩
    obtain rfl : i = 0 := Nat.lt_one_iff.1 hi
    exact hnull
  | @cons cursor slot w arg strings hblock _ hword hw _ ih =>
    rw [List.length_cons, hnext] at hnull
    obtain ⟨words, hlength, hwords, hentries, hlast⟩ := ih hnull
    have hhead : (argvEntry (w :: words) 0).toNat = cursor := by
      rw [← hw]
      exact UInt32.toNat_toUInt64 w
    refine ⟨w :: words, by simp [hlength], fun i hi => ?_, fun i hi => ?_, hlast⟩
    · cases i with
      | zero => exact hword
      | succ i =>
        rw [hnext]
        exact hwords i (by simpa using hi)
    · cases i with
      | zero =>
        rw [hhead]
        exact ⟨rfl, hblock⟩
      | succ i =>
        obtain ⟨haddress, hstring⟩ := hentries i (by simpa using hi)
        refine ⟨?_, hstring⟩
        rw [List.take_succ_cons, paddedBytes_cons, ← length_paddedString, ← Nat.add_assoc]
        exact haddress

/-- What a program puts into the array for a new image is what the kernel takes out of it, and what
the kernel puts on a new stack is what a program reads there. An array is built if there are no more
arguments than it has room for and their addresses fit into slots. From memory in which it stands,
whatever its unused slots hold, the kernel copies in exactly the strings of the arguments, unless
they are too big. And of a vector that the kernel has marshalled, each entry of the array is the
address of its argument, and the entry behind the last is null. -/
theorem argument_arrays_agree (M : Type) [UserMemory M] [Bytewise M] :
    (∀ (args : List CString) (slots : ArgSlots),
      ((buildArgv args slots).1 = .ok () ↔
        args.length ≤ 64 ∧ ∀ arg ∈ args, arg.address.toNat < 2 ^ 32) ∧
      ∀ slots', buildArgv args slots = (.ok (), slots') →
        (∀ i, args.length < i → slots'[i]? = slots[i]?) ∧
        ∀ (m : M) (argv : UserAddr) (argMax : Nat), Present m argv slots' args →
          ArgVector.copyIn m argv argMax =
            if stringBytes (args.map (·.bytes)) ≤ argMax then
              .ok ⟨args.map (·.bytes), stringBytes (args.map (·.bytes))⟩
            else .error .argumentListTooBig) ∧
    ∀ (v : ArgVector) (top : UserAddr) (m m' : M) (layout : ArgLayout),
      v.marshal top m = .ok layout m' →
        ∃ words : List UInt32, words.length = v.argc + 1 ∧
          (∀ i (hi : i < words.length),
            WordAt m' (layout.argv.toNat + wordSize * i) words[i]) ∧
          (∀ i (hi : i < v.argc),
            (argvEntry words i).toNat =
                layout.argv.toNat + wordSize * (v.argc + 1) + paddedBytes (v.args.take i) ∧
              BlockAt m' (argvEntry words i).toNat (paddedString v.args[i])) ∧
          argvEntry words v.argc = 0 := by
  refine ⟨fun args slots => ⟨buildArgv_eq_ok_iff, fun slots' hbuilt => ⟨fun i hi => ?_, ?_⟩⟩, ?_⟩
  · rw [getElem?_buildArgv hbuilt, if_neg (by omega), if_neg (by omega)]
  · intro m argv argMax hpresent
    exact ArgVector.copyIn_of_argvAt hpresent.nonnull (hpresent.argvAt hbuilt)
  · intro v top m m' layout hrun
    obtain ⟨-, -, -, hlaid, hnull⟩ := ArgVector.ensures_marshal.of_ok hrun
    exact exists_words_of_laidOut hlaid hnull

end

/-- The arguments "ls" and "-l". -/
def twoStrings : List CString := [⟨0x100c, [0x6c, 0x73]⟩, ⟨0x1010, [0x2d, 0x6c]⟩]

/-- An array of three slots, and behind it the two strings. -/
def twoStringsMemory : Mapping where
  base := 0x1000
  bytes := #[0x0c, 0x10, 0, 0, 0x10, 0x10, 0, 0, 0, 0, 0, 0, 0x6c, 0x73, 0, 0, 0x2d, 0x6c, 0, 0]

theorem present_twoStrings :
    Present twoStringsMemory ⟨0x1000⟩ (buildArgv twoStrings (.replicate _ 7)).2 twoStrings where
  nonnull := by decide
  slots i hi w hw := by
    have hi : i ≤ 2 := hi
    obtain rfl | rfl | rfl : i = 0 ∨ i = 1 ∨ i = 2 := by omega
    · cases Option.some.inj hw
      exact ⟨by decide, by unfold WordAt BlockAt; decide⟩
    · cases Option.some.inj hw
      exact ⟨by decide, by unfold WordAt BlockAt; decide⟩
    · cases Option.some.inj hw
      exact ⟨by decide, by unfold WordAt BlockAt; decide⟩
  strings arg harg := by
    obtain rfl | rfl : arg = ⟨0x100c, [0x6c, 0x73]⟩ ∨ arg = ⟨0x1010, [0x2d, 0x6c]⟩ := by
      simpa [twoStrings] using harg
    · exact ⟨by decide, by unfold BlockAt; decide, by decide, by decide +kernel, by decide⟩
    · exact ⟨by decide, by unfold BlockAt; decide, by decide, by decide +kernel, by decide⟩

/-- Both strings are copied in if they fit exactly, and with one byte less they are too big. Stale
slots do not matter. -/
theorem argument_arrays_agree_twoStrings : ∃ slots,
    buildArgv twoStrings (.replicate _ 7) = (.ok (), slots) ∧ slots[3]? = some 7 ∧
      ArgVector.copyIn twoStringsMemory ⟨0x1000⟩ 6 = .ok ⟨[[0x6c, 0x73], [0x2d, 0x6c]], 6⟩ ∧
      ArgVector.copyIn twoStringsMemory ⟨0x1000⟩ 5 = .error .argumentListTooBig := by
  obtain ⟨hbuilds, hcopied⟩ :=
    (argument_arrays_agree Mapping).1 twoStrings (.replicate _ 7)
  have hbuilt : buildArgv twoStrings (.replicate _ 7) = (.ok (), _) :=
    Prod.ext (hbuilds.2 ⟨by decide, by decide⟩) rfl
  obtain ⟨hstale, hcopy⟩ := hcopied _ hbuilt
  exact ⟨_, hbuilt, hstale 3 (by decide), hcopy _ _ 6 present_twoStrings,
    hcopy _ _ 5 present_twoStrings⟩

end User

end UnixCore
