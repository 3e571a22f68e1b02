import UnixCore.Exec.ArgVector
import UnixCore.Proofs.Memory.Bytes

/-! The argument strings behind a pointer array in user memory, found by a walk over its words, and
the vector that the kernel copies in: the strings of the walk, if they fit. -/

namespace UnixCore

variable {M : Type} [UserMemory M] [Bytewise M]

open Bytewise

/-- The words from `slot` on point to the strings `args`, up to the first zero word. -/
inductive ArgvAt (m : M) : (slot : Nat) → (args : List (List UInt8)) → Prop
  | nil {slot : Nat} : slot < UInt64.size → WordAt m slot 0 → ArgvAt m slot []
  | cons {slot : Nat} {w : UInt32} {arg : List UInt8} {args : List (List UInt8)} :
    slot < UInt64.size → WordAt m slot w → w ≠ 0 → StringAt m w.toNat arg →
      ArgvAt m (slot + wordSize) args → ArgvAt m slot (arg :: args)

def stringBytes (args : List (List UInt8)) : Nat :=
  args.foldr (fun arg size => arg.length + 1 + size) 0

@[simp] theorem stringBytes_nil : stringBytes [] = 0 := rfl

@[simp] theorem stringBytes_cons (arg : List UInt8) (args : List (List UInt8)) :
    stringBytes (arg :: args) = arg.length + 1 + stringBytes args := rfl

namespace ArgvAt

variable {m : M} {slot : Nat} {args : List (List UInt8)}

theorem iff_of_zero (hlt : slot < UInt64.size) (hw : WordAt m slot 0) :
    ArgvAt m slot args ↔ args = [] := by
  constructor
  · intro h
    cases h with
    | nil => rfl
    | cons _ hw' hne => exact absurd (hw'.unique hw) hne
  · rintro rfl
    exact .nil hlt hw

theorem iff_of_ne {w : UInt32} (hlt : slot < UInt64.size) (hw : WordAt m slot w) (hne : w ≠ 0) :
    ArgvAt m slot args ↔
      ∃ arg rest, args = arg :: rest ∧ StringAt m w.toNat arg ∧
        ArgvAt m (slot + wordSize) rest := by
  constructor
  · intro h
    cases h with
    | nil _ hw' => exact absurd (hw.unique hw') hne
    | cons _ hw' _ harg hrest =>
      rw [hw'.unique hw] at harg
      exact ⟨_, _, rfl, harg, hrest⟩
  · rintro ⟨arg, rest, rfl, harg, hrest⟩
    exact .cons hlt hw hne harg hrest

theorem unique {args' : List (List UInt8)} (h : ArgvAt m slot args) (h' : ArgvAt m slot args') :
    args = args' := by
  induction h generalizing args' with
  | nil hlt hw => exact ((iff_of_zero hlt hw).1 h').symm
  | cons hlt hw hne harg _ ih =>
    obtain ⟨arg', rest', rfl, harg', hrest'⟩ := (iff_of_ne hlt hw hne).1 h'
    rw [harg.unique harg', ih hrest']

theorem nonzero (h : ArgvAt m slot args) : ∀ arg ∈ args, ∀ b ∈ arg, b ≠ 0 := by
  induction h with
  | nil => exact fun arg harg => absurd harg List.not_mem_nil
  | cons _ _ _ harg _ ih =>
    intro arg hmem
    rcases List.mem_cons.1 hmem with rfl | hmem
    · exact harg.nonzero
    · exact ih arg hmem

end ArgvAt

namespace ArgVector

section

variable {M : Type} [UserMemory M] {m : M}

/-- What becomes of the copy when a pointer word has been read. -/
theorem copyInFrom_of_word {argv slot : UserAddr} {argMax : Nat} {got : Array (List UInt8)}
    {total : Nat} {w : UInt32} (hslot : argv.add (got.size * wordSize) = .ok slot)
    (hw : UserMemory.copyInWord m slot = .ok w) :
    copyInFrom m argv argMax got total =
      if (UserAddr.ofWord w).isNull then .ok ⟨got.toList, total⟩
      else if total < argMax then
        match UserMemory.copyInStr m (.ofWord w) (argMax - total) with
        | .ok arg =>
          copyInFrom m argv argMax (got.push arg) (total + (arg.length + 1))
        | .error e => .error (if e = .nameTooLong then .argumentListTooBig else e)
      else .error .argumentListTooBig := by
  rw [copyInFrom, hslot]
  simp only [bind, Except.bind, hw, dite_eq_ite]
  congr 2
  cases UserMemory.copyInStr m (.ofWord w) (argMax - total) with
  | ok arg => rfl
  | error e =>
    by_cases he : e = .nameTooLong
    · rw [he]
      rfl
    · simp only [he, ↓reduceIte]

end

variable {m : M} {argv : UserAddr} {argMax : Nat} {got : Array (List UInt8)} {total : Nat}
  {v : ArgVector}

theorem copyInFrom_eq_ok_iff_slot :
    copyInFrom m argv argMax got total = .ok v ↔
      argv.toNat + got.size * wordSize < UInt64.size ∧
        ∃ w, WordAt m (argv.toNat + got.size * wordSize) w ∧
          ((w = 0 ∧ v = ⟨got.toList, total⟩) ∨
            (w ≠ 0 ∧ ∃ arg, StringAt m w.toNat arg ∧ total + (arg.length + 1) ≤ argMax ∧
              copyInFrom m argv argMax (got.push arg) (total + (arg.length + 1)) = .ok v)) := by
  rw [copyInFrom]
  cases hslot : argv.add (got.size * wordSize) with
  | error e =>
    have hover := (UserAddr.add_eq_error.1 hslot).2
    apply iff_of_false
    · intro h
      cases h
    · rintro ⟨hlt, -⟩
      omega
  | ok slot =>
    rw [← UserAddr.add_eq_ok.1 hslot]
    simp only [bind, Except.bind, slot.toNat_lt, true_and]
    cases hword : UserMemory.copyInWord m slot with
    | error e =>
      apply iff_of_false
      · intro h
        cases h
      · rintro ⟨w, hw, -⟩
        rw [copyInWord_eq_ok.2 hw] at hword
        cases hword
    | ok w =>
      have hw := copyInWord_eq_ok.1 hword
      have hnull : (UserAddr.ofWord w).isNull = true ↔ w = 0 := UserAddr.isNull_ofWord
      dsimp only
      constructor
      · intro h
        refine ⟨w, hw, ?_⟩
        split at h
        case isTrue hzero => exact .inl ⟨hnull.1 hzero, (Except.ok.inj h).symm⟩
        case isFalse hne =>
          split at h
          case isFalse => cases h
          case isTrue hlt =>
            split at h
            case h_1 arg harg =>
              obtain ⟨-, hlen, hs⟩ := copyInStr_eq_ok.1 harg
              rw [UserAddr.toNat_ofWord] at hs
              exact .inr ⟨fun h0 => hne (hnull.2 h0), arg, hs, by omega, h⟩
            all_goals cases h
      · rintro ⟨w', hw', h⟩
        obtain rfl := hw.unique hw'
        rcases h with ⟨rfl, rfl⟩ | ⟨hne, arg, hs, hfit, h⟩
        · rw [if_pos (hnull.2 rfl)]
          rfl
        · have hstr : UserMemory.copyInStr m (UserAddr.ofWord w) (argMax - total) = .ok arg := by
            refine copyInStr_eq_ok.2 ⟨?_, by omega, ?_⟩
            · rw [Bool.eq_false_iff]
              exact fun h0 => hne (hnull.1 h0)
            · rwa [UserAddr.toNat_ofWord]
          rw [if_neg fun h0 => hne (hnull.1 h0), dif_pos (by omega), hstr]
          exact h

theorem copyInFrom_eq_ok :
    copyInFrom m argv argMax got total = .ok v ↔
      ∃ args, ArgvAt m (argv.toNat + got.size * wordSize) args ∧
        v = ⟨got.toList ++ args, total + stringBytes args⟩ ∧
        (args = [] ∨ total + stringBytes args ≤ argMax) := by
  -- Every string takes at least its terminator, so what is left of the limit goes down.
  induction hleft : argMax - total using Nat.strongRecOn generalizing got total with
  | _ left ih =>
  rw [copyInFrom_eq_ok_iff_slot]
  have hnext (arg : List UInt8) : argv.toNat + (got.push arg).size * wordSize =
      argv.toNat + got.size * wordSize + wordSize := by
    rw [Array.size_push, Nat.add_mul]
    omega
  constructor
  · rintro ⟨hlt, w, hw, ⟨rfl, rfl⟩ | ⟨hne, arg, harg, hfit, h⟩⟩
    · exact ⟨[], .nil hlt hw, by simp, .inl rfl⟩
    · obtain ⟨args, hargs, rfl, hrest⟩ := (ih _ (by omega) rfl).1 h
      rw [hnext] at hargs
      refine ⟨arg :: args, .cons hlt hw hne harg hargs, ?_, .inr ?_⟩
      · simp [Nat.add_assoc]
      · rw [stringBytes_cons]
        rcases hrest with rfl | hrest
        · simpa using hfit
        · omega
  · rintro ⟨args, hargs, rfl, hfit⟩
    cases hargs with
    | nil hlt hw => exact ⟨hlt, 0, hw, .inl ⟨rfl, by simp⟩⟩
    | @cons _ w arg args hlt hw hne harg hrest =>
      rw [stringBytes_cons] at hfit
      have hfit : total + (arg.length + 1 + stringBytes args) ≤ argMax :=
        hfit.resolve_left (List.cons_ne_nil arg args)
      refine ⟨hlt, w, hw, .inr ⟨hne, arg, harg, by omega, (ih _ (by omega) rfl).2 ?_⟩⟩
      exact ⟨args, by rwa [hnext], by simp [Nat.add_assoc], .inr (by omega)⟩

/-- A vector is copied in if and only if the walk finds strings that fit, and it is the vector of
those strings. -/
theorem copyIn_eq_ok :
    copyIn m argv argMax = .ok v ↔
      argv.isNull = false ∧ ∃ args, ArgvAt m argv.toNat args ∧ v = ⟨args, stringBytes args⟩ ∧
        stringBytes args ≤ argMax := by
  unfold copyIn
  cases argv.isNull with
  | true => simp
  | false =>
    rw [if_neg Bool.false_ne_true, copyInFrom_eq_ok]
    constructor
    · rintro ⟨args, hargs, rfl, hfit⟩
      refine ⟨rfl, args, by simpa using hargs, by simp, ?_⟩
      rcases hfit with rfl | hfit
      · exact Nat.zero_le _
      · omega
    · rintro ⟨-, args, hargs, rfl, hfit⟩
      exact ⟨args, by simpa using hargs, by simp, .inr (by omega)⟩

/-- Strings that do not fit are too many, whichever of them is the first that does not. -/
theorem copyInFrom_of_big {args : List (List UInt8)}
    (h : ArgvAt m (argv.toNat + got.size * wordSize) args) (hfit : total ≤ argMax)
    (hbig : argMax < total + stringBytes args) :
    copyInFrom m argv argMax got total = .error .argumentListTooBig := by
  induction args generalizing got total with
  | nil =>
    rw [stringBytes_nil] at hbig
    omega
  | cons arg args ih =>
    cases h with | @cons _ w _ _ hlt hw hne harg hrest =>
    obtain ⟨slot, hslot⟩ := UserAddr.exists_add hlt
    rw [← UserAddr.add_eq_ok.1 hslot] at hw hrest
    have hnull : (UserAddr.ofWord w).isNull = false := by
      rw [Bool.eq_false_iff, ne_eq, UserAddr.isNull_ofWord]
      exact hne
    rw [← UserAddr.toNat_ofWord] at harg
    rw [stringBytes_cons] at hbig
    rw [copyInFrom_of_word hslot (copyInWord_eq_ok.2 hw), hnull, if_neg Bool.false_ne_true]
    split
    case isFalse => rfl
    case isTrue hleft =>
      by_cases hlong : argMax - total ≤ arg.length
      · rw [copyInStr_of_long hnull harg hlong]
        rfl
      · rw [copyInStr_eq_ok.2 ⟨hnull, by omega, harg⟩]
        refine ih ?_ (by omega) (by omega)
        rw [Array.size_push, Nat.add_mul, Nat.one_mul, ← Nat.add_assoc,
          ← UserAddr.add_eq_ok.1 hslot]
        exact hrest

/-- Where a walk finds strings, those are copied in, or they do not fit. -/
theorem copyIn_of_argvAt {args : List (List UInt8)} (hnull : argv.isNull = false)
    (h : ArgvAt m argv.toNat args) :
    copyIn m argv argMax =
      if stringBytes args ≤ argMax then .ok ⟨args, stringBytes args⟩
      else .error .argumentListTooBig := by
  split
  case isTrue hfit => exact copyIn_eq_ok.2 ⟨hnull, args, h, rfl, hfit⟩
  case isFalse hbig =>
    rw [copyIn, hnull]
    exact copyInFrom_of_big (by simpa using h) (Nat.zero_le argMax) (by omega)

end ArgVector

end UnixCore
