import UnixCore.Exec.Stack
import UnixCore.Proofs.Exec.Walk

/-! The argument vector on a new stack: where marshalling puts the strings and their addresses, and
that a walk over the addresses finds the strings again. Strings and addresses are written in turn
into two areas that both grow upwards, and the area of the addresses ends where that of the strings
begins, so no write touches what an earlier one wrote. -/

namespace UnixCore

open Bytewise

/-! ### Padding -/

theorem le_padded (n : Nat) : n ≤ padded n := by
  unfold padded stackAlign
  omega

theorem dvd_padded (n : Nat) : stackAlign ∣ padded n := Nat.dvd_mul_left _ _

theorem length_paddedString (arg : List UInt8) :
    (paddedString arg).length = padded (arg.length + 1) := by
  have := le_padded (arg.length + 1)
  rw [paddedString, List.length_append, List.length_replicate]
  omega

theorem exists_paddedString_eq (arg : List UInt8) :
    ∃ zeros, paddedString arg = arg ++ 0 :: zeros := by
  have hpad := le_padded (arg.length + 1)
  refine ⟨.replicate (padded (arg.length + 1) - arg.length - 1) 0, ?_⟩
  rw [paddedString, ← List.replicate_succ]
  congr 2
  omega

def paddedBytes (args : List (List UInt8)) : Nat :=
  args.foldr (fun arg size => padded (arg.length + 1) + size) 0

@[simp] theorem paddedBytes_cons (arg : List UInt8) (args : List (List UInt8)) :
    paddedBytes (arg :: args) = padded (arg.length + 1) + paddedBytes args := rfl

theorem dvd_paddedBytes (args : List (List UInt8)) : stackAlign ∣ paddedBytes args := by
  induction args with
  | nil => exact Nat.dvd_zero _
  | cons arg args ih => exact Nat.dvd_add (dvd_padded _) ih

variable {M : Type} [UserMemory M] [Bytewise M]

theorem stringAt_of_paddedString {m : M} {a : Nat} {arg : List UInt8}
    (h : BlockAt m a (paddedString arg)) (hne : ∀ b ∈ arg, b ≠ 0)
    (hbound : a + (paddedString arg).length < UInt64.size) : StringAt m a arg := by
  obtain ⟨zeros, heq⟩ := exists_paddedString_eq arg
  rw [heq] at h hbound
  rw [List.length_append, List.length_cons] at hbound
  refine ⟨fun i hi => ?_, ?_, hne, by omega⟩
  · rw [h i (by rw [List.length_append]; omega), List.getElem_append_left hi]
  · rw [h arg.length (by rw [List.length_append, List.length_cons]; omega)]
    simp

/-! ### Strings and addresses in two areas -/

/-- The strings stand padded from `cursor` on, and the words from `slot` on are their addresses. -/
inductive LaidOut (m : M) : (cursor slot : Nat) → (args : List (List UInt8)) → Prop
  | nil {cursor slot : Nat} : LaidOut m cursor slot []
  | cons {cursor slot : Nat} {w : UInt32} {arg : List UInt8} {args : List (List UInt8)} :
    BlockAt m cursor (paddedString arg) → cursor + (paddedString arg).length < UInt64.size →
      WordAt m slot w → w.toNat = cursor →
      LaidOut m (cursor + (paddedString arg).length) (slot + wordSize) args →
      LaidOut m cursor slot (arg :: args)

def Outside (cursor slot : Nat) (args : List (List UInt8)) (a : Nat) : Prop :=
  (a < slot ∨ slot + wordSize * args.length ≤ a) ∧ (a < cursor ∨ cursor + paddedBytes args ≤ a)

namespace LaidOut

variable {m m' : M} {cursor slot : Nat} {args : List (List UInt8)}

/-- What is laid out stays so while the bytes of both areas stay. -/
theorem congr (h : LaidOut m cursor slot args)
    (same : ∀ a, ¬ Outside cursor slot args a → byte? m' a = byte? m a) :
    LaidOut m' cursor slot args := by
  induction h with
  | nil => exact .nil
  | @cons cursor slot w arg args hblock hbound hword hw _ ih =>
    have hpad := length_paddedString arg
    refine .cons (hblock.congr fun x hx hx' => same x ?_) hbound
      (hword.congr fun x hx hx' => same x ?_) hw (ih fun a ha => same a ?_)
    · unfold Outside
      rw [paddedBytes_cons]
      omega
    · rw [length_wordBytes] at hx'
      unfold Outside wordSize
      rw [List.length_cons]
      omega
    · unfold Outside wordSize at *
      rw [paddedBytes_cons, List.length_cons]
      omega

/-- Each word is the address of its string: where the strings before it end. -/
theorem entry (h : LaidOut m cursor slot args) (i : Nat) (hi : i < args.length) :
    ∃ w, WordAt m (slot + wordSize * i) w ∧ w.toNat = cursor + paddedBytes (args.take i) ∧
      BlockAt m w.toNat (paddedString args[i]) ∧
      w.toNat + (paddedString args[i]).length < UInt64.size := by
  induction h generalizing i with
  | nil => exact absurd hi (Nat.not_lt_zero i)
  | @cons cursor slot w arg args hblock hbound hword hw _ ih =>
    cases i with
    | zero =>
      refine ⟨w, hword, hw, ?_, ?_⟩
      · rw [hw]
        exact hblock
      · rw [hw]
        exact hbound
    | succ i =>
      obtain ⟨w', hword', hw', hrest⟩ := ih i (by simpa using hi)
      refine ⟨w', ?_, ?_, hrest⟩
      · rw [Nat.mul_add_one, Nat.add_comm _ wordSize, ← Nat.add_assoc]
        exact hword'
      · rw [hw', List.take_succ_cons, paddedBytes_cons, length_paddedString, Nat.add_assoc]

theorem pointer (h : LaidOut m cursor slot args) (hpos : 0 < cursor) (hdvd : stackAlign ∣ cursor)
    (hne : ∀ arg ∈ args, ∀ b ∈ arg, b ≠ 0) (i : Nat) (hi : i < args.length) :
    ∃ w, WordAt m (slot + wordSize * i) w ∧ w ≠ 0 ∧ stackAlign ∣ w.toNat ∧
      StringAt m w.toNat args[i] := by
  obtain ⟨w, hword, hw, hblock, hbound⟩ := h.entry i hi
  refine ⟨w, hword, ?_, ?_, stringAt_of_paddedString hblock (hne _ (List.getElem_mem hi)) hbound⟩
  · rintro rfl
    have hzero : (0 : UInt32).toNat = 0 := rfl
    omega
  · rw [hw]
    exact Nat.dvd_add hdvd (dvd_paddedBytes _)

end LaidOut

/-- Addresses at which strings stand, and behind them a zero word, are walked as those strings. -/
theorem ArgvAt.of_pointers {m : M} {slot : Nat} {args : List (List UInt8)}
    (hbound : slot + wordSize * args.length < UInt64.size)
    (hptr : ∀ i (hi : i < args.length),
      ∃ w, WordAt m (slot + wordSize * i) w ∧ w ≠ 0 ∧ StringAt m w.toNat args[i])
    (hnull : WordAt m (slot + wordSize * args.length) 0) : ArgvAt m slot args := by
  induction args generalizing slot with
  | nil => exact .nil hbound hnull
  | cons arg args ih =>
    have hnext (i : Nat) : slot + wordSize * (i + 1) = slot + wordSize + wordSize * i := by
      unfold wordSize
      omega
    rw [List.length_cons, hnext] at hbound hnull
    obtain ⟨w, hw, hne, harg⟩ := hptr 0 (by simp)
    refine .cons (by omega) hw hne harg (ih hbound (fun i hi => ?_) hnull)
    rw [← hnext]
    exact hptr (i + 1) (by simpa using hi)

namespace ArgVector

omit [Bytewise M] in
/-- One round of marshalling: a string, its address, and then the others from the next places on.
It can also fail where an address does not fit. -/
theorem ensures_marshalFrom_cons {m : M} {cursor slot : UserAddr} {arg : List UInt8}
    {args : List (List UInt8)} {ok : UserAddr → M → Prop} {error : Errno → M → Prop}
    (h : (UserMemory.store (paddedString arg) cursor).Ensures m
      (fun _ m₁ =>
        (∀ w : UInt32, w.toNat = cursor.toNat →
          (UserMemory.storeWord w slot).Ensures m₁
            (fun _ m₂ =>
              (∀ cursor' slot' : UserAddr,
                cursor'.toNat = cursor.toNat + (paddedString arg).length →
                slot'.toNat = slot.toNat + wordSize →
                  (marshalFrom cursor' slot' args).Ensures m₂ ok error) ∧
              (UInt64.size ≤ cursor.toNat + (paddedString arg).length ∨
                UInt64.size ≤ slot.toNat + wordSize → error .badAddress m₂))
            error) ∧
        (UInt32.size ≤ cursor.toNat → error .badAddress m₁))
      error) :
    (marshalFrom cursor slot (arg :: args)).Ensures m ok error := by
  simp only [marshalFrom, Action.ensures_bind]
  refine h.mono (fun _ m₁ h₁ => ?_) fun _ _ h => h
  refine Action.ensures_ofExcept.2 ⟨fun w hw => ?_, fun e he => ?_⟩
  · refine (h₁.1 w (UserAddr.toWord_eq_ok.1 hw)).mono (fun _ m₂ h₂ => ?_) fun _ _ h => h
    refine Action.ensures_ofExcept.2 ⟨fun cursor' hc => ?_, fun e he => ?_⟩
    · refine Action.ensures_ofExcept.2 ⟨fun slot' hs => ?_, fun e he => ?_⟩
      · exact h₂.1 cursor' slot' (UserAddr.add_eq_ok.1 hc) (UserAddr.add_eq_ok.1 hs)
      · obtain ⟨rfl, hover⟩ := UserAddr.add_eq_error.1 he
        exact h₂.2 (.inr hover)
    · obtain ⟨rfl, hover⟩ := UserAddr.add_eq_error.1 he
      exact h₂.2 (.inl hover)
  · obtain ⟨rfl, hhigh⟩ := UserAddr.toWord_eq_error.1 he
    exact h₁.2 hhigh

/-- Marshalling lays the strings and their addresses out and leaves the other bytes alone, also
when it fails halfway. -/
theorem ensures_marshalFrom {m : M} {cursor slot : UserAddr} {args : List (List UInt8)}
    (h : slot.toNat + wordSize * args.length ≤ cursor.toNat) :
    (marshalFrom cursor slot args).Ensures m
      (fun last m' => last.toNat = slot.toNat + wordSize * args.length ∧
        LaidOut m' cursor.toNat slot.toNat args ∧
        ∀ a, Outside cursor.toNat slot.toNat args a → byte? m' a = byte? m a)
      (fun _ m' => ∀ a, Outside cursor.toNat slot.toNat args a → byte? m' a = byte? m a) := by
  induction args generalizing m cursor slot with
  | nil => exact ⟨rfl, .nil, fun a _ => rfl⟩
  | cons arg args ih =>
    have hlen := length_paddedString arg
    rw [List.length_cons] at h
    have hslot : slot.toNat + wordSize ≤ cursor.toNat := by
      unfold wordSize at *
      omega
    -- An address outside both areas is outside what each of the three steps writes.
    have houtside {a : Nat} (ha : Outside cursor.toNat slot.toNat (arg :: args) a) :
        (a < cursor.toNat ∨ cursor.toNat + (paddedString arg).length ≤ a) ∧
          (a < slot.toNat ∨ slot.toNat + wordSize ≤ a) ∧
          Outside (cursor.toNat + (paddedString arg).length) (slot.toNat + wordSize) args a := by
      unfold Outside wordSize at *
      rw [paddedBytes_cons, List.length_cons] at ha
      omega
    refine ensures_marshalFrom_cons
      (ensures_store.mono (fun _ m₁ h₁ => ?_) fun _ m₁ h₁ a _ => by rw [h₁])
    obtain ⟨hblock, hkept₁⟩ := h₁
    refine ⟨fun w hw => ?_, fun _ a ha => hkept₁ a (houtside ha).1⟩
    refine ensures_store.mono (fun _ m₂ h₂ => ?_) fun _ m₂ h₂ a ha => ?_
    · obtain ⟨hword, hkept₂⟩ := h₂
      change ∀ a, _ ∨ slot.toNat + wordSize ≤ a → _ at hkept₂
      have hkept {a : Nat} (ha : Outside cursor.toNat slot.toNat (arg :: args) a) :
          byte? m₂ a = byte? m a :=
        (hkept₂ a (houtside ha).2.1).trans (hkept₁ a (houtside ha).1)
      refine ⟨fun cursor' slot' hc hs => ?_, fun _ a ha => hkept ha⟩
      have hbound := cursor'.toNat_lt
      have hnext : slot'.toNat + wordSize * args.length ≤ cursor'.toNat := by
        unfold wordSize at *
        omega
      refine (ih hnext).mono (fun last m₃ h₃ => ?_) fun _ m₃ h₃ a ha => ?_
      · obtain ⟨hlast, hrest, hkept₃⟩ := h₃
        rw [hc, hs] at hrest hkept₃
        refine ⟨?_, .cons ?_ (by omega) ?_ hw hrest, fun a ha => ?_⟩
        · rw [hlast, hs, List.length_cons]
          unfold wordSize
          omega
        · apply hblock.congr
          intro a ha ha'
          have hafter : slot.toNat + wordSize + wordSize * args.length ≤ a := by
            unfold wordSize at *
            omega
          rw [hkept₃ a ⟨.inr hafter, .inl ha'⟩, hkept₂ a (by omega)]
        · refine BlockAt.congr hword fun a ha ha' => hkept₃ a ?_
          rw [length_wordBytes] at ha'
          unfold Outside wordSize at *
          omega
        · rw [hkept₃ a (houtside ha).2.2, hkept ha]
      · rw [hc, hs] at h₃
        rw [h₃ a (houtside ha).2.2, hkept ha]
    · rw [h₂]
      exact hkept₁ a (houtside ha).1

theorem stackSize_eq (v : ArgVector) :
    v.stackSize = paddedBytes v.args + wordSize * (v.argc + 1) := rfl

theorem dvd_stackSize (v : ArgVector) : stackAlign ∣ v.stackSize :=
  Nat.dvd_add (dvd_paddedBytes v.args) (Nat.dvd_mul_right _ _)

/-- A marshalled vector is laid out from its aligned pointer array on, with a zero word between the
addresses and the strings. -/
theorem ensures_marshal {m : M} {v : ArgVector} {top : UserAddr} :
    (v.marshal top).Ensures m
      (fun layout m' => layout.argc = v.argc ∧ stackAlign ∣ layout.argv.toNat ∧
        layout.argv.toNat + v.stackSize < UInt64.size ∧
        LaidOut m' (layout.argv.toNat + wordSize * (v.argc + 1)) layout.argv.toNat v.args ∧
        WordAt m' (layout.argv.toNat + wordSize * v.argc) 0)
      (fun _ _ => True) := by
  unfold marshal
  cases hsp : (top.alignDown stackAlign).sub v.stackSize with
  | error e => exact trivial
  | ok sp =>
    have htop := (top.alignDown stackAlign).toNat_lt
    rw [UserAddr.sub_eq_ok, UserAddr.toNat_alignDown] at hsp
    rw [UserAddr.toNat_alignDown] at htop
    have hsize := v.stackSize_eq
    have hdvd : stackAlign ∣ sp.toNat := by
      rw [Nat.dvd_add_iff_left v.dvd_stackSize, hsp]
      exact Nat.dvd_mul_left _ _
    simp only [Action.ensures_bind]
    refine Action.ensures_ofExcept.2 ⟨fun cursor hc => ?_, fun _ _ => trivial⟩
    rw [UserAddr.add_eq_ok] at hc
    have harea : sp.toNat + wordSize * v.args.length ≤ cursor.toNat := by
      rw [hc]
      unfold argc wordSize
      omega
    refine (ensures_marshalFrom harea).mono (fun last m₁ h₁ => ?_) fun _ _ _ => trivial
    obtain ⟨hlast, hlaid, -⟩ := h₁
    refine ensures_store.mono (fun _ m₂ h₂ => ?_) fun _ _ _ => trivial
    obtain ⟨hnull, hkept⟩ := h₂
    rw [hlast] at hnull
    refine ⟨rfl, hdvd, by change sp.toNat + v.stackSize < UInt64.size; omega, ?_, hnull⟩
    rw [← hc]
    refine hlaid.congr fun a ha => hkept a ?_
    rw [hlast, length_wordBytes]
    unfold Outside argc wordSize at *
    omega

end ArgVector

end UnixCore
