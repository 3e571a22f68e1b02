import UnixCore.Memory.AddressSpace
import UnixCore.Proofs.Action

/-! User memory as a partial map from addresses to bytes: the words and strings that stand in it,
what the copies find there, and what a store changes. -/

namespace UnixCore

/-- The `n` addresses from `a` on are all in `mapped`. -/
def AreaIn (mapped : Nat → Prop) (a n : Nat) : Prop :=
  ∀ x, a ≤ x → x < a + n → mapped x

theorem areaIn_zero {mapped : Nat → Prop} {a : Nat} : AreaIn mapped a 0 :=
  fun x hx hx' => absurd hx' (by omega)

theorem areaIn_add {mapped : Nat → Prop} {a n k : Nat} :
    AreaIn mapped a (n + k) ↔ AreaIn mapped a n ∧ AreaIn mapped (a + n) k := by
  constructor
  · intro h
    exact ⟨fun x hx hx' => h x hx (by omega), fun x hx hx' => h x (by omega) (by omega)⟩
  · rintro ⟨hlow, hhigh⟩ x hx hx'
    by_cases hmid : x < a + n
    · exact hlow x hx hmid
    · exact hhigh x (by omega) (by omega)

/-- One step of the copy of a string, where there is a byte to copy. -/
theorem UserMemory.copyInStrFrom_of_byte {M : Type} [UserMemory M] {m : M} {src place : UserAddr}
    {got : Array UInt8} {left : Nat} {b : UInt8} (hplace : src.add got.size = .ok place)
    (hbyte : copyIn m place 1 = .ok #v[b]) :
    copyInStrFrom m src got (left + 1) =
      if b = 0 then .ok got.toList else copyInStrFrom m src (got.push b) left := by
  rw [copyInStrFrom, hplace]
  simp only [bind, Except.bind, hbyte]
  rfl

/-- User memory whose copies are determined by the byte at each mapped address. -/
class Bytewise (M : Type) [UserMemory M] where
  byte? : M → (address : Nat) → Option UInt8
  copyIn_eq_ok {m : M} {src : UserAddr} {count : Nat} {v : Vector UInt8 count} (h : 0 < count) :
    UserMemory.copyIn m src count = .ok v ↔
      ∀ i (hi : i < count), byte? m (src.toNat + i) = some v[i]
  byte?_copyOut {m m' : M} {bytes : List UInt8} {dst : UserAddr}
    (h : UserMemory.copyOut m bytes dst = .ok m') (a : Nat) :
    byte? m' a =
      if dst.toNat ≤ a ∧ a < dst.toNat + bytes.length then bytes[a - dst.toNat]? else byte? m a

namespace Mapping

def byte? (m : Mapping) (a : Nat) : Option UInt8 :=
  if m.base.toNat ≤ a then m.bytes[a - m.base.toNat]? else none

theorem byte?_of_le {m : Mapping} {a : Nat} (h : m.base.toNat ≤ a) :
    m.byte? a = m.bytes[a - m.base.toNat]? := if_pos h

theorem bounds_of_byte? {m : Mapping} {a : Nat} {b : UInt8} (h : m.byte? a = some b) :
    m.base.toNat ≤ a ∧ a - m.base.toNat < m.bytes.size := by
  unfold byte? at h
  split at h
  case isTrue hle => exact ⟨hle, (Array.getElem?_eq_some_iff.1 h).1⟩
  case isFalse => cases h

theorem copyIn_eq_ok {m : Mapping} {src : UserAddr} {count : Nat} {v : Vector UInt8 count}
    (h : 0 < count) :
    UserMemory.copyIn m src count = .ok v ↔
      ∀ i (hi : i < count), m.byte? (src.toNat + i) = some v[i] := by
  constructor
  · intro hv i hi
    simp only [UserMemory.copyIn] at hv
    split at hv
    case isTrue hcov =>
      obtain ⟨hle, hsize⟩ := hcov
      cases hv
      rw [byte?_of_le (by omega), Array.getElem?_eq_getElem (by omega)]
      simp only [Vector.getElem_mk, Array.getElem_extract]
      congr 2
      omega
    case isFalse => cases hv
  · intro hv
    obtain ⟨hle, -⟩ := bounds_of_byte? (hv 0 h)
    obtain ⟨-, hlast⟩ := bounds_of_byte? (hv (count - 1) (by omega))
    have hcov : m.Covers src count := ⟨by omega, by omega⟩
    simp only [UserMemory.copyIn, hcov, ↓reduceDIte]
    congr 1
    apply Vector.ext
    intro i hi
    have hbyte := hv i hi
    rw [byte?_of_le (by omega)] at hbyte
    obtain ⟨hi', hbyte⟩ := Array.getElem?_eq_some_iff.1 hbyte
    rw [← hbyte]
    simp only [Vector.getElem_mk, Array.getElem_extract]
    congr 1
    omega

theorem byte?_copyOut {m m' : Mapping} {bytes : List UInt8} {dst : UserAddr}
    (h : UserMemory.copyOut m bytes dst = .ok m') (a : Nat) :
    m'.byte? a =
      if dst.toNat ≤ a ∧ a < dst.toNat + bytes.length then bytes[a - dst.toNat]?
      else m.byte? a := by
  simp only [UserMemory.copyOut] at h
  split at h
  case isTrue hcov =>
    obtain ⟨hle, hsize⟩ := hcov
    cases h
    by_cases ha : m.base.toNat ≤ a
    · simp only [byte?, if_pos ha]
      rw [getElem?_overwrite _ _ _ _ hsize,
        show a - m.base.toNat - (dst.toNat - m.base.toNat) = a - dst.toNat by omega]
      congr 1
      rw [eq_iff_iff]
      omega
    · simp [byte?, ha, show ¬ dst.toNat ≤ a by omega]
  case isFalse => cases h

instance : Bytewise Mapping where
  byte?
  copyIn_eq_ok := copyIn_eq_ok
  byte?_copyOut := byte?_copyOut

end Mapping

instance : Bytewise AddressSpace where
  byte? s a := s.memory.byte? a
  copyIn_eq_ok := Mapping.copyIn_eq_ok
  byte?_copyOut {s s' bytes dst} h a := by
    obtain ⟨m, hm, heq⟩ : ∃ m, UserMemory.copyOut s.memory bytes dst = .ok m ∧
        s' = { s with memory := m } := by
      cases hm : UserMemory.copyOut s.memory bytes dst with
      | ok m =>
        refine ⟨m, rfl, ?_⟩
        simp only [UserMemory.copyOut] at h hm
        rw [hm] at h
        exact (Except.ok.inj h).symm
      | error e =>
        simp only [UserMemory.copyOut] at h hm
        rw [hm] at h
        cases h
    rw [heq]
    exact Mapping.byte?_copyOut hm a

namespace Bytewise

variable {M : Type} [UserMemory M] [Bytewise M]

theorem copyIn_one_iff {m : M} {a : UserAddr} {b : UInt8} :
    UserMemory.copyIn m a 1 = .ok #v[b] ↔ byte? m a.toNat = some b := by
  rw [copyIn_eq_ok Nat.one_pos]
  constructor
  · intro h
    exact h 0 Nat.one_pos
  · intro h i hi
    obtain rfl : i = 0 := by omega
    exact h

/-! ### Blocks -/

def BlockAt (m : M) (a : Nat) (bytes : List UInt8) : Prop :=
  ∀ i (hi : i < bytes.length), byte? m (a + i) = some bytes[i]

theorem BlockAt.congr {m m' : M} {a : Nat} {bytes : List UInt8} (h : BlockAt m a bytes)
    (same : ∀ x, a ≤ x → x < a + bytes.length → byte? m' x = byte? m x) :
    BlockAt m' a bytes := by
  intro i hi
  rw [same (a + i) (by omega) (by omega)]
  exact h i hi

theorem BlockAt.unique {m : M} {a : Nat} {bytes bytes' : List UInt8} (h : BlockAt m a bytes)
    (h' : BlockAt m a bytes') (hlen : bytes.length = bytes'.length) : bytes = bytes' := by
  apply List.ext_getElem hlen
  intro i hi hi'
  exact Option.some.inj ((h i hi).symm.trans (h' i hi'))

/-- A store puts its bytes at the destination and changes nothing else. -/
theorem ensures_store {m : M} {bytes : List UInt8} {dst : UserAddr} :
    (UserMemory.store bytes dst).Ensures m
      (fun _ m' => BlockAt m' dst.toNat bytes ∧
        ∀ a, a < dst.toNat ∨ dst.toNat + bytes.length ≤ a → byte? m' a = byte? m a)
      fun _ m' => m' = m := by
  unfold Action.Ensures UserMemory.store
  cases h : UserMemory.copyOut m bytes dst with
  | error e => rfl
  | ok m' =>
    refine ⟨fun i hi => ?_, fun a ha => ?_⟩
    · rw [byte?_copyOut h, if_pos (by omega), Nat.add_sub_cancel_left, List.getElem?_eq_getElem hi]
    · rw [byte?_copyOut h, if_neg (by omega)]

/-! ### Words -/

def WordAt (m : M) (a : Nat) (w : UInt32) : Prop := BlockAt m a (wordBytes w)

theorem wordBytes_wordOfBytes (v : Vector UInt8 4) : wordBytes (wordOfBytes v) = v.toList := by
  have h0 := v[0].toNat_lt
  have h1 := v[1].toNat_lt
  have h2 := v[2].toNat_lt
  have h3 := v[3].toNat_lt
  have hw : (wordOfBytes v).toNat =
      v[0].toNat + 2 ^ 8 * v[1].toNat + 2 ^ 16 * v[2].toNat + 2 ^ 24 * v[3].toNat := by
    simp only [wordOfBytes, UInt32.toNat_ofNat']
    omega
  apply List.ext_getElem (by rw [length_wordBytes, Vector.length_toList])
  intro i hi _
  rw [length_wordBytes] at hi
  apply UInt8.toNat_inj.1
  match i with
  | 0 => simp [wordBytes, hw]
  | 1 | 2 | 3 => simp [wordBytes, hw]; omega

theorem wordBytes_inj {w w' : UInt32} (h : wordBytes w = wordBytes w') : w = w' := by
  rw [← wordOfBytes_wordBytes w, ← wordOfBytes_wordBytes w']
  simp only [h]

theorem WordAt.unique {m : M} {a : Nat} {w w' : UInt32} (h : WordAt m a w) (h' : WordAt m a w') :
    w = w' :=
  wordBytes_inj (BlockAt.unique h h' rfl)

omit [Bytewise M] in
theorem copyInWord_eq_ok_iff_block {m : M} {src : UserAddr} {w : UInt32} :
    UserMemory.copyInWord m src = .ok w ↔
      ∃ v, UserMemory.copyIn m src 4 = .ok v ∧ wordOfBytes v = w := by
  unfold UserMemory.copyInWord
  cases UserMemory.copyIn m src 4 with
  | ok v => simp [bind, Except.bind, pure, Except.pure]
  | error e => simp [bind, Except.bind]

theorem copyInWord_eq_ok {m : M} {src : UserAddr} {w : UInt32} :
    UserMemory.copyInWord m src = .ok w ↔ WordAt m src.toNat w := by
  rw [copyInWord_eq_ok_iff_block]
  constructor
  · rintro ⟨v, hv, rfl⟩ i hi
    rw [length_wordBytes] at hi
    rw [(copyIn_eq_ok (by omega)).1 hv i hi]
    simp only [wordBytes_wordOfBytes, Vector.getElem_toList]
  · intro h
    have hsize : (wordBytes w).toArray.size = 4 := length_wordBytes w
    refine ⟨⟨(wordBytes w).toArray, hsize⟩, ?_, wordOfBytes_wordBytes w⟩
    apply (copyIn_eq_ok (by omega)).2
    intro i hi
    exact h i hi

/-! ### Strings -/

/-- The string `s` stands at `a`: its bytes, none of them zero, and then a zero byte, all of them at
addresses that exist. -/
structure StringAt (m : M) (a : Nat) (s : List UInt8) : Prop where
  bytes : BlockAt m a s
  nul : byte? m (a + s.length) = some 0
  nonzero : ∀ b ∈ s, b ≠ 0
  bound : a + s.length < UInt64.size

theorem stringAt_nil {m : M} {a : Nat} :
    StringAt m a [] ↔ byte? m a = some 0 ∧ a < UInt64.size := by
  constructor
  · intro h
    exact ⟨h.nul, h.bound⟩
  · rintro ⟨hnul, hbound⟩
    exact ⟨fun i hi => absurd hi (Nat.not_lt_zero i), hnul, fun b hb => absurd hb List.not_mem_nil,
      hbound⟩

theorem stringAt_cons {m : M} {a : Nat} {b : UInt8} {s : List UInt8} :
    StringAt m a (b :: s) ↔
      byte? m a = some b ∧ b ≠ 0 ∧ a < UInt64.size ∧ StringAt m (a + 1) s := by
  constructor
  · intro h
    have hbound := h.bound
    have hnul := h.nul
    rw [List.length_cons] at hbound hnul
    refine ⟨h.bytes 0 (by simp), h.nonzero b List.mem_cons_self, by omega, fun i hi => ?_, ?_,
      fun c hc => h.nonzero c (List.mem_cons_of_mem b hc), by omega⟩
    · have hbyte := h.bytes (i + 1) (by rw [List.length_cons]; omega)
      rw [show a + (i + 1) = a + 1 + i by omega] at hbyte
      simpa using hbyte
    · rwa [show a + 1 + s.length = a + (s.length + 1) by omega]
  · rintro ⟨hb, hne, -, h⟩
    have hbound := h.bound
    have hnul := h.nul
    refine ⟨fun i hi => ?_, ?_, fun c hc => ?_, by rw [List.length_cons]; omega⟩
    · cases i with
      | zero => exact hb
      | succ i =>
        rw [show a + (i + 1) = a + 1 + i by omega, List.getElem_cons_succ]
        exact h.bytes i (by simpa using hi)
    · rwa [List.length_cons, show a + (s.length + 1) = a + 1 + s.length by omega]
    · rcases List.mem_cons.1 hc with rfl | hc
      · exact hne
      · exact h.nonzero c hc

theorem StringAt.exists_byte {m : M} {a : Nat} {s : List UInt8} (h : StringAt m a s) :
    ∃ b, byte? m a = some b ∧ a < UInt64.size := by
  cases s with
  | nil => exact ⟨0, stringAt_nil.1 h⟩
  | cons b s =>
    obtain ⟨hb, -, hbound, -⟩ := stringAt_cons.1 h
    exact ⟨b, hb, hbound⟩

theorem stringAt_of_zero {m : M} {a : Nat} {s : List UInt8} (hb : byte? m a = some 0)
    (hbound : a < UInt64.size) : StringAt m a s ↔ s = [] := by
  constructor
  · intro h
    cases s with
    | nil => rfl
    | cons b s =>
      obtain ⟨hb', hne, -⟩ := stringAt_cons.1 h
      rw [hb] at hb'
      exact absurd (Option.some.inj hb').symm hne
  · rintro rfl
    exact stringAt_nil.2 ⟨hb, hbound⟩

theorem stringAt_of_ne {m : M} {a : Nat} {b : UInt8} {s : List UInt8} (hb : byte? m a = some b)
    (hne : b ≠ 0) (hbound : a < UInt64.size) :
    StringAt m a s ↔ ∃ s', s = b :: s' ∧ StringAt m (a + 1) s' := by
  constructor
  · intro h
    cases s with
    | nil =>
      exact absurd (Option.some.inj (hb.symm.trans (stringAt_nil.1 h).1)) hne
    | cons b' s' =>
      obtain ⟨hb', -, -, h'⟩ := stringAt_cons.1 h
      rw [hb] at hb'
      exact ⟨s', by rw [Option.some.inj hb'], h'⟩
  · rintro ⟨s', rfl, h'⟩
    exact stringAt_cons.2 ⟨hb, hne, hbound, h'⟩

theorem StringAt.unique {m : M} {a : Nat} {s s' : List UInt8} (h : StringAt m a s)
    (h' : StringAt m a s') : s = s' := by
  induction s generalizing a s' with
  | nil =>
    obtain ⟨hb, hbound⟩ := stringAt_nil.1 h
    exact ((stringAt_of_zero hb hbound).1 h').symm
  | cons b s ih =>
    obtain ⟨hb, hne, hbound, hs⟩ := stringAt_cons.1 h
    obtain ⟨t, rfl, ht⟩ := (stringAt_of_ne hb hne hbound).1 h'
    rw [ih hs ht]

theorem copyInStrFrom_eq_ok {m : M} {src : UserAddr} {got : Array UInt8} {left : Nat}
    {s : List UInt8} :
    UserMemory.copyInStrFrom m src got left = .ok s ↔
      ∃ rest, s = got.toList ++ rest ∧ rest.length < left ∧
        StringAt m (src.toNat + got.size) rest := by
  induction left generalizing got with
  | zero => simp [UserMemory.copyInStrFrom]
  | succ left ih =>
    rw [UserMemory.copyInStrFrom]
    cases hadd : src.add got.size with
    | error e =>
      have hover := (UserAddr.add_eq_error.1 hadd).2
      apply iff_of_false nofun
      rintro ⟨rest, -, -, hrest⟩
      obtain ⟨-, -, hbound⟩ := hrest.exists_byte
      omega
    | ok a =>
      rw [← UserAddr.add_eq_ok.1 hadd]
      have hbound := a.toNat_lt
      cases hv : UserMemory.copyIn m a 1 with
      | error e =>
        apply iff_of_false (by simp [bind, Except.bind, hv])
        rintro ⟨rest, -, -, hrest⟩
        obtain ⟨b, hb, -⟩ := hrest.exists_byte
        have hok := copyIn_one_iff.2 hb
        rw [hv] at hok
        cases hok
      | ok v =>
        have hb : byte? m a.toNat = some v[0] := (copyIn_eq_ok (by omega)).1 hv 0 (by omega)
        by_cases hzero : v[0] = 0
        · rw [hzero] at hb
          simp [bind, Except.bind, hv, hzero, pure, Except.pure, stringAt_of_zero hb hbound,
            eq_comm]
        · have hnext : src.toNat + (got.push v[0]).size = a.toNat + 1 := by
            rw [UserAddr.add_eq_ok.1 hadd, Array.size_push]
            omega
          simp only [bind, Except.bind, hv, hzero, ↓reduceIte, ih, hnext, Array.toList_push,
            stringAt_of_ne hb hzero hbound]
          constructor
          · rintro ⟨rest, rfl, hlt, hrest⟩
            exact ⟨v[0] :: rest, by simp, by simpa using hlt, rest, rfl, hrest⟩
          · rintro ⟨_, rfl, hlt, rest, rfl, hrest⟩
            exact ⟨rest, by simp, by simpa using hlt, hrest⟩

theorem copyInStr_eq_ok {m : M} {src : UserAddr} {max : Nat} {s : List UInt8} :
    UserMemory.copyInStr m src max = .ok s ↔
      src.isNull = false ∧ s.length < max ∧ StringAt m src.toNat s := by
  unfold UserMemory.copyInStr
  cases src.isNull with
  | true => simp
  | false => simp [copyInStrFrom_eq_ok]

/-- Of a string that stands there only its length can be at fault. -/
theorem copyInStrFrom_of_long {m : M} {src : UserAddr} {got : Array UInt8} {left : Nat}
    {s : List UInt8} (h : StringAt m (src.toNat + got.size) s) (hlong : left ≤ s.length) :
    UserMemory.copyInStrFrom m src got left = .error .nameTooLong := by
  induction left generalizing got s with
  | zero => rfl
  | succ left ih =>
    cases s with
    | nil => exact absurd hlong (Nat.not_succ_le_zero left)
    | cons b s =>
      obtain ⟨hb, hne, hbound, hs⟩ := stringAt_cons.1 h
      obtain ⟨a, hadd⟩ := UserAddr.exists_add hbound
      have ha := UserAddr.add_eq_ok.1 hadd
      have hbyte : UserMemory.copyIn m a 1 = .ok #v[b] := copyIn_one_iff.2 (ha ▸ hb)
      rw [UserMemory.copyInStrFrom_of_byte hadd hbyte, if_neg hne]
      refine ih (s := s) ?_ (Nat.le_of_succ_le_succ hlong)
      rwa [Array.size_push, ← Nat.add_assoc]

theorem copyInStr_of_long {m : M} {src : UserAddr} {max : Nat} {s : List UInt8}
    (hnull : src.isNull = false) (h : StringAt m src.toNat s) (hlong : max ≤ s.length) :
    UserMemory.copyInStr m src max = .error .nameTooLong := by
  have hrest : StringAt m (src.toNat + (#[] : Array UInt8).size) s := h
  rw [UserMemory.copyInStr, hnull]
  exact copyInStrFrom_of_long hrest hlong

end Bytewise

end UnixCore
