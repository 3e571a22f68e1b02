import Mathlib.Algebra.GroupWithZero.Nat
import UnixCore.Memory.Mapping
import UnixCore.Proofs.Exec.Layout

/-! Marshalling onto a stack in one contiguous mapping: exactly when it succeeds, with which error
it fails, what then stands below the stack top, and that no byte outside that area changes. The
strings and their addresses need the same bytes whatever stands in them, so what is needed can be
said of the mapping as it was before the first write. -/

namespace UnixCore

open Bytewise

namespace Mapping

/-! ### Mapped areas -/

variable {m m' : Mapping} {a b n k : Nat}

/-- Every one of the `n` addresses from `a` on is mapped. -/
def Mapped (m : Mapping) (a n : Nat) : Prop :=
  ∀ x, a ≤ x → x < a + n → (m.byte? x).isSome

theorem isSome_byte?_iff :
    (m.byte? a).isSome ↔ m.base.toNat ≤ a ∧ a < m.base.toNat + m.bytes.size := by
  unfold byte?
  split
  case isTrue hle =>
    rw [Option.isSome_iff_ne_none, ne_eq, Array.getElem?_eq_none_iff]
    omega
  case isFalse hlt => simp [hlt]

theorem mapped_add : m.Mapped a (n + k) ↔ m.Mapped a n ∧ m.Mapped (a + n) k := areaIn_add

theorem mapped_zero : m.Mapped a 0 := areaIn_zero

theorem mapped_iff_covers {dst : UserAddr} (h : 0 < n) :
    m.Mapped dst.toNat n ↔ m.Covers dst n := by
  constructor
  · intro hmapped
    have hfirst := isSome_byte?_iff.1 (hmapped dst.toNat (Nat.le_refl _) (by omega))
    have hlast := isSome_byte?_iff.1 (hmapped (dst.toNat + (n - 1)) (by omega) (by omega))
    exact ⟨hfirst.1, by omega⟩
  · rintro ⟨hle, hsize⟩ x hx hx'
    exact isSome_byte?_iff.2 (by omega)

/-- Both mappings hold a byte at the same addresses. -/
def SameExtent (m m' : Mapping) : Prop :=
  m'.base = m.base ∧ m'.bytes.size = m.bytes.size

theorem SameExtent.refl (m : Mapping) : m.SameExtent m := ⟨rfl, rfl⟩

theorem SameExtent.trans {m'' : Mapping} (h : m.SameExtent m') (h' : m'.SameExtent m'') :
    m.SameExtent m'' :=
  ⟨h'.1.trans h.1, h'.2.trans h.2⟩

theorem SameExtent.mapped (h : m.SameExtent m') : m'.Mapped a n ↔ m.Mapped a n := by
  unfold Mapped
  simp only [isSome_byte?_iff, h.1, h.2]

/-- A store fails exactly where an address of its area is not mapped. -/
theorem ensures_store_mapped {bytes : List UInt8} {dst : UserAddr} (h : 0 < bytes.length) :
    (UserMemory.store bytes dst).Ensures m
      (fun _ m' => m.Mapped dst.toNat bytes.length ∧ m.SameExtent m')
      fun e m' => ¬ m.Mapped dst.toNat bytes.length ∧ e = .badAddress ∧ m' = m := by
  rw [mapped_iff_covers h]
  unfold Action.Ensures UserMemory.store
  simp only [UserMemory.copyOut]
  by_cases hcov : m.Covers dst bytes.length
  · rw [if_pos hcov]
    exact ⟨hcov, rfl, size_overwrite _ _ _⟩
  · rw [if_neg hcov]
    exact ⟨hcov, rfl, rfl⟩

theorem ensures_storeWord_mapped {w : UInt32} {dst : UserAddr} :
    (UserMemory.storeWord w dst).Ensures m
      (fun _ m' => m.Mapped dst.toNat wordSize ∧ m.SameExtent m')
      fun e m' => ¬ m.Mapped dst.toNat wordSize ∧ e = .badAddress ∧ m' = m :=
  ensures_store_mapped (Nat.succ_pos 3)

end Mapping

open Mapping

/-! ### What marshalling needs -/

theorem padded_le_paddedBytes {args : List (List UInt8)} {arg : List UInt8} (h : arg ∈ args) :
    padded (arg.length + 1) ≤ paddedBytes args := by
  induction args with
  | nil => cases h
  | cons arg' args ih =>
    rw [paddedBytes_cons]
    rcases List.mem_cons.1 h with rfl | h
    · exact Nat.le_add_right _ _
    · exact Nat.le_trans (ih h) (Nat.le_add_left _ _)

/-- Both areas are mapped, and the address of the last string, the highest one, fits in a word. -/
structure Fits (m : Mapping) (cursor slot : Nat) (args : List (List UInt8)) : Prop where
  strings : m.Mapped cursor (paddedBytes args)
  slots : m.Mapped slot (wordSize * args.length)
  last : ∀ arg ∈ args.getLast?,
    cursor + paddedBytes args < UInt32.size + padded (arg.length + 1)

namespace Fits

variable {m m' : Mapping} {cursor slot : Nat} {arg : List UInt8} {args : List (List UInt8)}

theorem nil : Fits m cursor slot [] := ⟨mapped_zero, mapped_zero, nofun⟩

theorem of_extent (h : m.SameExtent m') : Fits m' cursor slot args ↔ Fits m cursor slot args :=
  ⟨fun hf => ⟨h.mapped.1 hf.strings, h.mapped.1 hf.slots, hf.last⟩,
    fun hf => ⟨h.mapped.2 hf.strings, h.mapped.2 hf.slots, hf.last⟩⟩

/-- The strings stand in ascending order, so if the last address fits in a word, so do the ones
before it. -/
theorem last_cons :
    (∀ x ∈ (arg :: args).getLast?,
        cursor + paddedBytes (arg :: args) < UInt32.size + padded (x.length + 1)) ↔
      cursor < UInt32.size ∧ ∀ x ∈ args.getLast?,
        cursor + padded (arg.length + 1) + paddedBytes args <
          UInt32.size + padded (x.length + 1) := by
  rw [paddedBytes_cons, ← Nat.add_assoc]
  cases hlast : args.getLast? with
  | none =>
    rw [List.getLast?_eq_none_iff] at hlast
    subst hlast
    simp [paddedBytes]
  | some last =>
    have hmem : last ∈ args := List.mem_of_getLast? hlast
    have hle := padded_le_paddedBytes hmem
    have hcons : (arg :: args).getLast? = some last := by
      rw [List.getLast?_cons, hlast]
      rfl
    simp only [hcons, Option.mem_some_iff, forall_eq']
    omega

theorem cons_iff :
    Fits m cursor slot (arg :: args) ↔
      m.Mapped cursor (padded (arg.length + 1)) ∧ cursor < UInt32.size ∧ m.Mapped slot wordSize ∧
        Fits m (cursor + padded (arg.length + 1)) (slot + wordSize) args := by
  have hslots : wordSize * (arg :: args).length = wordSize + wordSize * args.length := by
    rw [List.length_cons, Nat.mul_add_one, Nat.add_comm]
  constructor
  · rintro ⟨hstrings, hwords, hlast⟩
    rw [paddedBytes_cons, mapped_add] at hstrings
    rw [hslots, mapped_add] at hwords
    obtain ⟨hcursor, hlast⟩ := last_cons.1 hlast
    exact ⟨hstrings.1, hcursor, hwords.1, hstrings.2, hwords.2, hlast⟩
  · rintro ⟨hstring, hcursor, hword, hstrings, hwords, hlast⟩
    refine ⟨?_, ?_, last_cons.2 ⟨hcursor, hlast⟩⟩
    · rw [paddedBytes_cons, mapped_add]
      exact ⟨hstring, hstrings⟩
    · rw [hslots, mapped_add]
      exact ⟨hword, hwords⟩

end Fits

namespace ArgVector

theorem ensures_marshalFrom_fits {m : Mapping} {cursor slot : UserAddr}
    {args : List (List UInt8)} (hcursor : cursor.toNat + paddedBytes args < UInt64.size)
    (hslot : slot.toNat + wordSize * args.length < UInt64.size) :
    (marshalFrom cursor slot args).Ensures m
      (fun _ m' => Fits m cursor.toNat slot.toNat args ∧ m.SameExtent m')
      fun e m' => ¬ Fits m cursor.toNat slot.toNat args ∧ e = .badAddress ∧ m.SameExtent m' := by
  induction args generalizing m cursor slot with
  | nil => exact ⟨.nil, .refl m⟩
  | cons arg args ih =>
    have hlen := length_paddedString arg
    have hpad := le_padded (arg.length + 1)
    rw [paddedBytes_cons] at hcursor
    rw [List.length_cons] at hslot
    rw [Fits.cons_iff]
    refine ensures_marshalFrom_cons
      ((ensures_store_mapped (by omega)).mono (fun _ m₁ h₁ => ?_) fun e m₁ h₁ => ?_)
    · obtain ⟨hstring, hext₁⟩ := h₁
      rw [hlen] at hstring
      refine ⟨fun w hw => ?_, fun hhigh => ⟨fun h => absurd h.2.1 (Nat.not_lt.2 hhigh), rfl, hext₁⟩⟩
      have hword : cursor.toNat < UInt32.size := by
        rw [← hw]
        exact w.toNat_lt
      refine ensures_storeWord_mapped.mono (fun _ m₂ h₂ => ?_) fun e m₂ h₂ => ?_
      · obtain ⟨hslot', hext₂⟩ := h₂
        rw [hext₁.mapped] at hslot'
        have hext := hext₁.trans hext₂
        refine ⟨fun cursor' slot' hc hs => ?_, fun hover => absurd hover ?_⟩
        · rw [hlen] at hc
          refine (ih (by omega) ?_).mono (fun _ m₃ h₃ => ?_) fun e m₃ h₃ => ?_
          · rw [hs]
            unfold wordSize at *
            omega
          · rw [hc, hs, Fits.of_extent hext] at h₃
            exact ⟨⟨hstring, hword, hslot', h₃.1⟩, hext.trans h₃.2⟩
          · rw [hc, hs, Fits.of_extent hext] at h₃
            exact ⟨fun h => h₃.1 h.2.2.2, h₃.2.1, hext.trans h₃.2.2⟩
        · unfold wordSize at *
          omega
      · obtain ⟨hunmapped, rfl, rfl⟩ := h₂
        rw [hext₁.mapped] at hunmapped
        exact ⟨fun h => hunmapped h.2.2.1, rfl, hext₁⟩
    · obtain ⟨hunmapped, rfl, rfl⟩ := h₁
      rw [hlen] at hunmapped
      exact ⟨fun h => hunmapped h.1, rfl, .refl m₁⟩

/-! ### The whole layout -/

variable {v : ArgVector} {m m' : Mapping} {top sp : UserAddr}

/-- Where string `i` starts, counted from the pointer array. -/
def stringOffset (v : ArgVector) (i : Nat) : Nat :=
  wordSize * (v.argc + 1) + paddedBytes (v.args.take i)

theorem stringOffset_argc (v : ArgVector) : v.stringOffset v.argc = v.stackSize := by
  rw [stringOffset, argc, List.take_length, stackSize_eq, argc, Nat.add_comm]

theorem paddedBytes_take_succ {args : List (List UInt8)} {i : Nat} (hi : i < args.length) :
    paddedBytes (args.take (i + 1)) = paddedBytes (args.take i) + padded (args[i].length + 1) := by
  induction args generalizing i with
  | nil => cases hi
  | cons arg args ih =>
    cases i with
    | zero => simp [paddedBytes]
    | succ i =>
      rw [List.take_succ_cons, List.take_succ_cons, paddedBytes_cons, paddedBytes_cons,
        ih (by simpa using hi), List.getElem_cons_succ, Nat.add_assoc]

/-- The vector stands in memory from `sp` on: the pointer array, and from its end on the strings,
one after the other, each with one to four zeros behind it. -/
structure HeldAt (v : ArgVector) (m : Mapping) (sp : Nat) : Prop where
  first : v.stringOffset 0 = wordSize * (v.argc + 1)
  string (i : Nat) (hi : i < v.args.length) : ∃ zeros, 1 ≤ zeros ∧ zeros ≤ 4 ∧
    BlockAt m (sp + v.stringOffset i) (v.args[i] ++ List.replicate zeros 0) ∧
    v.stringOffset (i + 1) = v.stringOffset i + (v.args[i].length + zeros)
  last : v.stringOffset v.argc = v.stackSize
  pointer (i : Nat) (hi : i < v.args.length) :
    ∃ w, WordAt m (sp + wordSize * i) w ∧ w.toNat = sp + v.stringOffset i
  null : WordAt m (sp + wordSize * v.argc) 0

theorem HeldAt.of_laidOut
    (h : LaidOut m (sp.toNat + wordSize * (v.argc + 1)) sp.toNat v.args)
    (hnull : WordAt m (sp.toNat + wordSize * v.argc) 0) : v.HeldAt m sp.toNat := by
  refine ⟨rfl, fun i hi => ?_, v.stringOffset_argc, fun i hi => ?_, hnull⟩
  · obtain ⟨w, -, hw, hblock, -⟩ := h.entry i hi
    have hpad : padded (v.args[i].length + 1) ≤ v.args[i].length + 4 := by
      unfold padded stackAlign
      omega
    have hpad' := le_padded (v.args[i].length + 1)
    refine ⟨padded (v.args[i].length + 1) - v.args[i].length, by omega, by omega, ?_, ?_⟩
    · rw [stringOffset, ← Nat.add_assoc, ← hw]
      exact hblock
    · rw [stringOffset, stringOffset, paddedBytes_take_succ hi]
      omega
  · obtain ⟨w, hword, hw, -⟩ := h.entry i hi
    exact ⟨w, hword, by rw [hw, stringOffset, Nat.add_assoc]⟩

/-- What a vector needs below an aligned stack top: room above address zero, a mapping, and a last
string whose address fits in a word. -/
structure Placeable (v : ArgVector) (m : Mapping) (top : Nat) : Prop where
  room : v.stackSize ≤ top
  mapped : m.Mapped (top - v.stackSize) v.stackSize
  last : ∀ arg ∈ v.args.getLast?, top - padded (arg.length + 1) < UInt32.size

theorem placeable_iff_fits {sp top : Nat} (h : sp + v.stackSize = top) :
    v.Placeable m top ↔
      Fits m (sp + wordSize * (v.argc + 1)) sp v.args ∧
        m.Mapped (sp + wordSize * v.argc) wordSize := by
  have hsize := v.stackSize_eq
  have hslots : wordSize * (v.argc + 1) = wordSize * v.argc + wordSize := Nat.mul_add_one _ _
  have harea : m.Mapped (top - v.stackSize) v.stackSize ↔
      (m.Mapped sp (wordSize * v.argc) ∧ m.Mapped (sp + wordSize * v.argc) wordSize) ∧
        m.Mapped (sp + wordSize * (v.argc + 1)) (paddedBytes v.args) := by
    rw [← mapped_add, hslots, ← mapped_add,
      show top - v.stackSize = sp by omega, hsize, hslots,
      Nat.add_comm (paddedBytes v.args)]
  constructor
  · rintro ⟨-, hmapped, hlast⟩
    obtain ⟨⟨hslots', hnull⟩, hstrings⟩ := harea.1 hmapped
    refine ⟨⟨hstrings, hslots', fun arg harg => ?_⟩, hnull⟩
    have := hlast arg harg
    omega
  · rintro ⟨⟨hstrings, hslots', hlast⟩, hnull⟩
    refine ⟨by omega, harea.2 ⟨⟨hslots', hnull⟩, hstrings⟩, fun arg harg => ?_⟩
    have := hlast arg harg
    have := padded_le_paddedBytes (List.mem_of_getLast? harg)
    omega

/-- With room below the stack top, marshalling writes inside the vector's area only, and it fails
exactly if the area does not do. -/
theorem ensures_marshal_of_sub
    (hsp : (top.alignDown stackAlign).sub v.stackSize = .ok sp) :
    (v.marshal top).Ensures m
      (fun layout m' => v.Placeable m (sp.toNat + v.stackSize) ∧
        layout = ⟨v.argc, sp, v.stackSize⟩ ∧ v.HeldAt m' sp.toNat ∧
        ∀ a, a < sp.toNat ∨ sp.toNat + v.stackSize ≤ a → m'.byte? a = m.byte? a)
      fun e m' => ¬ v.Placeable m (sp.toNat + v.stackSize) ∧ e = .badAddress ∧
        ∀ a, a < sp.toNat ∨ sp.toNat + v.stackSize ≤ a → m'.byte? a = m.byte? a := by
  have htop := (top.alignDown stackAlign).toNat_lt
  have hsum := UserAddr.sub_eq_ok.1 hsp
  have hsize := v.stackSize_eq
  have hslots : wordSize * (v.argc + 1) = wordSize * v.argc + wordSize := Nat.mul_add_one _ _
  rw [placeable_iff_fits rfl]
  unfold marshal
  simp only [hsp, Action.ensures_bind]
  refine Action.ensures_ofExcept.2 ⟨fun cursor hc => ?_, fun e he => ?_⟩
  · rw [UserAddr.add_eq_ok] at hc
    have harea : sp.toNat + wordSize * v.args.length ≤ cursor.toNat := by
      rw [hc]
      change _ + wordSize * v.argc ≤ _
      omega
    have houtside {a : Nat} (ha : a < sp.toNat ∨ sp.toNat + v.stackSize ≤ a) :
        Outside cursor.toNat sp.toNat v.args a := by
      change (_ ∨ sp.toNat + wordSize * v.argc ≤ a) ∧ _
      omega
    refine ((ensures_marshalFrom harea).and
      (ensures_marshalFrom_fits (by omega) (by omega))).mono
        (fun last m₁ h₁ => ?_) fun e m₁ h₁ => ?_
    · obtain ⟨⟨hlast, hlaid, hkept₁⟩, hfits, hext⟩ := h₁
      change last.toNat = sp.toNat + wordSize * v.argc at hlast
      rw [hc] at hfits hlaid
      refine ((ensures_store (m := m₁)).and ensures_storeWord_mapped).mono
        (fun _ m₂ h₂ => ?_) fun e m₂ h₂ => ?_
      · obtain ⟨⟨hnull, hkept₂⟩, hmapped, -⟩ := h₂
        rw [hext.mapped, hlast] at hmapped
        rw [hlast] at hnull hkept₂
        rw [length_wordBytes] at hkept₂
        refine ⟨⟨hfits, hmapped⟩, rfl, .of_laidOut (hlaid.congr fun a ha => hkept₂ a ?_) hnull,
          fun a ha => ?_⟩
        · unfold Outside argc wordSize at *
          omega
        · refine (hkept₂ a ?_).trans (hkept₁ a (houtside ha))
          unfold wordSize at *
          omega
      · obtain ⟨rfl, hunmapped, rfl, -⟩ := h₂
        rw [hext.mapped, hlast] at hunmapped
        exact ⟨fun h => hunmapped h.2, rfl, fun a ha => hkept₁ a (houtside ha)⟩
    · obtain ⟨hkept₁, hunfit, rfl, -⟩ := h₁
      rw [hc] at hunfit
      exact ⟨fun h => hunfit h.1, rfl, fun a ha => hkept₁ a (houtside ha)⟩
  · have hover := (UserAddr.add_eq_error.1 he).2
    omega

/-- The ways in which marshalling ends below a stack top that is rounded down to `top`. -/
inductive Ends (v : ArgVector) (m : Mapping) (top : Nat) :
    EStateM.Result Errno Mapping ArgLayout → Prop
  | noRoom : top < v.stackSize → Ends v m top (.error .argumentListTooBig m)
  | unplaceable {m' : Mapping} : v.stackSize ≤ top → ¬ v.Placeable m top →
    (∀ a, a < top - v.stackSize ∨ top ≤ a → m'.byte? a = m.byte? a) →
      Ends v m top (.error .badAddress m')
  | placed {layout : ArgLayout} {m' : Mapping} : v.Placeable m top →
    layout.argc = v.argc → layout.argv.toNat = top - v.stackSize → layout.size = v.stackSize →
    v.HeldAt m' (top - v.stackSize) →
    (∀ a, a < top - v.stackSize ∨ top ≤ a → m'.byte? a = m.byte? a) →
      Ends v m top (.ok layout m')

theorem ends_marshal (v : ArgVector) (m : Mapping) (stackTop : UserAddr) :
    Ends v m (stackTop.toNat / stackAlign * stackAlign) (v.marshal stackTop m) := by
  rw [← UserAddr.toNat_alignDown]
  cases hsp : (stackTop.alignDown stackAlign).sub v.stackSize with
  | error e =>
    have hroom : ¬ v.stackSize ≤ (stackTop.alignDown stackAlign).toNat := by
      intro hle
      rw [UserAddr.sub, if_pos hle] at hsp
      cases hsp
    have hrun : v.marshal stackTop m = .error .argumentListTooBig m := by
      simp only [marshal, hsp]
      rfl
    rw [hrun]
    exact .noRoom (Nat.lt_of_not_le hroom)
  | ok sp =>
    have hsum := UserAddr.sub_eq_ok.1 hsp
    have hdiff : (stackTop.alignDown stackAlign).toNat - v.stackSize = sp.toNat := by omega
    refine ((ensures_marshal_of_sub hsp).mono (fun layout m' h => ?_) fun e m' h => ?_).run
    · rw [hsum] at h
      obtain ⟨hplace, rfl, hheld, hkept⟩ := h
      refine .placed hplace rfl hdiff.symm rfl ?_ ?_
      · rw [hdiff]
        exact hheld
      · rw [hdiff]
        exact hkept
    · rw [hsum] at h
      obtain ⟨hnot, rfl, hkept⟩ := h
      refine .unplaceable (by omega) hnot ?_
      rw [hdiff]
      exact hkept

/-- What marshalling does below a stack top that is rounded down to `top`. -/
structure Marshals (v : ArgVector) (m : Mapping) (stackTop : UserAddr) (top : Nat) : Prop where
  succeeds : (∃ layout m', v.marshal stackTop m = .ok layout m') ↔ v.Placeable m top
  tooBig : (∃ m', v.marshal stackTop m = .error .argumentListTooBig m') ↔ top < v.stackSize
  badAddress : (∃ m', v.marshal stackTop m = .error .badAddress m') ↔
    v.stackSize ≤ top ∧ ¬ v.Placeable m top
  size : v.stackSize =
    wordSize * (v.argc + 1) + (v.args.map fun arg => (arg.length + 1 + 3) / 4 * 4).sum
  layout (layout : ArgLayout) (m' : Mapping) : v.marshal stackTop m = .ok layout m' →
    layout.argc = v.argc ∧ layout.argv.toNat = top - v.stackSize ∧ layout.size = v.stackSize ∧
      v.HeldAt m' (top - v.stackSize)
  frame (r : Except Errno ArgLayout) (m' : Mapping) :
    (v.marshal stackTop).result m = (r, m') →
      ∀ a, a < top - v.stackSize ∨ top ≤ a → m'.byte? a = m.byte? a
  untouched (r : Except Errno ArgLayout) (m' : Mapping) : top < v.stackSize →
    (v.marshal stackTop).result m = (r, m') → m' = m

theorem stackSize_eq_sum (v : ArgVector) :
    v.stackSize =
      wordSize * (v.argc + 1) + (v.args.map fun arg => (arg.length + 1 + 3) / 4 * 4).sum := by
  rw [stackSize_eq, Nat.add_comm]
  congr 1
  generalize v.args = args
  induction args with
  | nil => rfl
  | cons arg args ih =>
    rw [paddedBytes_cons, ih, List.map_cons, List.sum_cons]
    rfl

/-- For every vector, every mapping and every stack top: marshalling succeeds exactly if there is
room below the top, the area is mapped, and the address of the last string fits in a word. What it
then leaves is the array of the pointers with the strings above it, up to the top, and however it
ends it writes nowhere else. -/
theorem marshal_lays_out (v : ArgVector) (m : Mapping) (stackTop : UserAddr) :
    v.Marshals m stackTop (stackTop.toNat / 4 * 4) := by
  have hends : Ends v m (stackTop.toNat / 4 * 4) (v.marshal stackTop m) :=
    ends_marshal v m stackTop
  have hsize := v.stackSize_eq_sum
  generalize hrun : v.marshal stackTop m = run at hends
  cases hends with
  | noRoom hroom =>
    have hnot : ¬ v.Placeable m (stackTop.toNat / 4 * 4) := fun h => absurd h.room (by omega)
    refine ⟨?_, ?_, ?_, hsize, ?_, ?_, ?_⟩
    · simp [hrun, hnot]
    · simp [hrun, hroom]
    · simp [hrun, Nat.not_le.2 hroom]
    · simp [hrun]
    · rintro r m' hresult a -
      rw [Action.result_of_error hrun] at hresult
      cases hresult
      rfl
    · rintro r m' - hresult
      rw [Action.result_of_error hrun] at hresult
      cases hresult
      rfl
  | unplaceable hroom hnot hkept =>
    refine ⟨?_, ?_, ?_, hsize, ?_, ?_, fun _ _ hlt => absurd hlt (by omega)⟩
    · simp [hrun, hnot]
    · simp [hrun, hroom]
    · simp [hrun, hroom, hnot]
    · simp [hrun]
    · intro r m' hresult
      rw [Action.result_of_error hrun] at hresult
      cases hresult
      exact hkept
  | placed hplace hargc hargv hsize' hheld hkept =>
    have hroom := hplace.room
    refine ⟨?_, ?_, ?_, hsize, ?_, ?_, fun _ _ hlt => absurd hlt (by omega)⟩
    · simp [hrun, hplace]
    · simp [hrun, hroom]
    · simp [hrun, hplace]
    · intro layout m' hok
      rw [hrun] at hok
      cases hok
      exact ⟨hargc, hargv, hsize', hheld⟩
    · intro r m' hresult
      rw [Action.result_of_ok hrun] at hresult
      cases hresult
      exact hkept

end ArgVector

end UnixCore
