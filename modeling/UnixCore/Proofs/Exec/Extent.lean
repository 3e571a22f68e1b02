import UnixCore.Proofs.Exec.Marshalled

/-! Marshalling onto a stack in any user memory. All that is asked of the memory is that it has
mapped addresses: whatever has been stored before, a block can be stored if and only if it lies
among them. Where the addresses below the stack top fit in a word, marshalling succeeds exactly if
the bytes that the vector takes are mapped. -/

namespace UnixCore

namespace UserMemory

variable {M : Type} [UserMemory M] {m m' : M} {mapped : Nat → Prop} {bytes : List UInt8}
  {dst : UserAddr}

/-- One block of bytes takes the first memory to the second. -/
def Stores (m m' : M) : Prop := ∃ bytes dst, copyOut m bytes dst = .ok m'

/-- Exactly the addresses in `mapped` can be stored to, whatever has been stored before. -/
def Maps (m : M) (mapped : Nat → Prop) : Prop :=
  ∀ m', Relation.ReflTransGen Stores m m' → ∀ (bytes : List UInt8) (dst : UserAddr),
    0 < bytes.length →
      ((∃ m'', copyOut m' bytes dst = .ok m'') ↔ AreaIn mapped dst.toNat bytes.length)

theorem Maps.ensures_store (h : Maps m mapped) (hlen : 0 < bytes.length) :
    (store bytes dst).Ensures m
      (fun _ m' => AreaIn mapped dst.toNat bytes.length ∧ Maps m' mapped)
      fun _ _ => ¬ AreaIn mapped dst.toNat bytes.length := by
  have hiff := h m .refl bytes dst hlen
  unfold Action.Ensures store
  cases hstore : copyOut m bytes dst with
  | ok m' => exact ⟨hiff.1 ⟨m', hstore⟩, fun m'' hrest => h m'' (.head ⟨bytes, dst, hstore⟩ hrest)⟩
  | error e =>
    intro harea
    obtain ⟨m', hok⟩ := hiff.2 harea
    rw [hstore] at hok
    cases hok

theorem Maps.ensures_storeWord {w : UInt32} (h : Maps m mapped) :
    (storeWord w dst).Ensures m (fun _ m' => AreaIn mapped dst.toNat wordSize ∧ Maps m' mapped)
      fun _ _ => ¬ AreaIn mapped dst.toNat wordSize :=
  h.ensures_store (Nat.succ_pos 3)

end UserMemory

open UserMemory

namespace Mapping

variable {m m' : Mapping}

theorem SameExtent.of_stores (h : Stores m m') : m.SameExtent m' := by
  obtain ⟨bytes, dst, hstore⟩ := h
  simp only [UserMemory.copyOut] at hstore
  split at hstore
  case isTrue =>
    cases hstore
    exact ⟨rfl, size_overwrite _ _ _⟩
  case isFalse => cases hstore

theorem exists_copyOut_iff {bytes : List UInt8} {dst : UserAddr} :
    (∃ m', copyOut m bytes dst = .ok m') ↔ m.Covers dst bytes.length := by
  simp only [UserMemory.copyOut]
  split <;> simp [*]

/-- A contiguous mapping can be stored to at its own addresses. -/
theorem maps (m : Mapping) : Maps m fun a => (m.byte? a).isSome := by
  intro m' hreach bytes dst hlen
  have hextent : m.SameExtent m' := by
    induction hreach with
    | refl => exact .refl m
    | tail _ hstep ih => exact ih.trans (.of_stores hstep)
  rw [exists_copyOut_iff, ← mapped_iff_covers hlen, hextent.mapped]
  rfl

theorem maps_filled (base : UInt64) (size : Nat) (fill : UInt8) :
    Maps (filled base size fill) fun a => base.toNat ≤ a ∧ a < base.toNat + size := by
  have hmaps := (filled base size fill).maps
  have hsize : (filled base size fill).bytes.size = size := Array.size_replicate
  simp only [isSome_byte?_iff, hsize] at hmaps
  exact hmaps

end Mapping

namespace AddressSpace

theorem copyOut_eq_ok {space space' : AddressSpace} {bytes : List UInt8}
    {dst : UserAddr} :
    copyOut space bytes dst = .ok space' ↔
      ∃ m, copyOut space.memory bytes dst = .ok m ∧ { space with memory := m } = space' := by
  simp only [UserMemory.copyOut]
  split <;> simp [bind, Except.bind, pure, Except.pure]

/-- The memory of a process can be stored to where its mapping can. -/
theorem maps {space : AddressSpace} {mapped : Nat → Prop}
    (h : Maps space.memory mapped) : Maps space mapped := by
  intro space' hreach bytes dst hlen
  have hmemory : Relation.ReflTransGen Stores space.memory space'.memory := by
    refine hreach.lift AddressSpace.memory fun s s' hstep => ?_
    obtain ⟨bytes, dst, hstore⟩ := hstep
    obtain ⟨m, hm, rfl⟩ := copyOut_eq_ok.1 hstore
    exact ⟨bytes, dst, hm⟩
  rw [← h space'.memory hmemory bytes dst hlen]
  constructor
  · rintro ⟨space'', hstore⟩
    obtain ⟨m, hm, -⟩ := copyOut_eq_ok.1 hstore
    exact ⟨m, hm⟩
  · rintro ⟨m, hm⟩
    exact ⟨_, copyOut_eq_ok.2 ⟨m, hm, rfl⟩⟩

end AddressSpace

/-- The `size` bytes below `top` are mapped, and their addresses fit in a word. -/
structure StackBelow (mapped : Nat → Prop) (top size : Nat) : Prop where
  room : size ≤ top
  area : AreaIn mapped (top - size) size
  words : top ≤ UInt32.size

theorem StackBelow.mono {mapped : Nat → Prop} {top size size' : Nat}
    (h : StackBelow mapped top size) (hle : size' ≤ size) : StackBelow mapped top size' := by
  have hroom := h.room
  exact ⟨by omega, fun a ha ha' => h.area a (by omega) (by omega), h.words⟩

/-! ### What marshalling needs -/

namespace ArgVector

variable {M : Type} [UserMemory M] {m : M} {mapped : Nat → Prop}

/-- The strings and their addresses are written exactly if the areas of both are mapped. -/
theorem ensures_marshalFrom_of_maps {cursor slot : UserAddr} {args : List (List UInt8)}
    (h : Maps m mapped) (hcursor : cursor.toNat + paddedBytes args ≤ UInt32.size)
    (hslot : slot.toNat + wordSize * args.length < UInt64.size) :
    (marshalFrom cursor slot args).Ensures m
      (fun last m' => last.toNat = slot.toNat + wordSize * args.length ∧ Maps m' mapped ∧
        AreaIn mapped cursor.toNat (paddedBytes args) ∧
        AreaIn mapped slot.toNat (wordSize * args.length))
      fun _ _ => ¬ (AreaIn mapped cursor.toNat (paddedBytes args) ∧
        AreaIn mapped slot.toNat (wordSize * args.length)) := by
  induction args generalizing m cursor slot with
  | nil => exact ⟨rfl, h, areaIn_zero, areaIn_zero⟩
  | cons arg args ih =>
    have hlen := length_paddedString arg
    have hpad := le_padded (arg.length + 1)
    have hwords : wordSize * (arg :: args).length = wordSize + wordSize * args.length := by
      rw [List.length_cons, Nat.mul_add_one, Nat.add_comm]
    have hsizes : UInt32.size < UInt64.size := by decide
    rw [paddedBytes_cons, ← hlen] at hcursor
    rw [hwords] at hslot
    rw [paddedBytes_cons, ← hlen, hwords, areaIn_add, areaIn_add]
    refine ensures_marshalFrom_cons ((h.ensures_store (by omega)).mono (fun _ m₁ h₁ => ?_) ?_)
    · obtain ⟨hstring, hmaps₁⟩ := h₁
      refine ⟨fun w hw => ?_, fun hhigh => absurd hhigh (by omega)⟩
      refine hmaps₁.ensures_storeWord.mono (fun _ m₂ h₂ => ?_) ?_
      · obtain ⟨hword, hmaps₂⟩ := h₂
        refine ⟨fun cursor' slot' hc hs => ?_, fun hover => absurd hover (by omega)⟩
        refine (ih hmaps₂ (by omega) (by omega)).mono (fun last m₃ h₃ => ?_) fun _ _ h₃ => ?_
        · obtain ⟨hlast, hmaps₃, hstrings, hslots⟩ := h₃
          rw [hc] at hstrings
          rw [hs] at hslots hlast
          exact ⟨by omega, hmaps₃, ⟨hstring, hstrings⟩, hword, hslots⟩
        · rw [hc, hs] at h₃
          exact fun hall => h₃ ⟨hall.1.2, hall.2.2⟩
      · exact fun _ _ hunmapped hall => hunmapped hall.2.1
    · exact fun _ _ hunmapped hall => hunmapped hall.1.1

theorem ensures_marshal_of_maps (v : ArgVector) {stackTop : UserAddr} (h : Maps m mapped)
    (hwords : (stackTop.alignDown stackAlign).toNat ≤ UInt32.size) :
    (v.marshal stackTop).Ensures m
      (fun _ _ => StackBelow mapped (stackTop.alignDown stackAlign).toNat v.stackSize)
      fun _ _ => ¬ StackBelow mapped (stackTop.alignDown stackAlign).toNat v.stackSize := by
  unfold marshal
  cases hsp : (stackTop.alignDown stackAlign).sub v.stackSize with
  | error e =>
    intro hstack
    rw [UserAddr.sub, if_pos hstack.room] at hsp
    cases hsp
  | ok sp =>
    have hsum := UserAddr.sub_eq_ok.1 hsp
    have hsizes : UInt32.size < UInt64.size := by decide
    have hsize := v.stackSize_eq
    have hslots : wordSize * (v.argc + 1) = wordSize * v.argc + wordSize := Nat.mul_add_one _ _
    have harea : StackBelow mapped (stackTop.alignDown stackAlign).toNat v.stackSize ↔
        (AreaIn mapped sp.toNat (wordSize * v.argc) ∧
            AreaIn mapped (sp.toNat + wordSize * v.argc) wordSize) ∧
          AreaIn mapped (sp.toNat + wordSize * (v.argc + 1)) (paddedBytes v.args) := by
      rw [← areaIn_add, ← hslots, ← areaIn_add, Nat.add_comm _ (paddedBytes v.args), ← hsize,
        show sp.toNat = (stackTop.alignDown stackAlign).toNat - v.stackSize by omega]
      exact ⟨fun hstack => hstack.area, fun harea => ⟨by omega, harea, hwords⟩⟩
    rw [harea]
    simp only [Action.ensures_bind]
    refine Action.ensures_ofExcept.2 ⟨fun cursor hc => ?_, fun e he => ?_⟩
    · rw [UserAddr.add_eq_ok] at hc
      refine (ensures_marshalFrom_of_maps h (by omega) ?_).mono (fun last m₁ h₁ => ?_)
        fun _ _ h₁ => ?_
      · change sp.toNat + wordSize * v.argc < UInt64.size
        omega
      · obtain ⟨hlast, hmaps₁, hstrings, hpointers⟩ := h₁
        rw [hc] at hstrings
        refine hmaps₁.ensures_storeWord.mono (fun _ _ h₂ => ?_) fun _ _ h₂ hall => h₂ ?_
        · rw [hlast] at h₂
          exact ⟨⟨hpointers, h₂.1⟩, hstrings⟩
        · rw [hlast]
          exact hall.1.2
      · rw [hc] at h₁
        exact fun hall => h₁ ⟨hall.2, hall.1.1⟩
    · have hover := (UserAddr.add_eq_error.1 he).2
      omega

/-- Whatever the memory is, it takes a vector exactly if the bytes that the vector needs below the
stack top are mapped. -/
theorem marshal_succeeds_iff (v : ArgVector) {stackTop : UserAddr} (h : Maps m mapped)
    (hwords : (stackTop.alignDown stackAlign).toNat ≤ UInt32.size) :
    (∃ layout m', v.marshal stackTop m = .ok layout m') ↔
      StackBelow mapped (stackTop.alignDown stackAlign).toNat v.stackSize := by
  have hrun := v.ensures_marshal_of_maps h hwords
  constructor
  · rintro ⟨layout, m', hok⟩
    exact hrun.of_ok hok
  · intro hstack
    obtain ⟨layout, m', hok, -⟩ :=
      (hrun.mono (fun _ _ _ => trivial) fun _ _ hnot => hnot hstack).exists_ok
    exact ⟨layout, m', hok⟩

end ArgVector

end UnixCore
