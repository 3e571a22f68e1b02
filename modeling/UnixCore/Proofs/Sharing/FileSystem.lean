import UnixCore.Proofs.Sharing.Files

/-! What is expected of a file system: which counts its vnodes report, what reads and writes mean
for the contents of a regular file, and which calls may change a name or a file at all. -/

namespace UnixCore

variable {W : Type}

/-- The vnodes of a world take no more bytes than they are given. -/
def Services.HonestAt (S : Services W) (w : W) : Prop :=
  ∀ v offset bytes count w', S.writeAt v offset bytes w = .ok count w' →
    count.toNat ≤ bytes.length

/-- The vnodes of a world give no more bytes than they are asked for. -/
def Services.SparingAt (S : Services W) (w : W) : Prop :=
  ∀ v offset count bytes w', S.readAt v offset count w = .ok bytes w' → bytes.length ≤ count

/-! ### Regular files -/

/-- The contents of a file after `data` was written to it from `start` on. -/
structure Written (start : Nat) (data old new : List UInt8) : Prop where
  inside : ∀ i < data.length, new[start + i]? = data[i]?
  before : ∀ i < start, i < old.length → new[i]? = old[i]?
  after : ∀ i, start + data.length ≤ i → new[i]? = old[i]?

namespace Written

variable {start i : Nat} {data data' old mid new : List UInt8}

theorem nil (start : Nat) (old : List UInt8) : Written start [] old old :=
  ⟨nofun, fun _ _ _ => rfl, fun _ _ => rfl⟩

theorem lt_of_inside (h : Written start data old new) (hi : i < data.length) :
    start + i < new.length := by
  have hin := h.inside i hi
  rw [List.getElem?_eq_getElem hi] at hin
  exact (List.getElem?_eq_some_iff.1 hin).1

theorem lt_of_before (h : Written start data old new) (hstart : i < start) (hi : i < old.length) :
    i < new.length := by
  have hin := h.before i hstart hi
  rw [List.getElem?_eq_getElem hi] at hin
  exact (List.getElem?_eq_some_iff.1 hin).1

/-- What is written behind what was written before makes one piece with it. -/
theorem append (h : Written start data old mid)
    (h' : Written (start + data.length) data' mid new) : Written start (data ++ data') old new := by
  refine ⟨fun i hi => ?_, fun i hstart hi => ?_, fun i hi => ?_⟩
  · by_cases hdata : i < data.length
    · rw [h'.before _ (by omega) (h.lt_of_inside hdata), h.inside i hdata,
        List.getElem?_append_left hdata]
    · rw [List.length_append] at hi
      have hin := h'.inside (i - data.length) (by omega)
      rw [show start + data.length + (i - data.length) = start + i by omega] at hin
      rw [hin, List.getElem?_append_right (by omega)]
  · rw [h'.before i (by omega) (h.lt_of_before hstart hi), h.before i hstart hi]
  · rw [List.length_append] at hi
    rw [h'.after i (by omega), h.after i (by omega)]

/-- A file reaches as far as what was written to it, also where that is nothing. -/
theorem le_length (h : Written start data old new)
    (hgap : ∀ i, old.length ≤ i → i < start → new[i]? = some 0) :
    start + data.length ≤ new.length := by
  rcases Nat.eq_zero_or_pos data.length with hdata | hdata
  · rcases Nat.eq_zero_or_pos start with rfl | hstart
    · omega
    · have hlast : start - 1 < new.length := by
        by_cases hold : start - 1 < old.length
        · exact h.lt_of_before (by omega) hold
        · exact (List.getElem?_eq_some_iff.1 (hgap (start - 1) (by omega) (by omega))).1
      omega
  · have hlast := h.lt_of_inside (i := data.length - 1) (by omega)
    omega

end Written

/-- What a regular file promises wherever its contents are known: a read gives bytes of the contents
from the offset on, a write puts a first part of the bytes there and tells how long it is, and
nothing else changes the contents. -/
structure Services.Regular (S : Services W) (v : Vnode) (content : W → Option (List UInt8)) :
    Prop where
  read : ∀ {w : W} {c : List UInt8} (offset : UInt64) (count : Nat), content w = some c →
    (S.readAt v offset count).Ensures w
      (fun bytes w' => bytes <+: c.drop offset.toNat ∧ content w' = some c)
      fun _ w' => content w' = some c
  write : ∀ {w : W} {c : List UInt8} (offset : UInt64) (bytes : List UInt8),
    bytes.length < UInt64.size → content w = some c →
    (S.writeAt v offset bytes).Ensures w
      (fun count w' => count.toNat ≤ bytes.length ∧
        ∃ c', content w' = some c' ∧ Written offset.toNat (bytes.take count.toNat) c c')
      fun _ w' => content w' = some c

/-- A vnode of a regular file that keeps the whole protocol. A read gives no more than it is asked
for, a gap in front of what is written fills with zeros, files stay below the limit of signed
offsets, and a write leaves the file as seekable as it was. -/
structure Services.Faithful (S : Services W) (v : Vnode) (content : W → Option (List UInt8)) : Prop
    extends S.Regular v content where
  sparing : ∀ {w : W} {c : List UInt8} (offset : UInt64) (count : Nat), content w = some c →
    (S.readAt v offset count).Ensures w (fun bytes _ => bytes.length ≤ count) fun _ _ => True
  gap : ∀ {w : W} {c : List UInt8} (offset : UInt64) (bytes : List UInt8),
    bytes.length < UInt64.size → content w = some c →
    (S.writeAt v offset bytes).Ensures w
      (fun _ w' => ∀ c', content w' = some c' →
        ∀ i, c.length ≤ i → i < offset.toNat → c'[i]? = some 0)
      fun _ _ => True
  bound : ∀ {w : W} {c : List UInt8}, content w = some c → c.length < OpenFile.seekLimit
  seekable : ∀ {w : W} {c : List UInt8} (offset : UInt64) (bytes : List UInt8),
    bytes.length < UInt64.size → content w = some c →
    (S.writeAt v offset bytes).Ensures w (fun _ w' => S.isSeekable v w' = S.isSeekable v w)
      fun _ _ => True

/-! ### Names and contents -/

/-- The files of a world: the number behind each name, and the contents behind each number. -/
structure FileView (W : Type) where
  number : W → String → Option Nat
  content : W → Nat → Option (List UInt8)

/-- Flags that neither create a file nor truncate one. -/
def OpenFlags.Plain (flags : OpenFlags) : Prop :=
  flags.contains .creat = false ∧ flags.contains .trunc = false

instance (flags : OpenFlags) : Decidable flags.Plain := inferInstanceAs (Decidable (_ ∧ _))

/-- No name has changed, and no contents but perhaps those behind one number. -/
def FileView.KeptBut (view : FileView W) (number : Nat) (w w' : W) : Prop :=
  view.number w' = view.number w ∧ ∀ n ≠ number, view.content w' n = view.content w n

/-- No name and no contents have changed. -/
def FileView.Kept (view : FileView W) (w w' : W) : Prop :=
  view.number w' = view.number w ∧ ∀ n, view.content w' n = view.content w n

theorem FileView.Kept.refl (view : FileView W) (w : W) : view.Kept w w := ⟨rfl, fun _ => rfl⟩

/-- A file system with these files: an open without flags to create or truncate only looks, a write
changes no other file, and no other call changes any. -/
structure Services.Shows (S : Services W) (view : FileView W) : Prop where
  openPath : ∀ (path : String) (flags : OpenFlags) (w : W), flags.Plain →
    (S.openPath path flags).Ensures w
      (fun v w' => view.Kept w w' ∧ view.number w path = some v.resource)
      fun _ w' => view.Kept w w'
  readAt : ∀ (v : Vnode) (offset : UInt64) (count : Nat) (w : W),
    (S.readAt v offset count).Ensures w (fun _ w' => view.Kept w w') fun _ w' => view.Kept w w'
  writeAt : ∀ (v : Vnode) (offset : UInt64) (bytes : List UInt8) (w : W),
    (S.writeAt v offset bytes).Ensures w (fun _ w' => view.KeptBut v.resource w w')
      fun _ w' => view.KeptBut v.resource w w'
  stat : ∀ (v : Vnode) (w : W),
    (S.stat v).Ensures w (fun _ w' => view.Kept w w') fun _ w' => view.Kept w w'
  others : ∀ {w w' : W}, S.Called .nothing w w' → view.Kept w w'

/-! ### Opens that change files -/

namespace FileView

variable {view : FileView W} {path : String} {flags : OpenFlags} {n : Nat} {w w' w'' : W}

/-- No name has changed and of the contents only those of file `n`, which is empty if the flags say
so. -/
structure Cleared (view : FileView W) (flags : OpenFlags) (n : Nat) (w w' : W) : Prop where
  others : view.KeptBut n w w'
  content : view.content w' n =
    if flags.contains .trunc then (view.content w n).map fun _ => [] else view.content w n

/-- What an open does to the files that gives file `n`: it finds the file, and empties it if it is
told to, or it makes an empty one. -/
inductive Prepared (view : FileView W) (path : String) (flags : OpenFlags) (n : Nat) (w w' : W) :
    Prop
  | found : view.number w path = some n → view.Cleared flags n w w' →
    Prepared view path flags n w w'
  | created : view.number w path = none → flags.contains .creat = true →
    (∀ name, view.number w' name = if name = path then some n else view.number w name) →
    (∀ m ≠ n, view.content w' m = view.content w m) → view.content w n = none →
    view.content w' n = some [] → Prepared view path flags n w w'

/-- An open with these flags has a file to make or something to throw away. -/
def Disturbs (view : FileView W) (path : String) (flags : OpenFlags) (w : W) : Prop :=
  flags.contains .creat = true ∧ view.number w path = none ∨
    flags.contains .trunc = true ∧
      ∃ n c, view.number w path = some n ∧ view.content w n = some c ∧ c ≠ []

theorem Kept.trans (h : view.Kept w w') (h' : view.Kept w' w'') : view.Kept w w'' :=
  ⟨h'.1.trans h.1, fun n => (h'.2 n).trans (h.2 n)⟩

theorem not_disturbs_of_plain (hplain : flags.Plain) : ¬ view.Disturbs path flags w := by
  rintro (⟨hcreat, -⟩ | ⟨htrunc, -⟩)
  · rw [hplain.1] at hcreat
    cases hcreat
  · rw [hplain.2] at htrunc
    cases htrunc

theorem Cleared.trans_kept (h : view.Cleared flags n w w') (h' : view.Kept w' w'') :
    view.Cleared flags n w w'' :=
  ⟨⟨h'.1.trans h.others.1, fun m hm => (h'.2 m).trans (h.others.2 m hm)⟩,
    (h'.2 n).trans h.content⟩

theorem Cleared.kept_iff (h : view.Cleared flags n w w') :
    view.Kept w w' ↔ view.content w' n = view.content w n := by
  refine ⟨fun hkept => hkept.2 n, fun hcontent => ⟨h.others.1, fun m => ?_⟩⟩
  by_cases hm : m = n
  · rw [hm, hcontent]
  · exact h.others.2 m hm

namespace Prepared

theorem trans_kept (h : view.Prepared path flags n w w') (h' : view.Kept w' w'') :
    view.Prepared path flags n w w'' := by
  cases h with
  | found hnumber hcleared => exact .found hnumber (hcleared.trans_kept h')
  | created hnumber hcreat hnames hothers hfresh hcontent =>
    exact .created hnumber hcreat (fun name => h'.1 ▸ hnames name)
      (fun m hm => (h'.2 m).trans (hothers m hm)) hfresh ((h'.2 n).trans hcontent)

theorem of_kept (h : view.Prepared path flags n w' w'') (h' : view.Kept w w') :
    view.Prepared path flags n w w'' := by
  have hcontent : view.content w' = view.content w := funext h'.2
  cases h with
  | found hnumber hcleared =>
    obtain ⟨⟨hnames, hothers⟩, hcleared⟩ := hcleared
    rw [h'.1] at hnumber hnames
    rw [hcontent] at hothers hcleared
    exact .found hnumber ⟨⟨hnames, hothers⟩, hcleared⟩
  | created hnumber hcreat hnames hothers hfresh hempty =>
    rw [h'.1] at hnumber hnames
    rw [hcontent] at hothers hfresh
    exact .created hnumber hcreat hnames hothers hfresh hempty

theorem kept_iff (h : view.Prepared path flags n w w') :
    view.Kept w w' ↔ ¬ view.Disturbs path flags w := by
  cases h with
  | found hnumber hcleared =>
    rw [hcleared.kept_iff, hcleared.content, Disturbs, hnumber]
    split
    case isFalse htrunc => simp [htrunc]
    case isTrue htrunc =>
      cases hold : view.content w n with
      | none => simp [hold]
      | some c => simp [htrunc, hold]
  | created hnumber hcreat hnames hothers hfresh hcontent =>
    refine iff_of_false (fun hkept => ?_) (not_not_intro (.inl ⟨hcreat, hnumber⟩))
    have := hkept.2 n
    rw [hcontent, hfresh] at this
    cases this

/-- Without flags to create or truncate an open only finds its file. -/
theorem of_plain (h : view.Prepared path flags n w w') (hplain : flags.Plain) :
    view.Kept w w' ∧ view.number w path = some n := by
  refine ⟨h.kept_iff.2 (not_disturbs_of_plain hplain), ?_⟩
  cases h with
  | found hnumber _ => exact hnumber
  | created _ hcreat =>
    rw [hplain.1] at hcreat
    cases hcreat

end Prepared

end FileView

/-- A file system with these files, where an open that succeeds does what its flags say, and one
that fails does nothing. -/
structure Services.Prepares (S : Services W) (view : FileView W) : Prop extends S.Shows view where
  prepares : ∀ (path : String) (flags : OpenFlags) (w : W),
    (S.openPath path flags).Ensures w (fun v w' => view.Prepared path flags v.resource w w')
      fun _ w' => view.Kept w w'

end UnixCore
