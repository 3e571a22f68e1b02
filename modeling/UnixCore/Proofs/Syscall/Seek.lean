import UnixCore.Proofs.Sharing.Cursor
import UnixCore.Proofs.Syscall.Unwound

/-! The arithmetic of seeks. A seek goes to the exact sum of what it counts from and a signed
displacement, where signed 64-bit offsets can name both, and in all other cases it leaves the cursor
where it was. So what it gives to a program is never taken for an error, whatever size a resource
has and wherever a cursor has come to stand. -/

namespace UnixCore

open Action

variable {W : Type} {S : Services W}

namespace OpenFile

/-- Signed 64-bit offsets can name `base` and the place `pos` away from it. -/
structure InReach (base : UInt64) (pos : Int64) : Prop where
  base_le : base.toNat ≤ 2 ^ 63 - 1
  nonneg : 0 ≤ (base.toNat : Int) + pos.toInt
  le : (base.toNat : Int) + pos.toInt ≤ 2 ^ 63 - 1

variable {base target : UInt64} {pos : Int64}

theorem inReach_iff : InReach base pos ↔ base.toNat < seekLimit ∧
    0 ≤ (base.toNat : Int) + pos.toInt ∧ (base.toNat : Int) + pos.toInt < seekLimit := by
  have hlimit : seekLimit = 2 ^ 63 := rfl
  constructor
  · rintro ⟨hbase, hnonneg, hle⟩
    omega
  · rintro ⟨hbase, hnonneg, hlt⟩
    exact ⟨by omega, hnonneg, by omega⟩

theorem seekTarget_eq_ok_iff : seekTarget base pos = .ok target ↔
    InReach base pos ∧ (target.toNat : Int) = base.toNat + pos.toInt := by
  have hsize : seekLimit < UInt64.size := by decide
  rw [seekTarget, inReach_iff]
  split
  case isTrue h =>
    rw [and_iff_right h, Except.ok.injEq, ← UInt64.toNat_inj, UInt64.toNat_ofNat_of_lt' (by omega)]
    omega
  case isFalse h => simp [h]

theorem seekTarget_eq_error_iff {e : Errno} :
    seekTarget base pos = .error e ↔ e = .invalidArgument ∧ ¬ InReach base pos := by
  rw [seekTarget, inReach_iff]
  split
  case isTrue h => simp [h]
  case isFalse h => simp [h, eq_comm]

end OpenFile

namespace Shared

variable {sh sh' : Shared W} {id : FileId} {file : OpenFile} {pos : Int64} {whence : Whence}

/-- What a seek counts from, and the world after that has been found out. -/
def origin (S : Services W) (file : OpenFile) (w : W) : Whence → Except Errno UInt64 × W
  | .start => (.ok 0, w)
  | .current => (.ok file.offset, w)
  | .fileEnd =>
    let (stat, w) := (S.stat file.vnode).result w
    (stat.map (·.size), w)

theorem result_seekBase (file : OpenFile) (whence : Whence) (sh : Shared W) :
    (seekBase S file whence).result sh =
      ((origin S file sh.world whence).1,
        { sh with world := (origin S file sh.world whence).2 }) := by
  cases whence with
  | start => rfl
  | current => rfl
  | fileEnd =>
    rw [result_eq_iff]
    simp only [seekBase, onWorld, ensures_bind, ensures_onPart, ensures_pure, origin]
    refine ensures_result.mono (fun stat w hstat => ?_) fun e w hstat => ?_ <;>
      simp [hstat, Except.map]

theorem seek_eq (hfile : sh.files.get? id = some file) :
    seek S id pos whence sh =
      if S.isSeekable file.vnode sh.world then
        match origin S file sh.world whence with
        | (.ok base, w) =>
          match OpenFile.seekTarget base pos with
          | .ok target =>
            .ok target
              { sh with files := sh.files.modify id ({ · with offset := target }), world := w }
          | .error e => .error e { sh with world := w }
        | (.error e, w) => .error e { sh with world := w }
      else .error .illegalSeek sh := by
  rw [seek, get_bind, hfile]
  dsimp only
  rw [get_bind]
  split
  case isFalse => rfl
  case isTrue =>
    have hbase := result_seekBase (S := S) file whence sh
    rcases horigin : origin S file sh.world whence with ⟨e | base, w⟩ <;> rw [horigin] at hbase
    · rw [bind_of_error (eq_error_of_result (by rw [hbase])), hbase]
    · rw [bind_of_ok (eq_ok_of_result hbase)]
      dsimp only
      cases OpenFile.seekTarget base pos <;> rfl

theorem seek_eq_ok_iff (hfile : sh.files.get? id = some file) {target : UInt64} :
    seek S id pos whence sh = .ok target sh' ↔
      S.isSeekable file.vnode sh.world = true ∧
        ∃ base w, origin S file sh.world whence = (.ok base, w) ∧ OpenFile.InReach base pos ∧
          (target.toNat : Int) = base.toNat + pos.toInt ∧
          sh' = { sh with
            files := sh.files.modify id ({ · with offset := target }), world := w } := by
  constructor
  · intro h
    rw [seek_eq hfile] at h
    split at h
    case isFalse => cases h
    case isTrue hseekable =>
      split at h
      case h_2 => cases h
      case h_1 base w horigin =>
        split at h
        case h_2 => cases h
        case h_1 htarget =>
          cases h
          obtain ⟨hreach, hsum⟩ := OpenFile.seekTarget_eq_ok_iff.1 htarget
          exact ⟨hseekable, base, w, horigin, hreach, hsum, rfl⟩
  · rintro ⟨hseekable, base, w, horigin, hreach, hsum, rfl⟩
    rw [seek_eq hfile, if_pos hseekable, horigin]
    dsimp only
    rw [OpenFile.seekTarget_eq_ok_iff.2 ⟨hreach, hsum⟩]

/-- A seek that fails leaves the cursors alone. -/
theorem seek_error (hfile : sh.files.get? id = some file) {e : Errno}
    (h : seek S id pos whence sh = .error e sh') :
    sh'.files = sh.files ∧
      (S.isSeekable file.vnode sh.world = false ∧ e = .illegalSeek ∨
        S.isSeekable file.vnode sh.world = true ∧
          ((origin S file sh.world whence).1 = .error e ∨
            ∃ base, (origin S file sh.world whence).1 = .ok base ∧ ¬ OpenFile.InReach base pos ∧
              e = .invalidArgument)) := by
  rw [seek_eq hfile] at h
  split at h
  case isFalse hnot =>
    cases h
    exact ⟨rfl, .inl ⟨Bool.of_not_eq_true hnot, rfl⟩⟩
  case isTrue hseekable =>
    split at h
    case h_1 base w horigin =>
      split at h
      case h_1 => cases h
      case h_2 htarget =>
        cases h
        obtain ⟨rfl, hout⟩ := OpenFile.seekTarget_eq_error_iff.1 htarget
        exact ⟨rfl, .inr ⟨hseekable, .inr ⟨base, by rw [horigin], hout, rfl⟩⟩⟩
    case h_2 horigin =>
      cases h
      exact ⟨rfl, .inr ⟨hseekable, .inl (by rw [horigin])⟩⟩

end Shared

namespace Syscall

variable {k k' : Kernel W} {p : ProcessId} {fd : UInt64} {pos : Int64} {whence : Int32}

theorem toInt_toInt64 {n : UInt64} (h : n.toNat < 2 ^ 63) : n.toInt64.toInt = n.toNat := by
  rw [← UInt64.ofNat_toNat (x := n), UInt64.toInt64_ofNat', Int64.toInt_ofNat_of_lt h,
    UInt64.ofNat_toNat]

/-- What a program gets from a seek is the cursor of the file that its descriptor refers to. -/
theorem ensures_sysLseek_cursor :
    (sysLseek S p fd pos whence).Ensures k
      (fun v k' => ∃ n id file offset, descriptor fd = .ok n ∧
        (k.process p).descriptors.get? n = some id ∧ k'.shared.files.get? id = some file ∧
        v = .value offset ∧ 0 ≤ offset ∧ offset.toInt = file.offset.toNat)
      fun _ _ => True := by
  rw [sysLseek, ensures_bind, ensures_ofExcept]
  refine ⟨fun n hn => ?_, fun _ _ => trivial⟩
  rw [ensures_bind, Kernel.onDescriptors, ensures_onPart, Descriptors.seek, ensures_bind,
    Descriptors.ensures_lookup]
  refine ⟨fun id hid => ?_, fun _ => trivial⟩
  rw [ensures_bind, ensures_ofExcept]
  refine ⟨fun whence _ => ?_, fun _ _ => trivial⟩
  rw [Descriptors.ensures_onShared]
  refine Shared.ensures_seek_eq.mono ?_ fun _ _ _ => trivial
  rintro target _ ⟨hlt, file, w, hfile, -, rfl⟩
  refine ⟨n, id, { file with offset := target }, _, hn, hid, ?_, rfl, zero_le_toInt64 hlt,
    toInt_toInt64 hlt⟩
  simp [Pool.get?_modify, hfile]

end Syscall

/-! ### The law -/

/-- A seek succeeds if and only if the file is seekable, what it counts from can be found out, and
signed offsets can name that and the sum. It moves the cursor to the exact sum, or not at all. So no
program gets a negative offset, whatever has been done before. -/
theorem seek_exact {sh : Shared W} {id : FileId} {file : OpenFile}
    (hfile : sh.files.get? id = some file) (pos : Int64) (whence : Whence) :
    (∀ target sh', Shared.seek S id pos whence sh = .ok target sh' ↔
        S.isSeekable file.vnode sh.world = true ∧
          ∃ base w, Shared.origin S file sh.world whence = (.ok base, w) ∧
            OpenFile.InReach base pos ∧ (target.toNat : Int) = base.toNat + pos.toInt ∧
            sh' = { sh with
              files := sh.files.modify id ({ · with offset := target }), world := w }) ∧
      (∀ e sh', Shared.seek S id pos whence sh = .error e sh' → sh'.files = sh.files ∧
        (S.isSeekable file.vnode sh.world = false ∧ e = .illegalSeek ∨
          S.isSeekable file.vnode sh.world = true ∧
            ((Shared.origin S file sh.world whence).1 = .error e ∨
              ∃ base, (Shared.origin S file sh.world whence).1 = .ok base ∧
                ¬ OpenFile.InReach base pos ∧ e = .invalidArgument))) ∧
      ∀ (k : Kernel W) p fd pos whence v k',
        Syscall.sysLseek S p fd pos whence k = .ok v k' →
          ∃ n id file offset, Syscall.descriptor fd = .ok n ∧
            (k.process p).descriptors.get? n = some id ∧ k'.shared.files.get? id = some file ∧
            v = .value offset ∧ 0 ≤ offset ∧ offset.toInt = file.offset.toNat :=
  ⟨fun _ _ => Shared.seek_eq_ok_iff hfile, fun _ _ => Shared.seek_error hfile,
    fun _ _ _ _ _ _ _ hrun => Syscall.ensures_sysLseek_cursor.of_ok hrun⟩

/-- From the end of a file of eight bytes a seek can go eight bytes back, but not nine. -/
theorem seek_exact_sharedProgram :
    sharedProgram.shared.files.get? 3 = some ⟨⟨2, false⟩, .readWrite, false, 0⟩ ∧
      (∃ sh, Shared.seek Ram.services 3 (-8) .fileEnd sharedProgram.shared = .ok 0 sh) ∧
      ∃ sh, Shared.seek Ram.services 3 (-9) .fileEnd sharedProgram.shared =
          .error .invalidArgument sh ∧ sh.files = sharedProgram.shared.files := by
  have hfile : sharedProgram.shared.files.get? 3 = some ⟨⟨2, false⟩, .readWrite, false, 0⟩ := by
    decide +kernel
  have hstat := Action.result_eq_ok (a := (⟨8, .regular⟩ : Stat)) (show
    ((Ram.services.stat ⟨2, false⟩).result sharedProgram.shared.world).1.toOption = _ by
      decide +kernel)
  have horigin : ∃ w, Shared.origin Ram.services ⟨⟨2, false⟩, .readWrite, false, 0⟩
      sharedProgram.shared.world .fileEnd = (.ok 8, w) := by
    rw [Shared.origin, hstat]
    exact ⟨_, rfl⟩
  obtain ⟨w, horigin⟩ := horigin
  refine ⟨hfile, ⟨_, ((seek_exact hfile (-8) .fileEnd).1 0 _).2
    ⟨by decide +kernel, 8, _, horigin, ⟨by decide, by decide, by decide⟩, by decide, rfl⟩⟩, ?_⟩
  have hfails : Shared.seek Ram.services 3 (-9) .fileEnd sharedProgram.shared =
      .error .invalidArgument _ := Action.eq_error_of_result (by decide +kernel)
  exact ⟨_, hfails, ((seek_exact hfile (-9) .fileEnd).2.1 _ _ hfails).1⟩

end UnixCore
