import UnixCore.Proofs.Sharing.Touches

/-! What the operations on open files do, and what can become of an open file: it keeps its vnode
and its access mode for as long as it is there, and its cursor stays where it is unless the file is
read, written or sought in. A vnode is read or written only as that of an open file whose mode
allows it. -/

namespace UnixCore

open Action

variable {W : Type} {S : Services W}

variable {scope : Scope}

/-- The world after the size of a resource may have been asked for. -/
def Services.Asked (S : Services W) (v : Vnode) (w w' : W) : Prop :=
  w' = w ∨ ∃ r, (S.stat v).result w = (r, w')

/-- One call of the services while these files are open. -/
inductive Services.Calls (S : Services W) (scope : Scope) (files : Pool OpenFile) (w : W) : W → Prop
  | readAt {id : FileId} {file : OpenFile} {count : Nat} {r : Except Errno (List UInt8)} {w' : W} :
    files.get? id = some file → file.mode.canRead = true →
    (S.readAt file.vnode file.offset count).result w = (r, w') → Calls S scope files w w'
  | writeAt {id : FileId} {file : OpenFile} {bytes : List UInt8} {r : Except Errno UInt64}
    {w' : W} : files.get? id = some file → file.mode.canWrite = true →
    (S.writeAt file.vnode file.offset bytes).result w = (r, w') → Calls S scope files w w'
  | stat {v : Vnode} {r : Except Errno Stat} {w' : W} : (S.stat v).result w = (r, w') →
    Calls S scope files w w'
  | other {w' : W} : S.Called scope w w' → Calls S scope files w w'

theorem Services.Asked.calls {v : Vnode} {files : Pool OpenFile} {w w' : W} (h : S.Asked v w w') :
    Relation.ReflTransGen (S.Calls scope files) w w' := by
  rcases h with rfl | ⟨r, hr⟩
  · exact .refl
  · exact .single (.stat hr)

theorem OpenFile.lt_of_seekTarget {base target : UInt64} {pos : Int64}
    (h : seekTarget base pos = .ok target) : target.toNat < seekLimit := by
  unfold seekTarget at h
  dsimp only at h
  split at h
  case isFalse => cases h
  case isTrue hlimit =>
    cases h
    have hsize : seekLimit < UInt64.size := by decide
    rw [UInt64.toNat_ofNat_of_lt' (by omega)]
    omega

namespace Shared

variable {sh sh' sh'' : Shared W} {id : FileId}

/-! ### Operations on files -/

theorem ensures_openFile_eq {path : String} {flags : OpenFlags} :
    (openFile S path flags).Ensures sh
      (fun id sh' => id = sh.files.next ∧ ∃ v w w' offset,
        S.openPath path flags sh.world = .ok v w ∧
        S.Asked v w w' ∧ sh' = { sh with
          files := sh.files.insert ⟨v, flags.accessMode, flags.contains .append, offset⟩
          world := w' })
      fun e sh' => (∃ w, S.openPath path flags sh.world = .error e w ∧
          sh' = { sh with world := w }) ∨
        ∃ v w w', S.openPath path flags sh.world = .ok v w ∧ (S.stat v).result w = (.error e, w') ∧
          sh' = { sh with world := S.release v w' } := by
  rw [openFile, ensures_bind, onWorld, ensures_onPart]
  refine ensures_iff.2 ⟨fun v w hopen => ?_, fun e w hopen => .inl ⟨w, hopen, rfl⟩⟩
  rw [ensures_bind, ensures_outcome, startOffset]
  split
  case isTrue =>
    rw [ensures_bind, onWorld, ensures_onPart]
    refine ensures_result.mono (fun stat w' hstat => ?_) fun e w' hstat => ?_
    · exact ⟨rfl, v, w, w', stat.size, hopen, .inr ⟨_, hstat⟩, rfl⟩
    · exact .inr ⟨v, w, w', hopen, hstat, rfl⟩
  case isFalse => exact ⟨rfl, v, w, w, 0, hopen, .inl rfl, rfl⟩

theorem ensures_read_eq {count : Nat} :
    (read S id count).Ensures sh
      (fun bytes sh' => ∃ file w, sh.files.get? id = some file ∧ file.mode.canRead = true ∧
        S.readAt file.vnode file.offset count sh.world = .ok bytes w ∧
        sh' = { sh with files := sh.files.modify id (·.advance bytes.length), world := w })
      fun e sh' => (e = .badFileDescriptor ∧ sh' = sh ∧
          ∀ file, sh.files.get? id = some file → file.mode.canRead = false) ∨
        ∃ file w, sh.files.get? id = some file ∧ file.mode.canRead = true ∧
          S.readAt file.vnode file.offset count sh.world = .error e w ∧
          sh' = { sh with world := w } := by
  rw [read, ensures_bind, ensures_get]
  cases hfile : sh.files.get? id with
  | none => exact .inl ⟨rfl, rfl, nofun⟩
  | some file =>
    dsimp only
    split
    case isTrue hmode =>
      rw [ensures_bind, onWorld, ensures_onPart]
      refine ensures_iff.2 ⟨fun bytes w hread => ?_, fun e w hread => ?_⟩
      · exact ⟨file, w, rfl, hmode, hread, rfl⟩
      · exact .inr ⟨file, w, rfl, hmode, hread, rfl⟩
    case isFalse hmode =>
      refine .inl ⟨rfl, rfl, fun file' hfile' => ?_⟩
      cases hfile'
      exact Bool.of_not_eq_true hmode

theorem ensures_write_eq {bytes : List UInt8} :
    (write S id bytes).Ensures sh
      (fun count sh' => ∃ file w, sh.files.get? id = some file ∧ file.mode.canWrite = true ∧
        S.writeAt file.vnode file.offset bytes sh.world = .ok count w ∧
        sh' = { sh with files := sh.files.modify id (·.advance count.toNat), world := w })
      fun e sh' => (e = .badFileDescriptor ∧ sh' = sh ∧
          ∀ file, sh.files.get? id = some file → file.mode.canWrite = false) ∨
        ∃ file w, sh.files.get? id = some file ∧ file.mode.canWrite = true ∧
          S.writeAt file.vnode file.offset bytes sh.world = .error e w ∧
          sh' = { sh with world := w } := by
  rw [write, ensures_bind, ensures_get]
  cases hfile : sh.files.get? id with
  | none => exact .inl ⟨rfl, rfl, nofun⟩
  | some file =>
    dsimp only
    split
    case isTrue hmode =>
      rw [ensures_bind, onWorld, ensures_onPart]
      refine ensures_iff.2 ⟨fun count w hwrite => ?_, fun e w hwrite => ?_⟩
      · exact ⟨file, w, rfl, hmode, hwrite, rfl⟩
      · exact .inr ⟨file, w, rfl, hmode, hwrite, rfl⟩
    case isFalse hmode =>
      refine .inl ⟨rfl, rfl, fun file' hfile' => ?_⟩
      cases hfile'
      exact Bool.of_not_eq_true hmode

theorem ensures_seekBase {file : OpenFile} {whence : Whence} :
    (seekBase S file whence).Ensures sh
      (fun _ sh' => ∃ w, S.Asked file.vnode sh.world w ∧ sh' = { sh with world := w })
      fun _ sh' => ∃ w, S.Asked file.vnode sh.world w ∧ sh' = { sh with world := w } := by
  cases whence with
  | start => exact ⟨sh.world, .inl rfl, rfl⟩
  | current => exact ⟨sh.world, .inl rfl, rfl⟩
  | fileEnd =>
    simp only [seekBase, onWorld, ensures_bind, ensures_onPart, ensures_pure]
    exact ensures_result.mono (fun _ w hstat => ⟨w, .inr ⟨_, hstat⟩, rfl⟩)
      fun _ w hstat => ⟨w, .inr ⟨_, hstat⟩, rfl⟩

/-- A seek gives the new cursor, which is below the limit, and asks at most for the size. -/
theorem ensures_seek_eq {pos : Int64} {whence : Whence} :
    (seek S id pos whence).Ensures sh
      (fun target sh' => target.toNat < OpenFile.seekLimit ∧ ∃ file w,
        sh.files.get? id = some file ∧ S.Asked file.vnode sh.world w ∧
        sh' = { sh with files := sh.files.modify id ({ · with offset := target }), world := w })
      fun _ sh' => sh' = sh ∨ ∃ file w, sh.files.get? id = some file ∧
        S.Asked file.vnode sh.world w ∧ sh' = { sh with world := w } := by
  rw [seek, ensures_bind, ensures_get]
  cases hfile : sh.files.get? id with
  | none => exact .inl rfl
  | some file =>
    simp only [ensures_bind, ensures_get]
    split
    case isFalse => exact .inl rfl
    case isTrue =>
      simp only [ensures_bind]
      refine ensures_seekBase.mono ?_ ?_
      · rintro base sh₁ ⟨w, hasked, rfl⟩
        refine ensures_ofExcept.2 ⟨fun target htarget => ?_, fun e _ => ?_⟩
        · exact ⟨OpenFile.lt_of_seekTarget htarget, file, w, rfl, hasked, rfl⟩
        · exact .inr ⟨file, w, rfl, hasked, rfl⟩
      · rintro e sh₁ ⟨w, hasked, rfl⟩
        exact .inr ⟨file, w, rfl, hasked, rfl⟩

/-! ### One change -/

/-- A path was opened as one more file. -/
def Opened (S : Services W) (scope : Scope) (sh sh' : Shared W) : Prop :=
  ∃ path flags v w offset, scope.opens path flags ∧ S.openPath path flags sh.world = .ok v w ∧
    S.Asked v w sh'.world ∧
    sh'.files = sh.files.insert ⟨v, flags.accessMode, flags.contains .append, offset⟩

/-- What one change comes to: files and directories come to be held by more or fewer, or the cursor
of one file is moved, or one more file is opened. -/
inductive Altered (S : Services W) (scope : Scope) (sh sh' : Shared W) : Prop
  | counted : sh.files.Since (fun f => f) sh'.files → sh'.files.next = sh.files.next →
    sh.directories.Since (fun v => v) sh'.directories →
    Relation.ReflTransGen (S.Calls scope sh.files) sh.world sh'.world → Altered S scope sh sh'
  | moved {id : FileId} {f : OpenFile → OpenFile} : scope.moves id →
    sh'.files = sh.files.modify id f →
    (∀ file, ((f file).vnode, (f file).mode, (f file).append) =
      (file.vnode, file.mode, file.append)) → sh'.directories = sh.directories →
    Relation.ReflTransGen (S.Calls scope sh.files) sh.world sh'.world → Altered S scope sh sh'
  | opened : Opened S scope sh sh' → sh'.directories = sh.directories → Altered S scope sh sh'

namespace Altered

/-- Only the world has gone on. -/
theorem world {w : W} (h : Relation.ReflTransGen (S.Calls scope sh.files) sh.world w) :
    Altered S scope sh { sh with world := w } :=
  .counted (.refl _ _) rfl (.refl _ _) h

theorem refl (sh : Shared W) : Altered S scope sh sh := .world .refl

theorem modify {f : OpenFile → OpenFile} {w : W} (hid : scope.moves id)
    (hf : ∀ file, ((f file).vnode, (f file).mode, (f file).append) =
      (file.vnode, file.mode, file.append))
    (h : Relation.ReflTransGen (S.Calls scope sh.files) sh.world w) :
    Altered S scope sh { sh with files := sh.files.modify id f, world := w } :=
  .moved hid rfl hf rfl h

theorem dropFile (S : Services W) (id : FileId) : Altered S scope sh (sh.dropFile S id) := by
  have hsince : sh.files.Since (fun f => f) (sh.files.release id).2 := Pool.since_release id
  have hnext := Pool.next_release (p := sh.files) id
  unfold Shared.dropFile
  rcases hrel : sh.files.release id with ⟨_ | file, files⟩ <;> rw [hrel] at hsince hnext
  · exact .counted hsince hnext (.refl _ _) .refl
  · exact .counted hsince hnext (.refl _ _) (.single (.other (.release file.vnode)))

theorem dropDirectory (S : Services W) (id : Nat) :
    Altered S scope sh (sh.dropDirectory S id) := by
  have hsince : sh.directories.Since (fun v => v) (sh.directories.release id).2 :=
    Pool.since_release id
  unfold Shared.dropDirectory
  rcases hrel : sh.directories.release id with ⟨_ | v, directories⟩ <;> rw [hrel] at hsince
  · exact .counted (.refl _ _) rfl hsince .refl
  · exact .counted (.refl _ _) rfl hsince (.single (.other (.release v)))

end Altered

theorem ensures_openFile_altered {path : String} {flags : OpenFlags}
    (hopens : scope.opens path flags) :
    (openFile S path flags).Ensures sh (fun _ sh' => Altered S scope sh sh')
      fun _ sh' => Altered S scope sh sh' := by
  have hcalled {r : Except Errno Vnode} {w : W}
      (hr : (S.openPath path flags).result sh.world = (r, w)) :
      Relation.ReflTransGen (S.Calls scope sh.files) sh.world w :=
    .single (.other (.openPath hopens hr))
  refine ensures_openFile_eq.mono ?_ ?_
  · rintro _ _ ⟨-, v, w, w', offset, hopen, hasked, rfl⟩
    exact .opened ⟨_, _, v, w, offset, hopens, hopen, hasked, rfl⟩ rfl
  · rintro _ _ (⟨w, hopen, rfl⟩ | ⟨v, w, w', hopen, hstat, rfl⟩)
    · exact .world (hcalled (result_of_error hopen))
    · exact .world (((hcalled (result_of_ok hopen)).tail (.stat hstat)).tail
        (.other (.release v)))

theorem ensures_read_altered {count : Nat} (hid : scope.moves id) :
    (read S id count).Ensures sh (fun _ sh' => Altered S scope sh sh')
      fun _ sh' => Altered S scope sh sh' := by
  refine ensures_read_eq.mono ?_ ?_
  · rintro _ _ ⟨file, w, hfile, hmode, hread, rfl⟩
    exact .modify hid (fun _ => rfl) (.single (.readAt hfile hmode (result_of_ok hread)))
  · rintro _ _ (⟨-, rfl, -⟩ | ⟨file, w, hfile, hmode, hread, rfl⟩)
    · exact .refl _
    · exact .world (.single (.readAt hfile hmode (result_of_error hread)))

theorem ensures_write_altered {bytes : List UInt8} (hid : scope.moves id) :
    (write S id bytes).Ensures sh (fun _ sh' => Altered S scope sh sh')
      fun _ sh' => Altered S scope sh sh' := by
  refine ensures_write_eq.mono ?_ ?_
  · rintro _ _ ⟨file, w, hfile, hmode, hwrite, rfl⟩
    exact .modify hid (fun _ => rfl) (.single (.writeAt hfile hmode (result_of_ok hwrite)))
  · rintro _ _ (⟨-, rfl, -⟩ | ⟨file, w, hfile, hmode, hwrite, rfl⟩)
    · exact .refl _
    · exact .world (.single (.writeAt hfile hmode (result_of_error hwrite)))

theorem ensures_seek_altered {pos : Int64} {whence : Whence} (hid : scope.moves id) :
    (seek S id pos whence).Ensures sh (fun _ sh' => Altered S scope sh sh')
      fun _ sh' => Altered S scope sh sh' := by
  refine ensures_seek_eq.mono ?_ ?_
  · rintro _ _ ⟨-, file, w, -, hasked, rfl⟩
    exact .modify hid (fun _ => rfl) hasked.calls
  · rintro _ _ (rfl | ⟨file, w, -, hasked, rfl⟩)
    · exact .refl _
    · exact .world hasked.calls

theorem Touch.altered (h : Touch S scope sh sh') : Altered S scope sh sh' := by
  cases h with
  | openFile hopens hresult => exact (ensures_openFile_altered hopens).result hresult
  | read hid hresult => exact (ensures_read_altered hid).result hresult
  | write hid hresult => exact (ensures_write_altered hid).result hresult
  | seek hid hresult => exact (ensures_seek_altered hid).result hresult
  | retainFile id =>
    exact .counted (Pool.since_retain id) (Pool.next_retain _) (.refl _ _) .refl
  | dropFile id => exact .dropFile S id
  | insertDirectory v => exact .counted (.refl _ _) rfl (Pool.since_insert v) .refl
  | retainDirectory id => exact .counted (.refl _ _) rfl (Pool.since_retain id) .refl
  | dropDirectory id => exact .dropDirectory S id
  | report e => exact .counted (.refl _ _) rfl (.refl _ _) .refl
  | called hcalled => exact .world (.single (.other hcalled))

/-! ### What becomes of files -/

/-- A file or directory that is still there is what it was, but for the cursors of the files that
may have moved. -/
structure Steady (moved : FileId → Prop) (sh sh' : Shared W) : Prop where
  files : sh.files.Since (fun f => (f.vnode, f.mode, f.append)) sh'.files
  cursors : ∀ id file, id < sh.files.next → ¬ moved id → sh'.files.get? id = some file →
    sh.files.get? id = some file
  directories : sh.directories.Since (fun v => v) sh'.directories

namespace Steady

variable {moved : FileId → Prop}

theorem refl (sh : Shared W) : Steady moved sh sh := ⟨.refl _ _, fun _ _ _ _ h => h, .refl _ _⟩

theorem trans (h : Steady moved sh sh') (h' : Steady moved sh' sh'') : Steady moved sh sh'' := by
  refine ⟨h.files.trans h'.files, fun id file hid hmoved hfile => ?_,
    h.directories.trans h'.directories⟩
  have hid' := Nat.lt_of_lt_of_le hid h.files.next_le
  exact h.cursors id file hid hmoved (h'.cursors id file hid' hmoved hfile)

theorem mono {moved' : FileId → Prop} (h : Steady moved sh sh')
    (hmoved : ∀ id, moved id → moved' id) : Steady moved' sh sh' :=
  ⟨h.files, fun id file hid hnot => h.cursors id file hid fun hm => hnot (hmoved id hm),
    h.directories⟩

/-- Files that come and go without being moved. -/
theorem of_since (hfiles : sh.files.Since (fun f => f) sh'.files)
    (hdirectories : sh.directories.Since (fun v => v) sh'.directories) : Steady moved sh sh' := by
  have hkept (id : FileId) (file : OpenFile) (hid : id < sh.files.next)
      (hfile : sh'.files.get? id = some file) : sh.files.get? id = some file := by
    obtain ⟨_, hpast, rfl⟩ := hfiles.kept id file hid hfile
    exact hpast
  refine ⟨⟨hfiles.next_le, fun id file hid hfile => ?_⟩, fun id file hid _ => hkept id file hid,
    hdirectories⟩
  exact ⟨file, hkept id file hid hfile, rfl⟩

theorem of_files_eq (hfiles : sh'.files = sh.files)
    (hdirectories : sh'.directories = sh.directories) : Steady moved sh sh' :=
  of_since (hfiles ▸ .refl _ _) (hdirectories ▸ .refl _ _)

/-- One file is moved. -/
theorem of_modify {f : OpenFile → OpenFile} (hid : moved id)
    (hfiles : sh'.files = sh.files.modify id f)
    (hf : ∀ file, ((f file).vnode, (f file).mode, (f file).append) =
      (file.vnode, file.mode, file.append))
    (hdirectories : sh'.directories = sh.directories) : Steady moved sh sh' := by
  refine ⟨hfiles ▸ Pool.since_modify id hf, fun i file _ hnot hfile => ?_,
    hdirectories ▸ .refl _ _⟩
  have hne : i ≠ id := fun hi => hnot (hi ▸ hid)
  rwa [hfiles, Pool.get?, Pool.held?_modify, if_neg hne] at hfile

end Steady

theorem Touch.steady (h : Touch S scope sh sh') : Steady scope.moves sh sh' := by
  cases h.altered with
  | counted hfiles _ hdirectories _ => exact .of_since hfiles hdirectories
  | moved hid hfiles hf hdirectories _ => exact .of_modify hid hfiles hf hdirectories
  | opened hopened hdirectories =>
    obtain ⟨path, flags, v, w, offset, -, -, -, hfiles⟩ := hopened
    exact .of_since (hfiles ▸ Pool.since_insert _) (hdirectories ▸ .refl _ _)

/-- Only files in the scope of an operation are moved, and nothing else becomes of files than that
they come and go. -/
theorem Touches.steady (h : Touches S scope sh sh') : Steady scope.moves sh sh' := by
  induction h with
  | refl => exact .refl sh
  | tail _ htouch ih => exact ih.trans htouch.steady

end Shared

end UnixCore
