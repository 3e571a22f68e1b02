import UnixCore.Proofs.Sharing.FileSystem
import UnixCore.Ram.Services

/-! The file system in memory is one: its reads and writes are those of regular files, and only what
is asked to change a name or a file does so. -/

namespace UnixCore

open Action

/-! ### One file -/

namespace RamFile

variable {f f' : RamFile} {offset n : UInt64} {count : Nat} {bytes : List UInt8}

theorem readAt_prefix (h : f.readAt offset count = .ok bytes) :
    bytes <+: f.data.toList.drop offset.toNat := by
  unfold readAt at h
  cases hfault : fault f.readError with
  | error e =>
    rw [hfault] at h
    cases h
  | ok _ =>
    rw [hfault] at h
    simp only [bind, Except.bind] at h
    split at h
    · cases h
      exact List.nil_prefix
    · cases h
      rw [Array.toList_extract, List.extract_eq_take_drop]
      by_cases hstart : offset.toNat ≤ f.data.size
      · rw [Nat.min_eq_left hstart]
        exact List.take_prefix _ _
      · rw [Nat.min_eq_right (by omega), List.drop_eq_nil_of_le (by simp), List.take_nil]
        exact List.nil_prefix

theorem toList_splice (data : Array UInt8) (start : Nat) (bytes : List UInt8) :
    ∃ zeros, zeros = List.replicate (start + bytes.length - data.toList.length) (0 : UInt8) ∧
      (splice data start bytes).toList = (data.toList ++ zeros).take start ++
        (bytes ++ (data.toList ++ zeros).drop (start + bytes.length)) := by
  refine ⟨_, rfl, ?_⟩
  simp only [splice, Array.toList_append, Array.toList_extract, Array.toList_replicate,
    Array.length_toList, List.extract_eq_take_drop, List.drop_zero, Nat.sub_zero,
    List.append_assoc]
  rw [List.take_of_length_le (l := List.drop _ _) (by simp)]

theorem written_splice (data : Array UInt8) (start : Nat) (bytes : List UInt8) :
    Written start bytes data.toList (splice data start bytes).toList := by
  obtain ⟨zeros, hzeros, hnew⟩ := toList_splice data start bytes
  have hlength : zeros.length = start + bytes.length - data.toList.length := by
    rw [hzeros, List.length_replicate]
  have hsize : (data.toList ++ zeros).length = data.toList.length + zeros.length :=
    List.length_append
  have htake : ((data.toList ++ zeros).take start).length = start :=
    List.length_take_of_le (by omega)
  have hkept (i : Nat) (hi : i < data.toList.length) :
      (data.toList ++ zeros)[i]? = data.toList[i]? := List.getElem?_append_left hi
  rw [hnew]
  refine ⟨fun i hi => ?_, fun i hstart hi => ?_, fun i hi => ?_⟩
  · rw [List.getElem?_append_right (by omega), htake, Nat.add_sub_cancel_left,
      List.getElem?_append_left hi]
  · rw [List.getElem?_append_left (by omega), List.getElem?_take_of_lt hstart, hkept i hi]
  · rw [List.getElem?_append_right (by omega), htake, List.getElem?_append_right (by omega),
      List.getElem?_drop, show start + bytes.length + (i - start - bytes.length) = i by omega]
    by_cases hdata : i < data.toList.length
    · exact hkept i hdata
    · rw [List.getElem?_eq_none (by omega), List.getElem?_eq_none (by omega)]

theorem length_splice (data : Array UInt8) (start : Nat) (bytes : List UInt8) :
    (splice data start bytes).toList.length =
      max data.toList.length (start + bytes.length) := by
  obtain ⟨zeros, hzeros, hnew⟩ := toList_splice data start bytes
  rw [hnew, List.length_append, List.length_append, List.length_take, List.length_drop,
    List.length_append, hzeros, List.length_replicate]
  omega

theorem getElem?_splice_gap {data : Array UInt8} {start i : Nat} (bytes : List UInt8)
    (hdata : data.toList.length ≤ i) (hi : i < start) :
    (splice data start bytes).toList[i]? = some 0 := by
  obtain ⟨zeros, hzeros, hnew⟩ := toList_splice data start bytes
  have hlength : zeros.length = start + bytes.length - data.toList.length := by
    rw [hzeros, List.length_replicate]
  rw [hnew, List.getElem?_append_left (by rw [List.length_take, List.length_append]; omega),
    List.getElem?_take_of_lt hi, List.getElem?_append_right hdata, hzeros,
    List.getElem?_replicate_of_lt (by omega)]

theorem atMost_le (limit : Option Nat) (n : Nat) : atMost limit n ≤ n := by
  cases limit with
  | none => exact Nat.le_refl n
  | some limit => exact Nat.min_le_left n limit

theorem length_le_of_readAt (h : f.readAt offset count = .ok bytes) : bytes.length ≤ count := by
  unfold readAt at h
  cases hfault : fault f.readError with
  | error e =>
    rw [hfault] at h
    cases h
  | ok _ =>
    rw [hfault] at h
    simp only [bind, Except.bind] at h
    split at h
    case isTrue =>
      cases h
      exact Nat.zero_le count
    case isFalse =>
      cases h
      have hle := atMost_le f.readLimit
        (min count (f.data.size - min offset.toNat f.data.size))
      rw [Array.length_toList, Array.size_extract]
      omega

/-- A write that makes no false claim takes a first part of the bytes and stores it, within the
limit. -/
theorem writeAt_ok {limit : Option Nat} (h : f.writeAt limit offset bytes = .ok (n, f'))
    (hclaim : f.writeClaim = none) :
    ∃ m ≤ bytes.length, n = .ofNat m ∧ f' = { f with data := f'.data } ∧
      (f.kind ≠ .charDevice → f'.data = splice f.data offset.toNat (bytes.take m) ∧
        ∀ l ∈ limit, offset.toNat + m ≤ l) := by
  unfold writeAt at h
  cases hfault : fault f.writeError with
  | error e =>
    rw [hfault] at h
    cases h
  | ok _ =>
    have hle := atMost_le f.writeLimit bytes.length
    rw [hfault] at h
    simp only [bind, Except.bind, hclaim, List.length_take_of_le hle] at h
    refine ⟨_, hle, ?_⟩
    split at h
    case isTrue hdevice =>
      cases h
      exact ⟨rfl, by rw [hclaim], fun hnot => (hnot hdevice).elim⟩
    case isFalse =>
      split at h
      case isTrue => cases h
      case isFalse hlimit =>
        cases h
        refine ⟨rfl, by rw [hclaim], fun _ => ⟨rfl, fun l hl => ?_⟩⟩
        rw [Option.mem_def] at hl
        simpa [hl] using hlimit

end RamFile

/-! ### The file system -/

namespace Ram

variable {r : Ram} {v : Vnode}

theorem ensures_ask {α : Type} {question : RamFile → Except Errno α} :
    (ask v question).Ensures r
      (fun a r' => r' = r ∧ ∃ f, r.files[v.resource]? = some f ∧ question f = .ok a)
      fun _ r' => r' = r := by
  rw [ask, ensures_bind, ensures_get]
  cases hfile : r.files[v.resource]? with
  | none => exact rfl
  | some f => exact ensures_ofExcept.2 ⟨fun a ha => ⟨rfl, f, rfl, ha⟩, fun _ _ => rfl⟩

theorem ensures_writeAt {offset : UInt64} {bytes : List UInt8} :
    (writeAt v offset bytes).Ensures r
      (fun n r' => ∃ f f', r.files[v.resource]? = some f ∧
        f.writeAt r.rules.sizeLimit offset bytes = .ok (n, f') ∧
        r' = r.modifyFile v.resource fun _ => f')
      fun _ r' => r' = r := by
  simp only [writeAt, ensures_bind, ensures_get]
  refine ensures_ask.mono ?_ fun _ _ h => h
  rintro ⟨n, f'⟩ _ ⟨rfl, f, hfile, hwrite⟩
  exact ⟨f, f', hfile, hwrite, rfl⟩

theorem sparingAt (r : Ram) : services.SparingAt r := by
  intro v offset count bytes r' hread
  obtain ⟨-, f, -, hbytes⟩ := ensures_ask.of_ok hread
  exact RamFile.length_le_of_readAt hbytes

theorem honestAt_of_noClaims (h : ∀ f ∈ r.files, f.writeClaim = none) :
    services.HonestAt r := by
  intro v offset bytes n r' hwrite
  obtain ⟨f, f', hfile, hok, -⟩ := ensures_writeAt.of_ok hwrite
  obtain ⟨m, hm, rfl, -⟩ := RamFile.writeAt_ok hok (h f (Array.mem_of_getElem? hfile))
  exact Nat.le_trans (UInt64.toNat_ofNat' ▸ Nat.mod_le _ _) hm

/-- The contents of the file behind a number, if it is a regular one that makes no false claims. -/
def regular (number : Nat) (r : Ram) : Option (List UInt8) :=
  r.files[number]?.bind fun f =>
    if f.kind = .regular ∧ f.writeClaim = none then some f.data.toList else none

theorem regular_eq_some {number : Nat} {c : List UInt8} :
    regular number r = some c ↔ ∃ f, r.files[number]? = some f ∧ f.kind = .regular ∧
      f.writeClaim = none ∧ f.data.toList = c := by
  simp [regular, Option.bind_eq_some_iff, and_assoc]

theorem getElem?_modifyFile {number : Nat} {f : RamFile} {g : RamFile → RamFile}
    (h : r.files[number]? = some f) : (r.modifyFile number g).files[number]? = some (g f) := by
  rw [modifyFile, Array.getElem?_modify, if_pos rfl, h, Option.map_some]

/-- A write to a regular file stores a first part of the bytes, within the limit on files. -/
theorem ensures_writeAt_regular {offset : UInt64} {bytes : List UInt8} {f : RamFile}
    (hfile : r.files[v.resource]? = some f) (hkind : f.kind = .regular)
    (hclaim : f.writeClaim = none) (hlength : bytes.length < UInt64.size) :
    (writeAt v offset bytes).Ensures r
      (fun n r' => n.toNat ≤ bytes.length ∧ (∀ l ∈ r.rules.sizeLimit, offset.toNat + n.toNat ≤ l) ∧
        r' = r.modifyFile v.resource fun _ =>
          { f with data := RamFile.splice f.data offset.toNat (bytes.take n.toNat) })
      fun _ r' => r' = r := by
  refine ensures_writeAt.mono ?_ fun _ _ h => h
  rintro n _ ⟨f₁, f', hfile', hwrite, rfl⟩
  cases hfile.symm.trans hfile'
  obtain ⟨m, hm, rfl, hsame, hdata⟩ := RamFile.writeAt_ok hwrite hclaim
  obtain ⟨hdata, hlimit⟩ := hdata (by rw [hkind]; exact nofun)
  rw [UInt64.toNat_ofNat_of_lt' (Nat.lt_of_le_of_lt hm hlength)]
  rw [hsame, hdata]
  exact ⟨hm, hlimit, rfl⟩

theorem services_regular (v : Vnode) : services.Regular v (regular v.resource) := by
  refine ⟨fun offset count hcontent => ?_, fun offset bytes hlength hcontent => ?_⟩
  · obtain ⟨f, hfile, hkind, hclaim, rfl⟩ := regular_eq_some.1 hcontent
    refine ensures_ask.mono ?_ fun _ _ h => h ▸ hcontent
    rintro bytes _ ⟨rfl, f', hfile', hread⟩
    cases hfile.symm.trans hfile'
    exact ⟨RamFile.readAt_prefix hread, hcontent⟩
  · obtain ⟨f, hfile, hkind, hclaim, rfl⟩ := regular_eq_some.1 hcontent
    refine (ensures_writeAt_regular hfile hkind hclaim hlength).mono ?_ fun _ _ h => h ▸ hcontent
    rintro n _ ⟨hn, -, rfl⟩
    exact ⟨hn, _, regular_eq_some.2 ⟨_, getElem?_modifyFile hfile, hkind, hclaim, rfl⟩,
      RamFile.written_splice f.data offset.toNat (bytes.take n.toNat)⟩

/-- The contents of a regular file that makes no false claims, in a world that keeps files below
the limit of signed offsets. -/
def limited (number : Nat) (r : Ram) : Option (List UInt8) := do
  let limit ← r.rules.sizeLimit
  let c ← regular number r
  if limit < OpenFile.seekLimit ∧ c.length < OpenFile.seekLimit then some c else none

theorem limited_eq_some {number : Nat} {c : List UInt8} :
    limited number r = some c ↔ ∃ l, r.rules.sizeLimit = some l ∧ l < OpenFile.seekLimit ∧
      regular number r = some c ∧ c.length < OpenFile.seekLimit := by
  simp only [limited, bind, Option.bind_eq_some_iff, Option.ite_none_right_eq_some,
    Option.some.injEq]
  constructor
  · rintro ⟨l, hl, _, hc, ⟨hlimit, hlength⟩, rfl⟩
    exact ⟨l, hl, hlimit, hc, hlength⟩
  · rintro ⟨l, hl, hlimit, hc, hlength⟩
    exact ⟨l, hl, c, hc, ⟨hlimit, hlength⟩, rfl⟩

theorem services_faithful (v : Vnode) : services.Faithful v (limited v.resource) where
  read offset count hcontent := by
    obtain ⟨l, -, -, hregular, -⟩ := limited_eq_some.1 hcontent
    refine (((services_regular v).read offset count hregular).and ensures_ask).mono ?_ ?_
    · rintro bytes _ ⟨⟨hbytes, -⟩, rfl, -⟩
      exact ⟨hbytes, hcontent⟩
    · rintro e _ ⟨-, rfl⟩
      exact hcontent
  write offset bytes hlength hcontent := by
    obtain ⟨l, hl, hlimit, hregular, hbound⟩ := limited_eq_some.1 hcontent
    obtain ⟨f, hfile, hkind, hclaim, rfl⟩ := regular_eq_some.1 hregular
    refine (ensures_writeAt_regular hfile hkind hclaim hlength).mono ?_ fun _ _ h => h ▸ hcontent
    rintro n _ ⟨hn, hfits, rfl⟩
    refine ⟨hn, _, limited_eq_some.2 ⟨l, hl, hlimit, regular_eq_some.2
      ⟨_, getElem?_modifyFile hfile, hkind, hclaim, rfl⟩, ?_⟩,
      RamFile.written_splice f.data offset.toNat (bytes.take n.toNat)⟩
    have := hfits l hl
    rw [RamFile.length_splice, List.length_take_of_le hn]
    omega
  sparing offset count _ :=
    ensures_ask.mono (fun _ _ ⟨_, _, _, hread⟩ => RamFile.length_le_of_readAt hread)
      fun _ _ _ => trivial
  gap {w} c offset bytes hlength hcontent := by
    obtain ⟨l, -, -, hregular, -⟩ := limited_eq_some.1 hcontent
    obtain ⟨f, hfile, hkind, hclaim, rfl⟩ := regular_eq_some.1 hregular
    refine (ensures_writeAt_regular hfile hkind hclaim hlength).mono ?_ fun _ _ _ => trivial
    rintro n _ ⟨-, -, rfl⟩ c' hc' i hi hi'
    obtain ⟨l', -, -, hregular', -⟩ := limited_eq_some.1 hc'
    obtain ⟨f', hfile', -, -, rfl⟩ := regular_eq_some.1 hregular'
    cases (getElem?_modifyFile hfile).symm.trans hfile'
    exact RamFile.getElem?_splice_gap _ hi hi'
  bound hcontent := by
    obtain ⟨l, -, -, -, hbound⟩ := limited_eq_some.1 hcontent
    exact hbound
  seekable {w} c offset bytes hlength hcontent := by
    obtain ⟨l, -, -, hregular, -⟩ := limited_eq_some.1 hcontent
    obtain ⟨f, hfile, hkind, hclaim, rfl⟩ := regular_eq_some.1 hregular
    refine (ensures_writeAt_regular hfile hkind hclaim hlength).mono ?_ fun _ _ _ => trivial
    rintro n _ ⟨-, -, rfl⟩
    show (_ || ((w.modifyFile _ _).files[v.resource]?.any _)) = (_ || _)
    rw [getElem?_modifyFile hfile, hfile]
    rfl

/-! ### Names and contents -/

variable {r' : Ram} {path : String} {flags : OpenFlags} {n : Nat}

def view : FileView Ram := ⟨fileNumber?, fun r n => r.files[n]?.map (·.data.toList)⟩

theorem content_modifyFile (number m : Nat) (f : RamFile → RamFile) :
    view.content (r.modifyFile number f) m =
      if m = number then r.files[m]?.map fun file => (f file).data.toList
      else view.content r m := by
  show ((r.files.modify number f)[m]?).map _ = if _ then _ else (r.files[m]?).map _
  rw [Array.getElem?_modify]
  by_cases hm : m = number
  · simp [hm, Function.comp_def]
  · rw [if_neg hm, if_neg (Ne.symm hm)]

theorem kept_modifyFile (number : Nat) {f : RamFile → RamFile}
    (hf : ∀ file, (f file).data = file.data) :
    view.Kept r (r.modifyFile number f) := by
  refine ⟨rfl, fun n => ?_⟩
  rw [content_modifyFile]
  split
  case isTrue =>
    simp only [hf]
    rfl
  case isFalse => rfl

theorem lookup_filter_ne {name : String} (hname : name ≠ path) (l : List (String × Nat)) :
    (l.filter (·.1 != path)).lookup name = l.lookup name := by
  induction l with
  | nil => rfl
  | cons entry l ih =>
    by_cases hentry : entry.1 = path
    · rw [List.filter_cons_of_neg (by simp [hentry]), ih, List.lookup_cons,
        beq_false_of_ne (hentry ▸ hname)]
    · rw [List.filter_cons_of_pos (by simp [hentry]), List.lookup_cons, List.lookup_cons, ih]

theorem number_addFile (file : RamFile) (name : String) :
    (r.addFile path file).fileNumber? name =
      if name = path then some r.files.size else r.fileNumber? name := by
  rw [fileNumber?, addFile, List.lookup_cons]
  by_cases hname : name = path
  · rw [hname, beq_self_eq_true, if_pos rfl]
  · rw [beq_false_of_ne hname, if_neg hname]
    exact lookup_filter_ne hname r.directory

theorem content_addFile (file : RamFile) (m : Nat) :
    view.content (r.addFile path file) m =
      if m = r.files.size then some file.data.toList else view.content r m := by
  show ((r.files.push file)[m]?).map _ = if _ then _ else (r.files[m]?).map _
  rw [Array.getElem?_push]
  split <;> rfl

/-- A path stands for a file or, where it may, for a new one. -/
theorem ensures_resolve :
    (resolve path flags).Ensures r
      (fun n r' => r' = r ∧ r.fileNumber? path = some n ∨
        r' = r.addFile path (.ofData [] .regular) ∧ n = r.files.size ∧
          r.fileNumber? path = none ∧ flags.contains .creat = true)
      fun _ r' => r' = r := by
  rw [resolve, ensures_bind, ensures_get]
  cases hnumber : r.fileNumber? path with
  | some n =>
    dsimp only
    split
    · rfl
    · exact .inl ⟨rfl, rfl⟩
  | none =>
    dsimp only
    split
    case isTrue hcreat => exact .inr ⟨rfl, rfl, rfl, hcreat⟩
    case isFalse => rfl

theorem kept_handOut (number : Nat) : view.Kept r (r.handOut number).2 :=
  kept_modifyFile number fun _ => rfl

theorem cleared_handOut (h : flags.contains .trunc = false) :
    view.Cleared flags n r (r.handOut n).2 := by
  have hkept := kept_handOut (r := r) n
  exact ⟨⟨hkept.1, fun m _ => hkept.2 m⟩, by rw [h]; exact hkept.2 n⟩

theorem cleared_handOut_emptied (h : flags.contains .trunc = true) :
    view.Cleared flags n r ((r.modifyFile n fun f => { f with data := #[] }).handOut n).2 := by
  have hemptied : view.Cleared flags n r (r.modifyFile n fun f => { f with data := #[] }) := by
    refine ⟨⟨rfl, fun m hm => ?_⟩, ?_⟩
    · rw [content_modifyFile, if_neg hm]
    · rw [content_modifyFile, if_pos rfl, if_pos h]
      show _ = ((r.files[n]?).map _).map _
      rw [Option.map_map]
      rfl
  exact hemptied.trans_kept (kept_handOut n)

theorem prepared_addFile (hnone : r.fileNumber? path = none)
    (hcreat : flags.contains .creat = true)
    (h : view.Cleared flags r.files.size (r.addFile path (.ofData [] .regular)) r') :
    view.Prepared path flags r.files.size r r' := by
  refine .created hnone hcreat (fun name => ?_) (fun m hm => ?_) ?_ ?_
  · rw [h.others.1]
    exact number_addFile (.ofData [] .regular) name
  · rw [h.others.2 m hm, content_addFile, if_neg hm]
  · simp [view]
  · rw [h.content, content_addFile, if_pos rfl]
    split <;> rfl

theorem ensures_openPath :
    (openPath path flags).Ensures r (fun v r' => view.Prepared path flags v.resource r r')
      fun _ r' => view.Kept r r' := by
  simp only [openPath, ensures_bind, ensures_modify]
  have hcounted : view.Kept r { r with opens := r.opens + 1 } := ⟨rfl, fun _ => rfl⟩
  refine ensures_resolve.mono (fun n r' hresolved => ?_) ?_
  · have hprepared {r'' : Ram} (hcleared : view.Cleared flags n r' r'') :
        view.Prepared path flags n r r'' := by
      rcases hresolved with ⟨rfl, hnumber⟩ | ⟨rfl, rfl, hnone, hcreat⟩
      · exact FileView.Prepared.of_kept (.found hnumber hcleared) hcounted
      · exact (prepared_addFile hnone hcreat hcleared).of_kept hcounted
    rw [ensures_get]
    split
    case h_1 e herror =>
      -- A file that was just made refuses no open.
      rcases hresolved with ⟨rfl, hnumber⟩ | ⟨rfl, rfl, hnone, hcreat⟩
      · exact hcounted
      · rw [addFile, Array.getElem?_push_size] at herror
        cases herror
    case h_2 =>
      split
      case isTrue htrunc => exact hprepared (cleared_handOut_emptied htrunc)
      case isFalse htrunc => exact hprepared (cleared_handOut (Bool.of_not_eq_true htrunc))
  · rintro e _ rfl
    exact hcounted

theorem kept_of_called {w w' : Ram} (h : services.Called .nothing w w') : view.Kept w w' := by
  cases h with
  | openPath hopens _ => exact hopens.elim
  | release v => exact kept_modifyFile _ fun _ => rfl
  | createSpace hresult =>
    refine Ensures.result (P := view.Kept w) ?_ hresult
    show createSpace.Ensures w _ _
    rw [createSpace, ensures_bind, ensures_get]
    cases w.createError with
    | none => exact ⟨rfl, fun _ => rfl⟩
    | some e => exact .refl _ _
  | @duplicateSpace space r _ hresult =>
    refine Ensures.result (P := view.Kept w) ?_ hresult
    show (duplicateSpace space).Ensures w _ _
    rw [duplicateSpace, ensures_bind, ensures_get]
    cases (w.account space.account).duplicateError with
    | none => exact ⟨rfl, fun _ => rfl⟩
    | some e => exact .refl _ _
  | activate space => exact ⟨rfl, fun _ => rfl⟩
  | @defineStack space space' r _ hresult =>
    refine Ensures.result (P := fun s => view.Kept w s.2) ?_ hresult
    show defineStack.Ensures (space, w) _ _
    rw [defineStack, ensures_bind, ensures_get]
    dsimp only
    cases w.stackError with
    | none => exact FileView.Kept.refl _ _
    | some e => exact FileView.Kept.refl _ _
  | destroySpace space => exact ⟨rfl, fun _ => rfl⟩
  | @load v space space' r _ hresult =>
    refine Ensures.result (P := fun s => view.Kept w s.2) ?_ hresult
    show (load v).Ensures (space, w) _ _
    simp only [load, ensures_bind, ensures_get, ensures_onPart]
    refine ensures_ask.mono ?_ fun _ _ h => h ▸ .refl _ _
    rintro head w ⟨rfl, -⟩
    split
    case isFalse => exact FileView.Kept.refl _ _
    case isTrue =>
      cases w.rules.imageAddress <;> exact FileView.Kept.refl _ _

theorem services_shows : services.Shows view where
  openPath _ _ _ hplain :=
    ensures_openPath.mono (fun _ _ h => h.of_plain hplain) fun _ _ h => h
  readAt _ _ _ _ := ensures_ask.mono (fun _ _ h => h.1 ▸ .refl _ _) fun _ _ h => h ▸ .refl _ _
  writeAt v _ _ w := by
    refine ensures_writeAt.mono ?_ ?_
    · rintro n _ ⟨f, f', -, -, rfl⟩
      refine ⟨rfl, fun n hn => ?_⟩
      rw [content_modifyFile, if_neg hn]
    · rintro e _ rfl
      exact ⟨rfl, fun _ _ => rfl⟩
  stat _ _ := ensures_ask.mono (fun _ _ h => h.1 ▸ .refl _ _) fun _ _ h => h ▸ .refl _ _
  others := kept_of_called

theorem services_prepares : services.Prepares view where
  toShows := services_shows
  prepares _ _ _ := ensures_openPath

end Ram

end UnixCore
