import UnixCore.Proofs.Ram.Files
import UnixCore.Proofs.Sharing.Aliases

/-! One cursor for all descriptors of an open file. Whoever reads or writes through whichever of
them, each transfer begins where the transfers before it have left the cursor. On a regular file
that nobody else changes, writes therefore leave their bytes in one piece and reads get consecutive
pieces. -/

namespace UnixCore

open Action

variable {W : Type} {S : Services W}

/-! ### The cursor -/

namespace Transfer

/-- The bytes that were transferred: none by a call that fails. -/
def count : Transfer → Nat
  | read _ (.ok bytes) => bytes.length
  | write _ (.ok count) => count.toNat
  | _ => 0

def total (ts : List Transfer) : Nat := (ts.map count).sum

theorem total_append_singleton (ts : List Transfer) (t : Transfer) :
    total (ts ++ [t]) = total ts + t.count := by
  simp [total]

end Transfer

/-- Transfers of a file, and between them what anybody does that does not move the cursor of the
file and that `idle` allows. -/
inductive Transfers (S : Services W) (id : FileId) (idle : W → W → Prop) (s₀ : System W) :
    List Transfer → System W → Prop
  | start : Transfers S id idle s₀ [] s₀
  | transfer {ts : List Transfer} {s : System W} {p : ProcessId} {fd : Nat} {t : Transfer}
    {k : Kernel W} : Transfers S id idle s₀ ts s →
    (s.kernel.process p).descriptors.get? fd = some id → t.Through S p fd s.kernel k →
    Transfers S id idle s₀ (ts ++ [t]) { s with kernel := k }
  | other {ts : List Transfer} {s s' : System W} {turn : Turn} : Transfers S id idle s₀ ts s →
    Takes S s turn s' → ¬ (turn.scope s.kernel).moves id →
    idle s.kernel.shared.world s'.kernel.shared.world → Transfers S id idle s₀ ts s'

theorem Transfers.mono {id : FileId} {idle idle' : W → W → Prop} {s₀ s : System W}
    {ts : List Transfer} (h : Transfers S id idle s₀ ts s)
    (hidle : ∀ w w', idle w w' → idle' w w') :
    Transfers S id idle' s₀ ts s := by
  induction h with
  | start => exact .start
  | transfer _ hid hthrough ih => exact ih.transfer hid hthrough
  | other _ htakes hnot hworld ih => exact ih.other htakes hnot (hidle _ _ hworld)

theorem OpenFile.offset_advance {f : OpenFile} {n : Nat} (h : f.offset.toNat + n < UInt64.size) :
    f.advance n = { f with offset := .ofNat (f.offset.toNat + n) } := by
  have hmin : min (f.offset.toNat + n) (UInt64.size - 1) = f.offset.toNat + n := by omega
  rw [advance, hmin]

/-- A file that has been moved on by `moved` bytes, if it is still open. -/
structure Shared.Stands (id : FileId) (file : OpenFile) (moved : Nat) (sh : Shared W) : Prop where
  lt_next : id < sh.files.next
  eq : ∀ f, sh.files.get? id = some f →
    f = { file with offset := .ofNat (file.offset.toNat + moved) }

namespace Shared.Stands

variable {id : FileId} {file : OpenFile} {n moved : Nat} {sh sh' : Shared W} {t : Transfer}

theorem zero (h : sh.files.get? id = some file) : Stands id file 0 sh := by
  refine ⟨Pool.lt_next_of_get? h, fun f hf => ?_⟩
  cases h.symm.trans hf
  rw [Nat.add_zero, UInt64.ofNat_toNat]

theorem steady {moves : FileId → Prop} (h : Stands id file moved sh) (hsteady : Steady moves sh sh')
    (hnot : ¬ moves id) : Stands id file moved sh' :=
  ⟨Nat.lt_of_lt_of_le h.lt_next hsteady.files.next_le,
    fun f hf => h.eq f (hsteady.cursors id f h.lt_next hnot hf)⟩

/-- The file as a transfer finds it, and the world that the transfer leaves. -/
theorem read_ok {count : Nat} {bytes : List UInt8} (h : Stands id file moved sh)
    (ht : Transfer.OnFile S id sh (.read count (.ok bytes)) sh') :
    file.mode.canRead = true ∧ S.readAt file.vnode (.ofNat (file.offset.toNat + moved)) count
      sh.world = .ok bytes sh'.world := by
  cases ht with | read hresult =>
  obtain ⟨f, w, hf, hmode, hread, rfl⟩ := ensures_read_eq.of_result hresult
  cases h.eq f hf
  exact ⟨hmode, hread⟩

theorem write_ok {bytes : List UInt8} {count : UInt64} (h : Stands id file moved sh)
    (ht : Transfer.OnFile S id sh (.write bytes (.ok count)) sh') :
    file.mode.canWrite = true ∧ S.writeAt file.vnode (.ofNat (file.offset.toNat + moved)) bytes
      sh.world = .ok count sh'.world := by
  cases ht with | write hresult =>
  obtain ⟨f, w, hf, hmode, hwrite, rfl⟩ := ensures_write_eq.of_result hresult
  cases h.eq f hf
  exact ⟨hmode, hwrite⟩

/-- A read that fails has failed at the vnode, or has not come so far. -/
theorem read_error {count : Nat} {e : Errno} (h : Stands id file moved sh)
    (ht : Transfer.OnFile S id sh (.read count (.error e)) sh') :
    sh'.world = sh.world ∨ S.readAt file.vnode (.ofNat (file.offset.toNat + moved)) count
      sh.world = .error e sh'.world := by
  cases ht with | read hresult =>
  rcases ensures_read_eq.of_result hresult with ⟨-, rfl, -⟩ | ⟨f, w, hf, -, hread, rfl⟩
  · exact .inl rfl
  · cases h.eq f hf
    exact .inr hread

theorem write_error {bytes : List UInt8} {e : Errno} (h : Stands id file moved sh)
    (ht : Transfer.OnFile S id sh (.write bytes (.error e)) sh') :
    sh'.world = sh.world ∨ S.writeAt file.vnode (.ofNat (file.offset.toNat + moved)) bytes
      sh.world = .error e sh'.world := by
  cases ht with | write hresult =>
  rcases ensures_write_eq.of_result hresult with ⟨-, rfl, -⟩ | ⟨f, w, hf, -, hwrite, rfl⟩
  · exact .inl rfl
  · cases h.eq f hf
    exact .inr hwrite

theorem advance (h : Stands id file moved sh) {w : W}
    (hbound : file.offset.toNat + (moved + n) < UInt64.size) :
    Stands id file (moved + n)
      { sh with files := sh.files.modify id (·.advance n), world := w } := by
  refine ⟨Nat.lt_of_lt_of_eq h.lt_next (Pool.next_modify id _).symm, fun f hf => ?_⟩
  rw [Pool.get?, Pool.held?_modify, if_pos rfl, Option.map_map] at hf
  obtain ⟨held, hheld, rfl⟩ := Option.map_eq_some_iff.1 hf
  have hvalue := h.eq held.value (Option.map_eq_some_iff.2 ⟨held, hheld, rfl⟩)
  have hoffset : held.value.offset.toNat = file.offset.toNat + moved := by
    rw [hvalue]
    exact UInt64.toNat_ofNat_of_lt' (by omega)
  show held.value.advance n = _
  rw [OpenFile.offset_advance (by omega), hoffset, hvalue, Nat.add_assoc]

theorem transfer (h : Stands id file moved sh) (ht : t.OnFile S id sh sh')
    (hbound : file.offset.toNat + (moved + t.count) < UInt64.size) :
    Stands id file (moved + t.count) sh' := by
  cases ht with
  | @read count r _ hresult =>
    cases r with
    | ok bytes =>
      obtain ⟨f, w, -, -, -, rfl⟩ := ensures_read_eq.of_result hresult
      exact h.advance hbound
    | error e =>
      rcases ensures_read_eq.of_result hresult with ⟨-, rfl, -⟩ | ⟨f, w, -, -, -, rfl⟩
      · exact h
      · exact ⟨h.lt_next, h.eq⟩
  | @write bytes r _ hresult =>
    cases r with
    | ok count =>
      obtain ⟨f, w, -, -, -, rfl⟩ := ensures_write_eq.of_result hresult
      exact h.advance hbound
    | error e =>
      rcases ensures_write_eq.of_result hresult with ⟨-, rfl, -⟩ | ⟨f, w, -, -, -, rfl⟩
      · exact h
      · exact ⟨h.lt_next, h.eq⟩

theorem setEvents (h : Stands id file moved sh) (events : Array Event) :
    Stands id file moved { sh with events } :=
  ⟨h.lt_next, h.eq⟩

end Shared.Stands

/-- The cursor stands where all transfers so far have left it. -/
theorem Transfers.stands {id : FileId} {file : OpenFile} {idle : W → W → Prop} {s₀ s : System W}
    {ts : List Transfer} (h : Transfers S id idle s₀ ts s)
    (hfile : s₀.kernel.shared.files.get? id = some file)
    (hbound : file.offset.toNat + Transfer.total ts < UInt64.size) :
    s.kernel.shared.Stands id file (Transfer.total ts) := by
  induction h with
  | start => exact .zero hfile
  | @transfer ts s p fd t k _ hid hthrough ih =>
    rw [Transfer.total_append_singleton] at hbound ⊢
    obtain ⟨sh, honFile, events, rfl⟩ := hthrough.onFile hid
    exact ((ih (by omega)).transfer honFile hbound).setEvents events
  | other _ htakes hnot _ ih => exact (ih hbound).steady htakes.touches.steady hnot

/-! ### Regular files -/

namespace Transfer

def IsRead : Transfer → Prop
  | read _ _ => True
  | write _ _ => False

/-- A write of a buffer that fits the address space. -/
def IsWrite : Transfer → Prop
  | read _ _ => False
  | write bytes _ => bytes.length < UInt64.size

/-- The bytes that a read gives. -/
def delivered : Transfer → List UInt8
  | read _ (.ok bytes) => bytes
  | _ => []

/-- The bytes that a write takes. -/
def accepted : Transfer → List UInt8
  | write bytes (.ok count) => bytes.take count.toNat
  | _ => []

theorem length_delivered {ts : List Transfer} (hreads : ∀ t ∈ ts, t.IsRead) :
    (ts.flatMap delivered).length = total ts := by
  rw [List.length_flatMap, total]
  congr 1
  refine List.map_congr_left fun t ht => ?_
  have hread := hreads t ht
  cases t with
  | read count r => cases r <;> rfl
  | write bytes r => exact hread.elim

end Transfer

section Regular

variable {content : W → Option (List UInt8)} {file : OpenFile} {id : FileId} {moved : Nat}
  {sh sh' : Shared W} {t : Transfer} {c : List UInt8}

theorem Shared.Stands.delivers (h : Stands id file moved sh) (ht : t.OnFile S id sh sh')
    (hregular : S.Regular file.vnode content) (hread : t.IsRead)
    (hbound : file.offset.toNat + moved < UInt64.size) (hcontent : content sh.world = some c) :
    t.delivered <+: c.drop (file.offset.toNat + moved) ∧ content sh'.world = some c := by
  have hoffset := UInt64.toNat_ofNat_of_lt' hbound
  cases t with
  | read count r =>
    have hlaw := hregular.read (.ofNat (file.offset.toNat + moved)) count hcontent
    cases r with
    | ok bytes =>
      rw [hoffset] at hlaw
      exact hlaw.of_ok (h.read_ok ht).2
    | error e =>
      refine ⟨List.nil_prefix, ?_⟩
      rcases h.read_error ht with hworld | herror
      · rwa [hworld]
      · exact hlaw.of_error herror
  | write bytes r => exact hread.elim

theorem Shared.Stands.accepts (h : Stands id file moved sh) (ht : t.OnFile S id sh sh')
    (hregular : S.Regular file.vnode content) (hwrite : t.IsWrite)
    (hbound : file.offset.toNat + moved < UInt64.size) (hcontent : content sh.world = some c) :
    t.accepted.length = t.count ∧ ∃ c', content sh'.world = some c' ∧
      Written (file.offset.toNat + moved) t.accepted c c' := by
  have hoffset := UInt64.toNat_ofNat_of_lt' hbound
  cases t with
  | read count r => exact hwrite.elim
  | write bytes r =>
    have hlaw := hregular.write (.ofNat (file.offset.toNat + moved)) bytes hwrite hcontent
    rw [hoffset] at hlaw
    cases r with
    | ok count =>
      obtain ⟨hcount, c', hcontent', hwritten⟩ := hlaw.of_ok (h.write_ok ht).2
      exact ⟨List.length_take_of_le hcount, c', hcontent', hwritten⟩
    | error e =>
      refine ⟨rfl, c, ?_, .nil _ _⟩
      rcases h.write_error ht with hworld | herror
      · rwa [hworld]
      · exact hlaw.of_error herror

variable {s₀ s : System W} {ts : List Transfer}

theorem Transfers.delivered (hregular : S.Regular file.vnode content)
    (h : Transfers S id (fun w w' => content w' = content w) s₀ ts s)
    (hfile : s₀.kernel.shared.files.get? id = some file)
    (hcontent : content s₀.kernel.shared.world = some c) (hreads : ∀ t ∈ ts, t.IsRead)
    (hbound : file.offset.toNat + Transfer.total ts < UInt64.size) :
    ts.flatMap Transfer.delivered <+: c.drop file.offset.toNat ∧
      content s.kernel.shared.world = some c := by
  induction h with
  | start => exact ⟨List.nil_prefix, hcontent⟩
  | @transfer ts s p fd t k hts hid hthrough ih =>
    rw [Transfer.total_append_singleton] at hbound
    have hreads' : ∀ t ∈ ts, t.IsRead := fun t ht => hreads t (List.mem_append_left _ ht)
    obtain ⟨⟨rest, hrest⟩, hkept⟩ := ih hreads' (by omega)
    obtain ⟨sh, honFile, events, rfl⟩ := hthrough.onFile hid
    obtain ⟨hpiece, hkept'⟩ := (hts.stands hfile (by omega)).delivers honFile hregular
      (hreads t (by simp)) (by omega) hkept
    refine ⟨?_, hkept'⟩
    -- What is left behind the pieces so far is what the next piece begins.
    have hdrop : c.drop (file.offset.toNat + Transfer.total ts) = rest := by
      rw [← List.drop_drop, ← hrest, ← Transfer.length_delivered hreads', List.drop_left]
    rw [hdrop] at hpiece
    rw [List.flatMap_append, List.flatMap_singleton, ← hrest]
    exact List.prefix_append_right_inj _ |>.2 hpiece
  | other _ _ _ hidle ih =>
    obtain ⟨hpieces, hkept⟩ := ih hreads hbound
    exact ⟨hpieces, hidle.trans hkept⟩

theorem Transfers.accepted (hregular : S.Regular file.vnode content)
    (h : Transfers S id (fun w w' => content w' = content w) s₀ ts s)
    (hfile : s₀.kernel.shared.files.get? id = some file)
    (hcontent : content s₀.kernel.shared.world = some c) (hwrites : ∀ t ∈ ts, t.IsWrite)
    (hbound : file.offset.toNat + Transfer.total ts < UInt64.size) :
    (ts.flatMap Transfer.accepted).length = Transfer.total ts ∧
      ∃ c', content s.kernel.shared.world = some c' ∧
        Written file.offset.toNat (ts.flatMap Transfer.accepted) c c' := by
  induction h with
  | start => exact ⟨rfl, c, hcontent, .nil _ _⟩
  | @transfer ts s p fd t k hts hid hthrough ih =>
    rw [Transfer.total_append_singleton] at hbound ⊢
    have hwrites' : ∀ t ∈ ts, t.IsWrite := fun t ht => hwrites t (List.mem_append_left _ ht)
    obtain ⟨hlength, c₁, hcontent₁, hwritten⟩ := ih hwrites' (by omega)
    obtain ⟨sh, honFile, events, rfl⟩ := hthrough.onFile hid
    obtain ⟨hcount, c₂, hcontent₂, hpiece⟩ := (hts.stands hfile (by omega)).accepts honFile hregular
      (hwrites t (by simp)) (by omega) hcontent₁
    rw [List.flatMap_append, List.flatMap_singleton, List.length_append, hlength, hcount]
    rw [← hlength] at hpiece
    exact ⟨rfl, c₂, hcontent₂, hwritten.append hpiece⟩
  | other _ _ _ hidle ih =>
    obtain ⟨hlength, c', hcontent', hwritten⟩ := ih hwrites hbound
    exact ⟨hlength, c', hidle.trans hcontent', hwritten⟩

end Regular

/-- All descriptors of a file have one cursor: where the file stands, where the next transfer
begins, and that it does not matter which of the descriptors the next transfers go through. -/
structure OneCursor (S : Services W) (id : FileId) (file : OpenFile) (moved : Nat) (k : Kernel W) :
    Prop where
  position : ∀ f, k.shared.files.get? id = some f →
    f = { file with offset := .ofNat (file.offset.toNat + moved) }
  read : ∀ p fd count bytes k', (k.process p).descriptors.get? fd = some id →
    Transfer.Through S p fd k (.read count (.ok bytes)) k' →
    S.readAt file.vnode (.ofNat (file.offset.toNat + moved)) count k.shared.world =
      .ok bytes k'.shared.world
  write : ∀ p fd bytes count k', (k.process p).descriptors.get? fd = some id →
    Transfer.Through S p fd k (.write bytes (.ok count)) k' →
    S.writeAt file.vnode (.ofNat (file.offset.toNat + moved)) bytes k.shared.world =
      .ok count k'.shared.world
  aliases : ∀ ts k', Transfer.InTurn S id k ts k' →
    ∀ ts', ts'.map Prod.snd = ts.map Prod.snd →
      (∀ c ∈ ts', (k.process c.1.1).descriptors.get? c.1.2 = some id) →
      ∃ k'', Transfer.InTurn S id k ts' k'' ∧ k'.SameButLog k''

theorem Shared.Stands.oneCursor {id : FileId} {file : OpenFile} {moved : Nat} {k : Kernel W}
    (h : k.shared.Stands id file moved) : OneCursor S id file moved k := by
  refine ⟨h.eq, fun p fd count bytes k' hid hthrough => ?_,
    fun p fd bytes count k' hid hthrough => ?_,
    fun ts k' hturns ts' hcalls hids => hturns.alias (.refl k) hcalls hids⟩
  · obtain ⟨sh, honFile, events, rfl⟩ := hthrough.onFile hid
    exact (h.read_ok honFile).2
  · obtain ⟨sh, honFile, events, rfl⟩ := hthrough.onFile hid
    exact (h.write_ok honFile).2

/-- Whatever descriptors of an open file transfers go through, and whatever happens between them as
long as nobody seeks, each begins at the first cursor plus the bytes that were transferred before
it. On a regular file that nobody else changes, writes leave what they took in one piece, and reads
give consecutive pieces. -/
theorem one_cursor_for_all_descriptors {s₀ s : System W} {id : FileId} {file : OpenFile}
    {idle : W → W → Prop} {ts : List Transfer}
    (hfile : s₀.kernel.shared.files.get? id = some file) (h : Transfers S id idle s₀ ts s)
    (hbound : file.offset.toNat + Transfer.total ts < UInt64.size) :
    OneCursor S id file (Transfer.total ts) s.kernel ∧
      ∀ content c, S.Regular file.vnode content →
        (∀ w w', idle w w' → content w' = content w) →
        content s₀.kernel.shared.world = some c →
        ((∀ t ∈ ts, t.IsWrite) → ∃ c', content s.kernel.shared.world = some c' ∧
          (ts.flatMap Transfer.accepted).length = Transfer.total ts ∧
          Written file.offset.toNat (ts.flatMap Transfer.accepted) c c') ∧
        ((∀ t ∈ ts, t.IsRead) → content s.kernel.shared.world = some c ∧
          ts.flatMap Transfer.delivered <+: c.drop file.offset.toNat) := by
  refine ⟨(h.stands hfile hbound).oneCursor, fun content c hregular hidle hcontent => ?_⟩
  have hkept := h.mono hidle
  refine ⟨fun hwrites => ?_, fun hreads => ?_⟩
  · obtain ⟨hlength, c', hcontent', hwritten⟩ :=
      hkept.accepted hregular hfile hcontent hwrites hbound
    exact ⟨c', hcontent', hlength, hwritten⟩
  · exact (hkept.delivered hregular hfile hcontent hreads hbound).symm

/-- The first process has opened a program file for reading and writing, file 3, as descriptor 3,
has duplicated that to descriptor 2, and has forked. -/
def sharedProgram : Kernel Ram :=
  let started := (Operation.spawnInitial "bin/init" ["init"]).run Ram.services
    (System.empty { openMax := 4 } smallWorld).kernel
  let opened := (Operation.descriptors 0 (.openPath "bin/prog" 2)).run Ram.services started
  let duplicated := (Operation.descriptors 0 (.duplicate 3 2)).run Ram.services opened
  ((Kernel.beginFork Ram.services 0).result duplicated).2

/-- The parent writes two bytes and closes its descriptor, and the child goes on behind them. -/
theorem one_cursor_for_all_descriptors_sharedProgram :
    ∃ s, Transfers Ram.services 3 (fun w w' => Ram.regular 2 w' = Ram.regular 2 w)
        { kernel := sharedProgram } [.write [1, 2] (.ok 2), .write [3] (.ok 1)] s ∧
      OneCursor Ram.services 3 ⟨⟨2, false⟩, .readWrite, false, 0⟩ 3 s.kernel ∧
      ∃ c, Ram.regular 2 s.kernel.shared.world = some c ∧
        Written 0 [1, 2, 3] Ram.sampleImage c := by
  have hstart : Transfers Ram.services 3 (fun w w' => Ram.regular 2 w' = Ram.regular 2 w)
    { kernel := sharedProgram } [] _ := .start
  have hparent := hstart.transfer (show (sharedProgram.process 0).descriptors.get? 3 = some 3 by
    decide +kernel) (.write (Action.result_eq_ok (a := (2 : UInt64)) (by decide +kernel) :
      (Kernel.onDescriptors 0 (Descriptors.write Ram.services 3 [1, 2])).result _ = _))
  have hclosed := hparent.other (Operation.takes (.descriptors 0 (.close 3))
      (show 0 < _ by decide +kernel)) nofun (by decide +kernel)
  have hchild := @Transfers.transfer _ _ _ _ _ _ _ 1 2 _ _ hclosed (by decide +kernel)
    (.write (Action.result_eq_ok (a := (1 : UInt64)) (by decide +kernel) :
      (Kernel.onDescriptors 1 (Descriptors.write Ram.services 2 [3])).result _ = _))
  obtain ⟨hcursor, hregular⟩ := one_cursor_for_all_descriptors
    (show sharedProgram.shared.files.get? 3 = some ⟨⟨2, false⟩, .readWrite, false, 0⟩ by
      decide +kernel) hchild (by decide)
  obtain ⟨hwrites, -⟩ := hregular (Ram.regular 2) Ram.sampleImage (Ram.services_regular ⟨2, false⟩)
    (fun _ _ h => h) (by decide +kernel)
  obtain ⟨c, hcontent, -, hwritten⟩ := hwrites (by simp [Transfer.IsWrite, UInt64.size])
  exact ⟨_, hchild, hcursor, c, hcontent, hwritten⟩

end UnixCore
