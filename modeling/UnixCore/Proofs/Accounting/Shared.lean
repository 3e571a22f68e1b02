import Mathlib.Algebra.Order.Group.Multiset
import UnixCore.Descriptor.Table
import UnixCore.Shared
import UnixCore.Proofs.Accounting.Ledger
import UnixCore.Proofs.Accounting.Pool

/-! The books of what processes share. Whoever works with references has holdings; the books are
balanced if the holder counts, the ledger and the holdings of all together agree. Every operation
is stated with the holdings of the others as a rest that it neither knows nor changes. -/

namespace UnixCore

/-- References that are held: to open files, to directories, to address spaces, and to vnodes that
are in no file and no directory yet, by their resources. -/
@[ext]
structure Holdings where
  files : Multiset FileId
  directories : Multiset Nat
  spaces : Nat
  vnodes : Multiset Nat

namespace Holdings

instance : Zero Holdings := ⟨⟨0, 0, 0, 0⟩⟩

instance : Add Holdings :=
  ⟨fun a b =>
    ⟨a.files + b.files, a.directories + b.directories, a.spaces + b.spaces, a.vnodes + b.vnodes⟩⟩

instance : AddCommMonoid Holdings where
  add_assoc a b c := by
    ext1 <;> exact add_assoc _ _ _
  zero_add a := by
    ext1 <;> exact zero_add _
  add_zero a := by
    ext1 <;> exact add_zero _
  add_comm a b := by
    ext1 <;> exact add_comm _ _
  nsmul := nsmulRec

def ofFile (id : FileId) : Holdings := ⟨{id}, 0, 0, 0⟩

def ofDirectory (id : Nat) : Holdings := ⟨0, {id}, 0, 0⟩

def ofSpace : Holdings := ⟨0, 0, 1, 0⟩

def ofVnode (v : Vnode) : Holdings := ⟨0, 0, 0, {v.resource}⟩

def ofFiles (ids : List FileId) : Holdings := ⟨↑ids, 0, 0, 0⟩

variable (a b : Holdings) (id : Nat) (v : Vnode)

@[simp] theorem files_add : (a + b).files = a.files + b.files := rfl
@[simp] theorem directories_add : (a + b).directories = a.directories + b.directories := rfl
@[simp] theorem spaces_add : (a + b).spaces = a.spaces + b.spaces := rfl
@[simp] theorem vnodes_add : (a + b).vnodes = a.vnodes + b.vnodes := rfl

theorem ofFiles_nil : ofFiles [] = 0 := rfl

theorem ofFiles_cons (ids : List FileId) : ofFiles (id :: ids) = ofFile id + ofFiles ids := by
  ext1
  · rw [files_add, ofFiles, ofFiles, ofFile, Multiset.singleton_add]
    rfl
  all_goals rfl

end Holdings

/-! ### The books -/

/-- The values in the pools and the ledger agree with the holdings. Of what was shared in the past
the ledger still tells everything, and a value is as it was or gone. -/
structure Balanced {W : Type} (past sh : Shared (W × Ledger)) (h : Holdings) : Prop where
  files_since : past.files.Since (·.vnode) sh.files
  directories_since : past.directories.Since (fun v => v) sh.directories
  ledger_since : past.world.2 <:+ sh.world.2
  files : sh.files.HeldBy h.files
  directories : sh.directories.HeldBy h.directories
  spaces : sh.world.2.count .made = sh.world.2.count .destroyed + h.spaces
  vnodes : ∀ r, sh.world.2.count (.handed r) =
    sh.world.2.count (.released r) + sh.files.countValues (fun f => r = f.vnode.resource) +
      sh.directories.countValues (fun v => r = v.resource) + h.vnodes.count r

namespace Balanced

variable {W : Type} {S : Services W} {past sh : Shared (W × Ledger)} {h h' rest : Holdings}
  {id : Nat} {v : Vnode}

/-! ### Changes of one part -/

theorem setWorld (hb : Balanced past sh h) {w : W × Ledger} (hsince : sh.world.2 <:+ w.2)
    (hfiles : h'.files = h.files) (hdirs : h'.directories = h.directories)
    (hspaces : w.2.count .made + (sh.world.2.count .destroyed + h.spaces) =
      sh.world.2.count .made + (w.2.count .destroyed + h'.spaces))
    (hvnodes : ∀ r, w.2.count (.handed r) + (sh.world.2.count (.released r) + h.vnodes.count r) =
      sh.world.2.count (.handed r) + (w.2.count (.released r) + h'.vnodes.count r)) :
    Balanced past { sh with world := w } h' := by
  refine ⟨hb.files_since, hb.directories_since, hb.ledger_since.trans hsince,
    by rw [hfiles]; exact hb.files, by rw [hdirs]; exact hb.directories, ?_, fun r => ?_⟩
  · have := hb.spaces
    dsimp only
    omega
  · have := hb.vnodes r
    have := hvnodes r
    dsimp only
    omega

theorem setFiles (hb : Balanced past sh h) {files : Pool OpenFile}
    (hsince : sh.files.Since (·.vnode) files) (hheld : files.HeldBy h'.files)
    (hdirs : h'.directories = h.directories) (hspaces : h'.spaces = h.spaces)
    (hvnodes : ∀ r, files.countValues (fun f => r = f.vnode.resource) + h'.vnodes.count r =
      sh.files.countValues (fun f => r = f.vnode.resource) + h.vnodes.count r) :
    Balanced past { sh with files } h' := by
  refine ⟨hb.files_since.trans hsince, hb.directories_since, hb.ledger_since, hheld,
    by rw [hdirs]; exact hb.directories, by rw [hspaces]; exact hb.spaces, fun r => ?_⟩
  have := hb.vnodes r
  have := hvnodes r
  dsimp only
  omega

theorem setDirectories (hb : Balanced past sh h) {directories : Pool Vnode}
    (hsince : sh.directories.Since (fun v => v) directories)
    (hheld : directories.HeldBy h'.directories) (hfiles : h'.files = h.files)
    (hspaces : h'.spaces = h.spaces)
    (hvnodes : ∀ r, directories.countValues (fun v => r = v.resource) + h'.vnodes.count r =
      sh.directories.countValues (fun v => r = v.resource) + h.vnodes.count r) :
    Balanced past { sh with directories } h' := by
  refine ⟨hb.files_since, hb.directories_since.trans hsince, hb.ledger_since,
    by rw [hfiles]; exact hb.files, hheld, by rw [hspaces]; exact hb.spaces, fun r => ?_⟩
  have := hb.vnodes r
  have := hvnodes r
  dsimp only
  omega

theorem report (hb : Balanced past sh h) (e : Event) : Balanced past (sh.report e) h :=
  ⟨hb.files_since, hb.directories_since, hb.ledger_since, hb.files, hb.directories, hb.spaces,
    hb.vnodes⟩

/-! ### Vnodes and address spaces -/

theorem keepLedger (hb : Balanced past sh h) {w : W × Ledger} (hw : w.2 = sh.world.2) :
    Balanced past { sh with world := w } h :=
  hb.setWorld (hw ▸ List.suffix_refl _) rfl rfl (by rw [hw]) fun r => by rw [hw]

theorem hand (hb : Balanced past sh rest) {w : W × Ledger}
    (hw : w.2 = .handed v.resource :: sh.world.2) :
    Balanced past { sh with world := w } (.ofVnode v + rest) := by
  refine hb.setWorld (hw ▸ List.suffix_cons ..) (zero_add _) (zero_add _)
    (by simp [hw, Holdings.ofVnode]) fun r => ?_
  simp only [hw, Ledger.count_handed_cons, Ledger.count_released_cons_handed, Holdings.ofVnode,
    Holdings.vnodes_add, Multiset.count_add, Multiset.count_singleton]
  omega

theorem release (hb : Balanced past sh (.ofVnode v + rest)) :
    Balanced past { sh with world := S.audited.release v sh.world } rest := by
  refine hb.setWorld (List.suffix_cons ..) (zero_add _).symm (zero_add _).symm
    (by simp [Services.audited, Holdings.ofVnode]) fun r => ?_
  simp only [Services.audited, Ledger.count_released_cons, Ledger.count_handed_cons_released,
    Holdings.ofVnode, Holdings.vnodes_add, Multiset.count_add, Multiset.count_singleton]
  omega

theorem make (hb : Balanced past sh rest) {w : W × Ledger} (hw : w.2 = .made :: sh.world.2) :
    Balanced past { sh with world := w } (.ofSpace + rest) := by
  refine hb.setWorld (hw ▸ List.suffix_cons ..) (zero_add _) (zero_add _) ?_
    fun r => by simp [hw, Holdings.ofSpace]
  simp [hw, Holdings.ofSpace]
  omega

theorem destroy (hb : Balanced past sh (.ofSpace + rest)) (space : AddressSpace) :
    Balanced past { sh with world := S.audited.destroySpace space sh.world } rest := by
  refine hb.setWorld (List.suffix_cons ..) (zero_add _).symm (zero_add _).symm ?_
    fun r => by simp [Services.audited, Holdings.ofSpace]
  simp [Services.audited, Holdings.ofSpace]
  omega

/-! ### Files -/

theorem insertFile {file : OpenFile} (hb : Balanced past sh (.ofVnode file.vnode + rest)) :
    Balanced past { sh with files := sh.files.insert file } (.ofFile sh.files.next + rest) := by
  have hheld : sh.files.HeldBy rest.files := by simpa [Holdings.ofVnode] using hb.files
  refine hb.setFiles (Pool.since_insert _) ?_ rfl rfl fun r => ?_
  · simpa [Holdings.ofFile] using hheld.insert file
  · simp only [Pool.countValues_insert, Holdings.ofFile, Holdings.ofVnode, Holdings.vnodes_add,
      Multiset.count_add, Multiset.count_zero, Multiset.count_singleton, decide_eq_true_eq]
    omega

theorem retainFile (hb : Balanced past sh rest) (hid : id ∈ rest.files) :
    Balanced past { sh with files := sh.files.retain id } (.ofFile id + rest) := by
  refine hb.setFiles (Pool.since_retain _) ?_ (zero_add _) (zero_add _) fun r => ?_
  · simpa [Holdings.ofFile] using hb.files.retain hid
  · simp [Pool.countValues_retain, Holdings.ofFile]

theorem modifyFile (hb : Balanced past sh h) {f : OpenFile → OpenFile}
    (hf : ∀ file, (f file).vnode = file.vnode) :
    Balanced past { sh with files := sh.files.modify id f } h := by
  apply hb.setFiles (Pool.since_modify id hf) (hb.files.modify id f) rfl rfl
  intro r
  rw [Pool.countValues_modify id fun file => by rw [hf file]]

/-- The vnode of a file that has lost its last hold is left to whoever gave up the hold. -/
theorem releaseFile (hb : Balanced past sh (.ofFile id + rest)) {file : Option OpenFile}
    {files : Pool OpenFile} (hrel : sh.files.release id = (file, files)) :
    Balanced past { sh with files } (file.elim 0 (fun f => .ofVnode f.vnode) + rest) := by
  have hheld : sh.files.HeldBy (id ::ₘ rest.files) := by simpa [Holdings.ofFile] using hb.files
  have hrest := hheld.release
  have hsince : sh.files.Since (·.vnode) (sh.files.release id).2 := Pool.since_release id
  have hcount (r : Nat) := Pool.countValues_release (p := sh.files)
    (P := fun f => r = f.vnode.resource) id
  simp only [hrel] at hrest hsince hcount
  refine hb.setFiles hsince ?_ ?_ ?_ fun r => ?_
  · cases file <;> simpa [Holdings.ofVnode] using hrest
  · cases file <;> rfl
  · cases file <;> rfl
  · have := hcount r
    cases file <;>
      simp [Holdings.ofFile, Holdings.ofVnode, Multiset.count_cons] at this ⊢ <;> omega

theorem dropFile (hb : Balanced past sh (.ofFile id + rest)) :
    Balanced past (sh.dropFile S.audited id) rest := by
  unfold Shared.dropFile
  rcases hrel : sh.files.release id with ⟨_ | file, files⟩
  · simpa using hb.releaseFile hrel
  · exact (hb.releaseFile hrel).release

/-! ### Directories -/

theorem insertDirectory (hb : Balanced past sh (.ofVnode v + rest)) :
    Balanced past { sh with directories := sh.directories.insert v }
      (.ofDirectory sh.directories.next + rest) := by
  have hheld : sh.directories.HeldBy rest.directories := by
    simpa [Holdings.ofVnode] using hb.directories
  refine hb.setDirectories (Pool.since_insert _) ?_ rfl rfl fun r => ?_
  · simpa [Holdings.ofDirectory] using hheld.insert v
  · simp only [Pool.countValues_insert, Holdings.ofDirectory, Holdings.ofVnode,
      Holdings.vnodes_add, Multiset.count_add, Multiset.count_zero, Multiset.count_singleton,
      decide_eq_true_eq]
    omega

theorem retainDirectory (hb : Balanced past sh rest) (hid : id ∈ rest.directories) :
    Balanced past { sh with directories := sh.directories.retain id } (.ofDirectory id + rest) := by
  refine hb.setDirectories (Pool.since_retain _) ?_ (zero_add _) (zero_add _) fun r => ?_
  · simpa [Holdings.ofDirectory] using hb.directories.retain hid
  · simp [Pool.countValues_retain, Holdings.ofDirectory]

theorem releaseDirectory (hb : Balanced past sh (.ofDirectory id + rest)) {vnode : Option Vnode}
    {directories : Pool Vnode} (hrel : sh.directories.release id = (vnode, directories)) :
    Balanced past { sh with directories } (vnode.elim 0 .ofVnode + rest) := by
  have hheld : sh.directories.HeldBy (id ::ₘ rest.directories) := by
    simpa [Holdings.ofDirectory] using hb.directories
  have hrest := hheld.release
  have hsince : sh.directories.Since (fun v => v) (sh.directories.release id).2 :=
    Pool.since_release id
  have hcount (r : Nat) := Pool.countValues_release (p := sh.directories)
    (P := fun v => r = v.resource) id
  simp only [hrel] at hrest hsince hcount
  refine hb.setDirectories hsince ?_ ?_ ?_ fun r => ?_
  · cases vnode <;> simpa [Holdings.ofVnode] using hrest
  · cases vnode <;> rfl
  · cases vnode <;> rfl
  · have := hcount r
    cases vnode <;>
      simp [Holdings.ofDirectory, Holdings.ofVnode, Multiset.count_cons] at this ⊢ <;> omega

theorem dropDirectory (hb : Balanced past sh (.ofDirectory id + rest)) :
    Balanced past (sh.dropDirectory S.audited id) rest := by
  unfold Shared.dropDirectory
  rcases hrel : sh.directories.release id with ⟨_ | vnode, directories⟩
  · simpa using hb.releaseDirectory hrel
  · exact (hb.releaseDirectory hrel).release

end Balanced

end UnixCore
