import UnixCore.Proofs.Accounting.Kernel

/-! What is left of what processes share, when files and directories are only held on to and given
up. It is known from what is held in the end: whoever holds the same has the same files with their
cursors and share counts, and as many vnodes and address spaces are in use. -/

namespace UnixCore

variable {W : Type} {S : Services W}

namespace Balanced

variable {past sh : Shared (W × Ledger)} {h : Holdings}

theorem inUse_eq (hb : Balanced past sh h) (r : Nat) : sh.world.2.inUse r =
    sh.files.countValues (fun f => r = f.vnode.resource) +
      sh.directories.countValues (fun v => r = v.resource) + h.vnodes.count r := by
  have := hb.vnodes r
  rw [Ledger.inUse]
  omega

theorem liveSpaces_eq (hb : Balanced past sh h) : sh.world.2.liveSpaces = h.spaces := by
  have := hb.spaces
  rw [Ledger.liveSpaces]
  omega

end Balanced

namespace Shared

/-- As many vnodes are in use on every resource, and as many address spaces live. -/
structure SameUse (sh sh' : Shared (W × Ledger)) : Prop where
  vnodes : ∀ resource, sh'.world.2.inUse resource = sh.world.2.inUse resource
  spaces : sh'.world.2.liveSpaces = sh.world.2.liveSpaces

/-- The same open files with the same share counts and cursors, the same directories, and as many
vnodes in use and live address spaces. -/
structure Agrees (sh sh' : Shared (W × Ledger)) : Prop extends SameUse sh sh' where
  files : sh'.files = sh.files
  directories : sh'.directories = sh.directories

/-- As `Agrees`, but other numbers of files may have been used up. -/
structure Restored (sh sh' : Shared (W × Ledger)) : Prop extends SameUse sh sh' where
  files : ∀ id, sh'.files.held? id = sh.files.held? id
  directories : sh'.directories = sh.directories

/-- The same numbers stand for the same files and directories with the same share counts, and as
many vnodes are in use and as many address spaces live. Other numbers may have been used up. -/
structure Alike (sh sh' : Shared (W × Ledger)) : Prop extends SameUse sh sh' where
  files : ∀ id, sh'.files.held? id = sh.files.held? id
  directories : ∀ id, sh'.directories.held? id = sh.directories.held? id

section Shares

variable {past past' sh sh' : Shared (W × Ledger)} {h : Holdings}

theorem Agrees.of_world {w : W × Ledger} (hw : w.2 = sh.world.2) :
    Agrees sh { sh with world := w } :=
  ⟨⟨fun _ => by rw [hw], by rw [hw]⟩, rfl, rfl⟩

theorem Agrees.refl (sh : Shared (W × Ledger)) : Agrees sh sh := .of_world rfl

theorem Agrees.restored (h : Agrees sh sh') : Restored sh sh' :=
  ⟨h.toSameUse, fun _ => by rw [h.files], h.directories⟩

theorem Restored.refl (sh : Shared (W × Ledger)) : Restored sh sh := (Agrees.refl sh).restored

theorem Restored.alike (h : Restored sh sh') : Alike sh sh' :=
  ⟨h.toSameUse, h.files, fun _ => by rw [h.directories]⟩

/-- What is in use is known from what is held and what is open. -/
theorem sameUse_of_balanced (hfiles : ∀ id, sh'.files.held? id = sh.files.held? id)
    (hdirectories : ∀ id, sh'.directories.held? id = sh.directories.held? id)
    (hb : Balanced past sh h) (hb' : Balanced past' sh' h) : SameUse sh sh' := by
  refine ⟨fun r => ?_, ?_⟩
  · rw [hb'.inUse_eq, hb.inUse_eq, Pool.countValues_congr hfiles,
      Pool.countValues_congr hdirectories]
  · rw [hb'.liveSpaces_eq, hb.liveSpaces_eq]

/-- What is shared is alike if the same is held and what is there on both sides is the same. -/
theorem alike_of_balanced
    (hfiles : ∀ id a b, sh'.files.get? id = some a → sh.files.get? id = some b → a = b)
    (hdirectories :
      ∀ id a b, sh'.directories.get? id = some a → sh.directories.get? id = some b → a = b)
    (hb : Balanced past sh h) (hb' : Balanced past' sh' h) : Alike sh sh' := by
  have hfile := hb'.files.held?_eq hb.files hfiles
  have hdirectory := hb'.directories.held?_eq hb.directories hdirectories
  exact ⟨sameUse_of_balanced hfile hdirectory hb hb', hfile, hdirectory⟩

end Shares

/-- No file and no directory was opened, and none has changed. -/
structure Remnant (past sh : Shared W) : Prop where
  files : past.files.Remnant sh.files
  directories : past.directories.Remnant sh.directories

namespace Remnant

variable {sh sh' sh'' : Shared W}

theorem refl (sh : Shared W) : Remnant sh sh := ⟨.refl _, .refl _⟩

theorem trans (h : Remnant sh sh') (h' : Remnant sh' sh'') : Remnant sh sh'' :=
  ⟨h.files.trans h'.files, h.directories.trans h'.directories⟩

theorem report (e : Event) : Remnant sh (sh.report e) := ⟨.refl _, .refl _⟩

theorem dropFile (id : FileId) : Remnant sh (sh.dropFile S id) := by
  have hreleased : sh.files.Remnant (sh.files.release id).2 := .release sh.files id
  unfold Shared.dropFile
  rcases hrelease : sh.files.release id with ⟨_ | file, files⟩ <;> rw [hrelease] at hreleased
  all_goals exact ⟨hreleased, .refl _⟩

theorem dropFiles (ids : List FileId) (sh : Shared W) :
    Remnant sh (ids.foldl (fun sh id => sh.dropFile S id) sh) := by
  induction ids generalizing sh with
  | nil => exact .refl sh
  | cons id ids ih => exact (dropFile id).trans (ih _)

theorem retainFiles (ids : List FileId) : Remnant sh (sh.retainFiles ids) := by
  refine ⟨?_, .refl _⟩
  unfold Shared.retainFiles
  generalize sh.files = files
  induction ids generalizing files with
  | nil => exact .refl files
  | cons id ids ih => exact (Pool.Remnant.retain files id).trans (ih _)

theorem dropDirectory (id : Nat) : Remnant sh (sh.dropDirectory S id) := by
  have hreleased : sh.directories.Remnant (sh.directories.release id).2 :=
    .release sh.directories id
  unfold Shared.dropDirectory
  rcases hrelease : sh.directories.release id with ⟨_ | v, directories⟩ <;>
    rw [hrelease] at hreleased
  all_goals exact ⟨.refl _, hreleased⟩

theorem dropDirectory? {k : Kernel W} (directory : Option Nat) :
    Remnant k.shared (Kernel.dropDirectory S directory k).shared := by
  cases directory with
  | none => exact .refl _
  | some id => exact .dropDirectory id

theorem retainDirectory? {k : Kernel W} (directory : Option Nat) :
    Remnant k.shared (Kernel.retainDirectory directory k).shared := by
  cases directory with
  | none => exact .refl _
  | some id => exact ⟨.refl _, .retain _ id⟩

theorem destroySpace {k : Kernel W} (space : Option AddressSpace) :
    Remnant k.shared (Kernel.destroySpace S space k).shared := by
  cases space <;> exact ⟨.refl _, .refl _⟩

theorem reap {k : Kernel W} {a : ProcessId} : Remnant k.shared (k.reap S a).shared := by
  have hcleared : Remnant k.shared (k.cleared S a).shared := dropFiles _ _
  rw [Kernel.reap_eq]
  refine hcleared.trans (.trans ?_ (dropDirectory? _))
  exact destroySpace
    (k := { k.modifyProcess a (Process.reaped (k.cleared S a).table) with
      shared := (k.cleared S a).shared }) _

/-- What is left is known from who holds it. -/
theorem agrees {past sh sh' past₁ past₂ : Shared (W × Ledger)} {h : Holdings}
    (hleft : Remnant past sh) (hleft' : Remnant past sh') (hb : Balanced past₁ sh h)
    (hb' : Balanced past₂ sh' h) : Agrees sh sh' := by
  have hfiles : sh'.files = sh.files := hleft'.files.eq_of_heldBy hleft.files hb'.files hb.files
  have hdirectories : sh'.directories = sh.directories :=
    hleft'.directories.eq_of_heldBy hleft.directories hb'.directories hb.directories
  exact ⟨sameUse_of_balanced (fun _ => by rw [hfiles]) (fun _ => by rw [hdirectories]) hb hb',
    hfiles, hdirectories⟩

end Remnant

end Shared

end UnixCore
