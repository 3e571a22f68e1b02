import UnixCore.Proofs.Access.Calls
import UnixCore.Proofs.Ram.Files

/-! Runs in which no process asks for write access. The flag words that are accepted then are all
the one for reading alone, so the only files that are ever open for writing are those that the
kernel opens on the console, and no other file changes. -/

namespace UnixCore

open Action

variable {W : Type} {S : Services W} {view : FileView W} {scope : Scope}

/-! ### What is opened -/

namespace OpenFlags

variable {raw : UInt32} {flags : OpenFlags}

theorem mem_supported_of_parse (h : parse raw = .ok flags) : flags = ⟨raw⟩ ∧ flags ∈ supported := by
  unfold parse at h
  split at h
  case isTrue hmem =>
    cases h
    exact ⟨rfl, List.contains_iff_mem.1 hmem⟩
  case isFalse => cases h

/-- Every supported flag word that creates or truncates has one of the two low bits. -/
theorem eq_rdonly_of_parse (h : parse raw = .ok flags) (hlow : raw &&& 3 = 0) :
    flags = .rdonly := by
  obtain ⟨rfl, hmem⟩ := mem_supported_of_parse h
  have hsupported : ∀ f ∈ supported, f.bits &&& 3 = 0 → f = .rdonly := by decide
  exact hsupported _ hmem hlow

end OpenFlags

/-- A turn in which no process opens a file for more than reading. -/
def Turn.OnlyReads : Turn → Prop
  | .operation (.descriptors _ (.openPath _ raw)) _ => raw &&& 3 = 0
  | .operation (.enterDirectory _ _ flags) _ => flags = .rdonly
  | _ => True

/-- Nothing is created or truncated, and only the console is opened for writing. -/
def Scope.OnlyReads (scope : Scope) : Prop :=
  ∀ path flags, scope.opens path flags →
    flags.Plain ∧ (flags.accessMode.canWrite = true → path = consolePath)

theorem Turn.OnlyReads.of_scope {t : Turn} (h : t.OnlyReads) (k : Kernel W) :
    (t.scope k).OnlyReads := by
  have hrdonly (path : String) : OpenFlags.rdonly.Plain ∧
      (OpenFlags.rdonly.accessMode.canWrite = true → path = consolePath) := ⟨by decide, nofun⟩
  intro path flags hopens
  cases t with
  | operation op r =>
    change op.Opens path flags at hopens
    cases hopens with
    | program => exact hrdonly _
    | input => exact hrdonly _
    | output => exact ⟨by decide, fun _ => rfl⟩
    | image => exact hrdonly _
    | file hparse =>
      rw [OpenFlags.eq_rdonly_of_parse hparse h]
      exact hrdonly _
    | directory =>
      cases h
      exact hrdonly _
  | call | store | report => exact hopens.elim

/-! ### What is written -/

/-- Every name and every file but the console is as in the beginning, and no file but the console
is open for writing. -/
structure FileView.Unwritten (view : FileView W) (w₀ : W) (sh : Shared W) : Prop where
  number : view.number sh.world = view.number w₀
  content : ∀ n, view.number w₀ consolePath ≠ some n →
    view.content sh.world n = view.content w₀ n
  writable : ∀ id file, sh.files.get? id = some file → file.mode.canWrite = true →
    view.number w₀ consolePath = some file.vnode.resource

namespace FileView.Unwritten

variable {w₀ : W} {sh sh' : Shared W}

theorem keep (h : view.Unwritten w₀ sh) {w : W} (hkept : view.Kept sh.world w) :
    view.Unwritten w₀ { sh with world := w } :=
  ⟨hkept.1.trans h.number, fun n hn => (hkept.2 n).trans (h.content n hn), h.writable⟩

/-- A call keeps every file but the console, whichever of the open files it is for. -/
theorem call (hshows : S.Shows view) (hscope : scope.OnlyReads) {w : W}
    (h : view.Unwritten w₀ sh) (hcall : S.Calls scope sh.files sh.world w) :
    view.Unwritten w₀ { sh with world := w } := by
  cases hcall with
  | readAt _ _ hresult => exact h.keep ((hshows.readAt _ _ _ _).result hresult)
  | @writeAt id file bytes r _ hfile hmode hresult =>
    have hkept := (hshows.writeAt _ _ _ _).result hresult
    refine ⟨hkept.1.trans h.number, fun n hn => ?_, h.writable⟩
    have hne : n ≠ file.vnode.resource := fun heq => hn (heq ▸ h.writable id file hfile hmode)
    exact (hkept.2 n hne).trans (h.content n hn)
  | stat hresult => exact h.keep ((hshows.stat _ _).result hresult)
  | other hcalled =>
    rcases hcalled.openPath_or_nothing with ⟨path, flags, r, hopens, hresult⟩ | hnothing
    · have hopen := hshows.openPath path flags sh.world (hscope path flags hopens).1
      exact h.keep ((hopen.mono (fun _ _ h => h.1) fun _ _ h => h).result hresult)
    · exact h.keep (hshows.others hnothing)

theorem touch (hshows : S.Shows view) (hscope : scope.OnlyReads) (h : view.Unwritten w₀ sh)
    (htouch : Shared.Touch S scope sh sh') : view.Unwritten w₀ sh' := by
  have hcalls : ∀ w, Relation.ReflTransGen (S.Calls scope sh.files) sh.world w →
      view.Unwritten w₀ { sh with world := w } := by
    intro w hpath
    induction hpath with
    | refl => exact h
    | tail _ hcall ih => exact ih.call hshows hscope hcall
  have hworld := hcalls _ htouch.calls
  refine ⟨hworld.number, hworld.content, fun id file hfile hmode => ?_⟩
  rcases htouch.file_of hfile with ⟨f, hf, hvnode, heq⟩ | ⟨path, flags, w, hopens, hopen, heq, -⟩
  · rw [hvnode]
    exact h.writable id f hf (heq ▸ hmode)
  · obtain ⟨hplain, hconsole⟩ := hscope path flags hopens
    have hnumber := ((hshows.openPath path flags _ hplain).of_ok hopen).2
    rw [hconsole (heq ▸ hmode), h.number] at hnumber
    exact hnumber

theorem touches (hshows : S.Shows view) (hscope : scope.OnlyReads) (h : view.Unwritten w₀ sh)
    (htouches : Shared.Touches S scope sh sh') : view.Unwritten w₀ sh' := by
  induction htouches with
  | refl => exact h
  | tail _ htouch ih => exact ih.touch hshows hscope htouch

end FileView.Unwritten

theorem Execution.unwritten (hshows : S.Shows view) {s₀ s : System W} {turns : List Turn}
    {w₀ : W} (h : Execution S s₀ turns s) (hreads : ∀ t ∈ turns, t.OnlyReads)
    (h₀ : view.Unwritten w₀ s₀.kernel.shared) : view.Unwritten w₀ s.kernel.shared := by
  induction h with
  | start => exact h₀
  | @step turns t s s' _ htakes ih =>
    have hpast := ih fun t ht => hreads t (List.mem_append_left _ ht)
    exact hpast.touches hshows ((hreads t (by simp)).of_scope _) htakes.touches

end UnixCore
