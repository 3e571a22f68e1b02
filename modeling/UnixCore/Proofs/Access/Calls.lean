import UnixCore.Proofs.Sharing.FileSystem

/-! Where calls of the file system come from: a vnode is read or written only as that of an open
file whose mode allows it, and an open file that was not there before is one that was just opened.
-/

namespace UnixCore

open Action

variable {W : Type} {S : Services W} {scope : Scope}

theorem Services.Called.openPath_or_nothing {w w' : W} (h : S.Called scope w w') :
    (∃ path flags r, scope.opens path flags ∧ (S.openPath path flags).result w = (r, w')) ∨
      S.Called .nothing w w' := by
  cases h with
  | openPath hopens hresult => exact .inl ⟨_, _, _, hopens, hresult⟩
  | release v => exact .inr (.release v)
  | createSpace hresult => exact .inr (.createSpace hresult)
  | duplicateSpace hresult => exact .inr (.duplicateSpace hresult)
  | activate space => exact .inr (.activate space)
  | defineStack hresult => exact .inr (.defineStack hresult)
  | destroySpace space => exact .inr (.destroySpace space)
  | load hresult => exact .inr (.load hresult)

namespace Shared

variable {sh sh' : Shared W}

/-- The world goes its way by calls of the services only. -/
theorem Touch.calls (h : Touch S scope sh sh') :
    Relation.ReflTransGen (S.Calls scope sh.files) sh.world sh'.world := by
  cases h.altered with
  | counted _ _ _ hcalls => exact hcalls
  | moved _ _ _ _ hcalls => exact hcalls
  | opened hopened =>
    obtain ⟨path, flags, v, w, offset, hopens, hopen, hasked, -⟩ := hopened
    have hcalled : S.Called scope sh.world w := .openPath hopens (result_of_ok hopen)
    exact .head (.other hcalled) hasked.calls

/-- An open file was there before, or it was just opened and its mode is what the open asked
for. -/
theorem Touch.file_of (h : Touch S scope sh sh') {id : FileId} {file : OpenFile}
    (hfile : sh'.files.get? id = some file) :
    (∃ f, sh.files.get? id = some f ∧ file.vnode = f.vnode ∧ file.mode = f.mode) ∨
      ∃ path flags w, scope.opens path flags ∧
        S.openPath path flags sh.world = .ok file.vnode w ∧ file.mode = flags.accessMode ∧
        S.Asked file.vnode w sh'.world := by
  by_cases hid : id < sh.files.next
  · obtain ⟨f, hf, heq⟩ := h.steady.files.kept id file hid hfile
    obtain ⟨hvnode, hmode⟩ := Prod.ext_iff.1 heq
    exact .inl ⟨f, hf, hvnode, (Prod.ext_iff.1 hmode).1⟩
  · cases h.altered with
    | counted _ hnext => exact (hid (hnext ▸ Pool.lt_next_of_get? hfile)).elim
    | moved _ hfiles =>
      have hlt := Pool.lt_next_of_get? hfile
      rw [hfiles, Pool.next_modify] at hlt
      exact (hid hlt).elim
    | opened hopened =>
      obtain ⟨path, flags, v, w, offset, hopens, hopen, hasked, hfiles⟩ := hopened
      rw [hfiles, Pool.get?, Pool.held?_insert] at hfile
      split at hfile
      case isTrue =>
        cases hfile
        exact .inr ⟨path, flags, w, hopens, hopen, rfl, hasked⟩
      case isFalse => exact (hid (Pool.lt_next_of_get? (p := sh.files) hfile)).elim

end Shared

end UnixCore
