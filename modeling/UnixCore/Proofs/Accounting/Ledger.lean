import UnixCore.Services
import UnixCore.Proofs.Action

/-! Services that write down which references they hand out and take back. -/

namespace UnixCore

/-- A reference to a resource, or an address space, on its way out or back. -/
inductive Entry
  | handed (resource : Nat)
  | released (resource : Nat)
  | made
  | destroyed
  deriving DecidableEq

/-- What services handed out and took back, the latest first. -/
abbrev Ledger := List Entry

namespace Ledger

/-- The vnodes on a resource that were handed out and are not released. -/
def inUse (l : Ledger) (resource : Nat) : Int :=
  l.count (.handed resource) - l.count (.released resource)

def liveSpaces (l : Ledger) : Int := l.count .made - l.count .destroyed

variable {l : Ledger} {r r' : Nat}

theorem count_handed_cons :
    (Entry.handed r' :: l).count (.handed r) = l.count (.handed r) + if r = r' then 1 else 0 := by
  by_cases h : r = r'
  · simp [h]
  · simp [h, Ne.symm h]

theorem count_released_cons :
    (Entry.released r' :: l).count (.released r) =
      l.count (.released r) + if r = r' then 1 else 0 := by
  by_cases h : r = r'
  · simp [h]
  · simp [h, Ne.symm h]

theorem count_released_cons_handed :
    (Entry.handed r' :: l).count (.released r) = l.count (.released r) := by
  simp

theorem count_handed_cons_released :
    (Entry.released r' :: l).count (.handed r) = l.count (.handed r) := by
  simp

@[simp] theorem inUse_handed :
    inUse (.handed r' :: l) r = l.inUse r + if r = r' then 1 else 0 := by
  rw [inUse, count_handed_cons, count_released_cons_handed, inUse]
  split <;> omega

@[simp] theorem inUse_released :
    inUse (.released r' :: l) r = l.inUse r - if r = r' then 1 else 0 := by
  rw [inUse, count_released_cons, count_handed_cons_released, inUse]
  split <;> omega

/-- A vnode that was handed out and released is not in use any more than before. -/
theorem inUse_released_handed : inUse (.released r' :: .handed r' :: l) r = l.inUse r := by
  rw [inUse_released, inUse_handed]
  omega

@[simp] theorem inUse_made : inUse (.made :: l) r = l.inUse r := by simp [inUse]

@[simp] theorem inUse_destroyed : inUse (.destroyed :: l) r = l.inUse r := by simp [inUse]

@[simp] theorem liveSpaces_handed : liveSpaces (.handed r :: l) = l.liveSpaces := by
  simp [liveSpaces]

@[simp] theorem liveSpaces_released : liveSpaces (.released r :: l) = l.liveSpaces := by
  simp [liveSpaces]

@[simp] theorem liveSpaces_made : liveSpaces (.made :: l) = l.liveSpaces + 1 := by
  simp [liveSpaces]
  omega

@[simp] theorem liveSpaces_destroyed : liveSpaces (.destroyed :: l) = l.liveSpaces - 1 := by
  simp [liveSpaces]
  omega

end Ledger

namespace Services

variable {W α : Type}

/-- A call that writes down what it handed out, if it succeeds. -/
def noting (entry : α → Entry) (act : Action (W × Ledger) α) : Action (W × Ledger) α := do
  let a ← act
  modify fun s => (s.1, entry a :: s.2)
  return a

/-- The same services beside a ledger of what they handed out and took back. -/
def audited (S : Services W) : Services (W × Ledger) :=
  { S.beside Ledger with
    openPath := fun path flags =>
      noting (fun v => .handed v.resource) ((S.beside Ledger).openPath path flags)
    release := fun v s => (S.release v s.1, .released v.resource :: s.2)
    createSpace := noting (fun _ => .made) (S.beside Ledger).createSpace
    duplicateSpace := fun space => noting (fun _ => .made) ((S.beside Ledger).duplicateSpace space)
    destroySpace := fun space s => (S.destroySpace space s.1, .destroyed :: s.2) }

variable {S : Services W} {s : W × Ledger}

theorem ensures_beside {β : Type} {s : W × β} {act : Action W α} :
    (Action.onPart Prod.fst (fun w s => (w, s.2)) act : Action (W × β) α).Ensures s
      (fun _ t => t.2 = s.2) fun _ t => t.2 = s.2 := by
  rw [Action.ensures_onPart]
  exact Action.ensures_true.mono (fun _ _ _ => rfl) fun _ _ _ => rfl

theorem ensures_noting {entry : α → Entry} {act : Action W α} :
    (noting entry (.onPart Prod.fst (fun w s => (w, s.2)) act)).Ensures s
      (fun a t => t.2 = entry a :: s.2) fun _ t => t.2 = s.2 := by
  rw [noting, Action.ensures_bind]
  refine ensures_beside.mono (fun a t h => ?_) fun _ _ h => h
  simp [h]

theorem ensures_openPath {path : String} {flags : OpenFlags} :
    (S.audited.openPath path flags).Ensures s (fun v t => t.2 = .handed v.resource :: s.2)
      fun _ t => t.2 = s.2 :=
  ensures_noting

theorem ensures_createSpace :
    S.audited.createSpace.Ensures s (fun _ t => t.2 = .made :: s.2) fun _ t => t.2 = s.2 :=
  ensures_noting

theorem ensures_duplicateSpace {space : AddressSpace} :
    (S.audited.duplicateSpace space).Ensures s (fun _ t => t.2 = .made :: s.2)
      fun _ t => t.2 = s.2 :=
  ensures_noting

theorem ensures_stat {v : Vnode} :
    (S.audited.stat v).Ensures s (fun _ t => t.2 = s.2) fun _ t => t.2 = s.2 :=
  ensures_beside

theorem ensures_readAt {v : Vnode} {offset : UInt64} {count : Nat} :
    (S.audited.readAt v offset count).Ensures s (fun _ t => t.2 = s.2) fun _ t => t.2 = s.2 :=
  ensures_beside

theorem ensures_writeAt {v : Vnode} {offset : UInt64} {bytes : List UInt8} :
    (S.audited.writeAt v offset bytes).Ensures s (fun _ t => t.2 = s.2) fun _ t => t.2 = s.2 :=
  ensures_beside

theorem ensures_besideSpace {β : Type} {act : Action (AddressSpace × W) α}
    {s : AddressSpace × W × β} :
    (Action.onPart (fun s => (s.1, s.2.1)) (fun t s => (t.1, t.2, s.2.2)) act :
      Action (AddressSpace × W × β) α).Ensures s
      (fun _ t => t.2.2 = s.2.2) fun _ t => t.2.2 = s.2.2 := by
  rw [Action.ensures_onPart]
  exact Action.ensures_true.mono (fun _ _ _ => rfl) fun _ _ _ => rfl

end Services

end UnixCore
