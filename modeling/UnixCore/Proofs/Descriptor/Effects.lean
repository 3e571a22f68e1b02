import UnixCore.Descriptor.Operations
import UnixCore.Proofs.Action

/-! What each step of a descriptor operation does to the table and to what is shared, as a condition
on the state before it. -/

namespace UnixCore.Descriptors

variable {W α : Type} {S : Services W} {d : Descriptors W} {ok : α → Descriptors W → Prop}
  {error : Errno → Descriptors W → Prop}

theorem ensures_onShared {act : Action (Shared W) α} :
    (onShared act).Ensures d ok error ↔
      act.Ensures d.shared (fun a sh => ok a { d with shared := sh })
        fun e sh => error e { d with shared := sh } :=
  Action.ensures_onPart

@[simp] theorem ensures_report {e : Event} {ok : Unit → Descriptors W → Prop} :
    (report e).Ensures d ok error ↔ ok () { d with shared := d.shared.report e } := Iff.rfl

@[simp] theorem ensures_drop {id : FileId} {ok : Unit → Descriptors W → Prop} :
    (drop S id).Ensures d ok error ↔ ok () { d with shared := d.shared.dropFile S id } := Iff.rfl

@[simp] theorem ensures_retain {id : FileId} {ok : Unit → Descriptors W → Prop} :
    (retain id).Ensures d ok error ↔ ok () { d with shared.files := d.shared.files.retain id } :=
  Iff.rfl

theorem ensures_lookup {fd : Nat} {ok : FileId → Descriptors W → Prop} :
    (lookup fd).Ensures d ok error ↔
      (∀ id, d.table.get? fd = some id → ok id d) ∧
        (d.table.get? fd = none → error .badFileDescriptor d) := by
  rw [lookup, Action.ensures_bind, Action.ensures_get]
  cases d.table.get? fd <;> simp

theorem ensures_alloc {id : FileId} {ok : Nat → Descriptors W → Prop} :
    (alloc S id).Ensures d ok error ↔
      (∀ fd table, d.table.alloc id = some (fd, table) → ok fd { d with table }) ∧
        (d.table.alloc id = none →
          error .tooManyOpenFiles { d with shared := d.shared.dropFile S id }) := by
  rw [alloc, Action.ensures_bind, Action.ensures_get]
  rcases d.table.alloc id with _ | ⟨_, _⟩ <;> simp

theorem ensures_install {fd : Nat} {id : FileId} {ok : Option FileId → Descriptors W → Prop} :
    (install S fd id).Ensures d ok error ↔
      (∀ previous table, d.table.install fd id = some (previous, table) →
          ok previous { d with table }) ∧
        (d.table.install fd id = none →
          error .badFileDescriptor { d with shared := d.shared.dropFile S id }) := by
  rw [install, Action.ensures_bind, Action.ensures_get]
  rcases d.table.install fd id with _ | ⟨_, _⟩ <;> simp

theorem ensures_take {fd : Nat} {ok : FileId → Descriptors W → Prop} :
    (take fd).Ensures d ok error ↔
      (∀ id table, d.table.take fd = some (id, table) → ok id { d with table }) ∧
        (d.table.take fd = none → error .badFileDescriptor d) := by
  rw [take, Action.ensures_bind, Action.ensures_get]
  rcases d.table.take fd with _ | ⟨_, _⟩ <;> simp

theorem ensures_dropDisplaced {displaced : Option FileId} {ok : Unit → Descriptors W → Prop} :
    Action.Ensures
        (match displaced with
          | some id => drop S id
          | none => pure ()) d ok error ↔
      ok () { d with shared := displaced.elim d.shared fun id => d.shared.dropFile S id } := by
  cases displaced <;> rfl

end UnixCore.Descriptors
