import Mathlib.Data.Multiset.Count
import UnixCore.Pool

/-! Pools whose holder counts are right: the values are held by a known collection of holds, each
value as often as its count says, and a value without a hold is gone. -/

namespace UnixCore.Pool

variable {α : Type}

/-- The pool's values are held as often as their numbers occur in `holds`. -/
structure HeldBy (p : Pool α) (holds : Multiset Nat) : Prop where
  holders_eq : ∀ i, p.holders i = holds.count i
  holders_pos : ∀ i c, p.held? i = some c → 0 < c.holders

theorem holders_of_held? {p : Pool α} {i : Nat} {c : Held α} (h : p.held? i = some c) :
    p.holders i = c.holders := by
  rw [holders, h]
  rfl

theorem holders_of_none {p : Pool α} {i : Nat} (h : p.held? i = none) : p.holders i = 0 := by
  rw [holders, h]
  rfl

theorem held?_next (p : Pool α) : p.held? p.next = none := by
  simp [held?, next]

theorem toList_cells (p : Pool α) : p.cells.toList = (List.range p.next).map p.held? := by
  apply List.ext_getElem (by simp [next])
  intro i hi hi'
  rw [List.getElem_map, List.getElem_range, Array.getElem_toList, held?,
    Array.getElem?_eq_getElem (by simpa using hi)]
  rfl

theorem heldBy_empty : ({} : Pool α).HeldBy 0 := by
  refine ⟨fun i => ?_, fun i c h => ?_⟩
  · simp [holders, held?]
  · simp [held?] at h

namespace HeldBy

variable {p : Pool α} {holds : Multiset Nat} {i : Nat}

theorem isSome_get?_iff (h : p.HeldBy holds) : (p.get? i).isSome ↔ i ∈ holds := by
  rw [← Multiset.count_pos, ← h.holders_eq, get?, Option.isSome_map]
  cases hc : p.held? i with
  | none => simp [holders_of_none hc]
  | some c => simpa [holders_of_held? hc] using h.holders_pos i c hc

theorem exists_held? (h : p.HeldBy holds) (hi : i ∈ holds) : ∃ c, p.held? i = some c := by
  have hsome := h.isSome_get?_iff.2 hi
  rwa [get?, Option.isSome_map, Option.isSome_iff_exists] at hsome

theorem insert (h : p.HeldBy holds) (a : α) : (p.insert a).HeldBy (p.next ::ₘ holds) := by
  refine ⟨fun i => ?_, fun i c hc => ?_⟩
  · rw [Multiset.count_cons, ← h.holders_eq, holders, held?_insert]
    by_cases hi : i = p.next
    · rw [if_pos hi, if_pos hi, hi, holders_of_none p.held?_next]
      rfl
    · rw [if_neg hi, if_neg hi, Nat.add_zero]
      rfl
  · rw [held?_insert] at hc
    split at hc
    · cases hc
      exact Nat.one_pos
    · exact h.holders_pos i c hc

theorem retain (h : p.HeldBy holds) (hi : i ∈ holds) : (p.retain i).HeldBy (i ::ₘ holds) := by
  obtain ⟨c, hc⟩ := h.exists_held? hi
  refine ⟨fun j => ?_, fun j c' hc' => ?_⟩
  · rw [Multiset.count_cons, ← h.holders_eq, holders, held?_retain]
    by_cases hj : j = i
    · rw [if_pos hj, if_pos hj, hj, hc, holders_of_held? hc]
      rfl
    · rw [if_neg hj, if_neg hj, Nat.add_zero]
      rfl
  · rw [held?_retain] at hc'
    split at hc'
    · obtain ⟨d, -, rfl⟩ := Option.map_eq_some_iff.1 hc'
      exact Nat.succ_pos _
    · exact h.holders_pos j c' hc'

theorem modify (h : p.HeldBy holds) (i : Nat) (f : α → α) : (p.modify i f).HeldBy holds := by
  refine ⟨fun j => ?_, fun j c' hc' => ?_⟩
  · rw [← h.holders_eq, holders, holders, held?_modify]
    split
    · cases p.held? j <;> rfl
    · rfl
  · rw [held?_modify] at hc'
    split at hc'
    · obtain ⟨d, hd, rfl⟩ := Option.map_eq_some_iff.1 hc'
      exact h.holders_pos j d hd
    · exact h.holders_pos j c' hc'

theorem release (h : p.HeldBy (i ::ₘ holds)) : (p.release i).2.HeldBy holds := by
  have hcount := h.holders_eq i
  rw [Multiset.count_cons_self] at hcount
  obtain ⟨c, hc⟩ := h.exists_held? (Multiset.mem_cons_self i holds)
  rw [holders_of_held? hc] at hcount
  refine ⟨fun j => ?_, fun j d hd => ?_⟩
  · rw [holders, held?_release]
    by_cases hj : j = i
    · rw [if_pos hj, hj, hc, Option.bind_some]
      by_cases hone : c.holders ≤ 1
      · rw [if_pos hone]
        change 0 = _
        omega
      · rw [if_neg hone]
        change c.holders - 1 = _
        omega
    · have hrest := h.holders_eq j
      rw [Multiset.count_cons_of_ne hj] at hrest
      rw [if_neg hj, ← hrest]
      rfl
  · rw [held?_release] at hd
    split at hd
    case isTrue hj =>
      rw [hj, hc, Option.bind_some] at hd
      split at hd
      · cases hd
      · cases hd
        change 0 < c.holders - 1
        omega
    case isFalse => exact h.holders_pos j d hd

/-- Pools that are held alike differ in their values at most. -/
theorem held?_eq {q : Pool α} (h : p.HeldBy holds) (h' : q.HeldBy holds)
    (hvalues : ∀ i a b, p.get? i = some a → q.get? i = some b → a = b) (i : Nat) :
    p.held? i = q.held? i := by
  have hholders := (h.holders_eq i).trans (h'.holders_eq i).symm
  have hsome := (h.isSome_get?_iff (i := i)).trans h'.isSome_get?_iff.symm
  cases hc : p.held? i with
  | none =>
    cases hd : q.held? i with
    | none => rfl
    | some d => simp [get?, hc, hd] at hsome
  | some c =>
    cases hd : q.held? i with
    | none => simp [get?, hc, hd] at hsome
    | some d =>
      have hvalue := hvalues i c.value d.value (by rw [get?, hc, Option.map_some])
        (by rw [get?, hd, Option.map_some])
      rw [holders_of_held? hc, holders_of_held? hd] at hholders
      obtain ⟨value, holders⟩ := c
      cases hvalue
      cases hholders
      rfl

end HeldBy

/-! ### What becomes of values -/

/-- What became of the values of an earlier pool: a value that is still there is what it was as far
as `f` tells, and no number was used again. -/
structure Since {β : Type} (f : α → β) (past p : Pool α) : Prop where
  next_le : past.next ≤ p.next
  kept : ∀ i a, i < past.next → p.get? i = some a → ∃ b, past.get? i = some b ∧ f a = f b

namespace Since

variable {β : Type} {f : α → β} {past p q : Pool α}

theorem refl (f : α → β) (p : Pool α) : Since f p p :=
  ⟨Nat.le_refl _, fun _ a _ h => ⟨a, h, rfl⟩⟩

theorem trans (h : Since f past p) (h' : Since f p q) : Since f past q := by
  refine ⟨Nat.le_trans h.next_le h'.next_le, fun i a hi ha => ?_⟩
  obtain ⟨b, hb, hab⟩ := h'.kept i a (Nat.lt_of_lt_of_le hi h.next_le) ha
  obtain ⟨c, hc, hbc⟩ := h.kept i b hi hb
  exact ⟨c, hc, hab.trans hbc⟩

end Since

section Since

variable {β : Type} {f : α → β} {p : Pool α}

theorem lt_next_of_get? {i : Nat} {a : α} (h : p.get? i = some a) : i < p.next := by
  obtain ⟨c, hc, -⟩ := Option.map_eq_some_iff.1 h
  exact lt_of_held? hc

theorem next_retain (i : Nat) : (p.retain i).next = p.next := by simp [next, Pool.retain]

theorem next_modify (i : Nat) (g : α → α) : (p.modify i g).next = p.next := by
  simp [next, Pool.modify]

theorem since_insert (a : α) : Since f p (p.insert a) := by
  refine ⟨by simp [next, Pool.insert], fun i b hi hb => ⟨b, ?_, rfl⟩⟩
  rw [get?, held?_insert, if_neg (Nat.ne_of_lt hi)] at hb
  exact hb

theorem get?_retain (i j : Nat) : (p.retain i).get? j = p.get? j := by
  rw [get?, held?_retain]
  split
  · rw [Option.map_map]
    rfl
  · rfl

theorem get?_modify (i j : Nat) (g : α → α) :
    (p.modify i g).get? j = if j = i then (p.get? j).map g else p.get? j := by
  rw [get?, held?_modify]
  split
  · simp only [get?, Option.map_map, Function.comp_def]
  · rfl

theorem since_retain (i : Nat) : Since f p (p.retain i) := by
  refine ⟨Nat.le_of_eq (next_retain i).symm, fun j b _ hb => ⟨b, ?_, rfl⟩⟩
  rwa [get?_retain] at hb

theorem since_modify (i : Nat) {g : α → α} (hg : ∀ a, f (g a) = f a) :
    Since f p (p.modify i g) := by
  refine ⟨Nat.le_of_eq (next_modify i g).symm, fun j b _ hb => ?_⟩
  rw [get?, held?_modify] at hb
  split at hb
  · rw [Option.map_map] at hb
    obtain ⟨c, hc, rfl⟩ := Option.map_eq_some_iff.1 hb
    exact ⟨c.value, Option.map_eq_some_iff.2 ⟨c, hc, rfl⟩, hg _⟩
  · exact ⟨b, hb, rfl⟩

theorem next_release (i : Nat) : (p.release i).2.next = p.next := by
  unfold release next
  split
  · rfl
  · split <;> exact Array.size_setIfInBounds

theorem since_release (i : Nat) : Since f p (p.release i).2 := by
  refine ⟨Nat.le_of_eq (next_release i).symm, fun j b _ hb => ⟨b, ?_, rfl⟩⟩
  rw [get?, held?_release] at hb
  split at hb
  · obtain ⟨c, hc, rfl⟩ := Option.map_eq_some_iff.1 hb
    obtain ⟨d, hd, hcd⟩ := Option.bind_eq_some_iff.1 hc
    refine Option.map_eq_some_iff.2 ⟨d, hd, ?_⟩
    split at hcd <;> cases hcd
    rfl
  · exact hb

end Since

/-! ### What is left of values -/

/-- Since an earlier pool no value has come and none has changed. -/
structure Remnant (past p : Pool α) : Prop where
  next : p.next = past.next
  kept : ∀ i a, p.get? i = some a → past.get? i = some a

namespace Remnant

variable {past p q : Pool α} {holds : Multiset Nat}

theorem refl (p : Pool α) : Remnant p p := ⟨rfl, fun _ _ h => h⟩

theorem trans (h : Remnant past p) (h' : Remnant p q) : Remnant past q :=
  ⟨h'.next.trans h.next, fun i a ha => h.kept i a (h'.kept i a ha)⟩

theorem of_since (hnext : p.next = past.next) (h : Since id past p) : Remnant past p := by
  refine ⟨hnext, fun i a ha => ?_⟩
  obtain ⟨b, hb, rfl⟩ := h.kept i a (Nat.lt_of_lt_of_eq (lt_next_of_get? ha) hnext) ha
  exact hb

theorem release (p : Pool α) (i : Nat) : Remnant p (p.release i).2 :=
  .of_since (next_release i) (since_release i)

theorem retain (p : Pool α) (i : Nat) : Remnant p (p.retain i) :=
  .of_since (next_retain i) (since_retain i)

/-- What is left of a pool is known from who holds it. -/
theorem eq_of_heldBy (hp : Remnant past p) (hq : Remnant past q) (hheld : p.HeldBy holds)
    (hheld' : q.HeldBy holds) : p = q := by
  have hcell (i : Nat) : p.held? i = q.held? i := by
    refine hheld.held?_eq hheld' (fun i a b ha hb => ?_) i
    exact Option.some.inj ((hp.kept i a ha).symm.trans (hq.kept i b hb))
  have hcells : p.cells.toList = q.cells.toList := by
    rw [toList_cells, toList_cells, hp.next, hq.next, funext hcell]
  exact congrArg Pool.mk (Array.toList_inj.1 hcells)

end Remnant

/-! ### Counting values -/

def cellHas (P : α → Bool) (c : Option (Held α)) : Bool := c.any fun h => P h.value

def countValues (P : α → Bool) (p : Pool α) : Nat := p.cells.toList.countP (cellHas P)

variable {P : α → Bool} {p : Pool α}

theorem countValues_insert (a : α) :
    (p.insert a).countValues P = p.countValues P + if P a then 1 else 0 := by
  rw [countValues, insert, Array.toList_push, List.countP_append, List.countP_singleton]
  rfl

theorem countValues_setIfInBounds {i : Nat} {c d : Option (Held α)} (h : p.cells[i]? = some c) :
    (Pool.mk (p.cells.setIfInBounds i d)).countValues P + (if cellHas P c then 1 else 0) =
      p.countValues P + if cellHas P d then 1 else 0 := by
  obtain ⟨hi, hget⟩ := Array.getElem?_eq_some_iff.1 h
  have hle : (if cellHas P c then 1 else 0) ≤ p.cells.toList.countP (cellHas P) := by
    split
    case isTrue hc =>
      refine List.countP_pos_iff.2 ⟨c, ?_, hc⟩
      rw [← hget]
      exact List.getElem_mem _
    case isFalse => exact Nat.zero_le _
  simp only [countValues, Array.toList_setIfInBounds]
  rw [List.countP_set (by simpa using hi)]
  simp only [Array.getElem_toList, hget]
  omega

theorem cells_of_held? {i : Nat} {c : Held α} (h : p.held? i = some c) :
    p.cells[i]? = some (some c) := by
  rw [held?] at h
  cases hi : p.cells[i]? with
  | none => simp [hi] at h
  | some d => simpa [hi] using h

theorem countValues_modifyCell {i : Nat} {f : Held α → Held α}
    (h : ∀ c, P (f c).value = P c.value) :
    (Pool.mk (p.cells.modify i (·.map f))).countValues P = p.countValues P := by
  have hcell (c : Option (Held α)) : cellHas P (c.map f) = cellHas P c := by
    cases c with
    | none => rfl
    | some c => exact h c
  have hmap : (p.cells.toList.modify i (·.map f)).map (cellHas P) =
      p.cells.toList.map (cellHas P) := by
    apply List.ext_getElem (by simp)
    intro j hj hj'
    simp only [List.getElem_map, List.getElem_modify]
    split
    · exact hcell _
    · rfl
  have hcount (l : List (Option (Held α))) :
      l.countP (cellHas P) = (l.map (cellHas P)).countP id := by
    rw [List.countP_map]
    rfl
  simp only [countValues, Array.toList_modify]
  rw [hcount, hmap, ← hcount]

theorem countValues_retain (i : Nat) : (p.retain i).countValues P = p.countValues P :=
  countValues_modifyCell fun _ => rfl

theorem countValues_modify (i : Nat) {f : α → α} (h : ∀ a, P (f a) = P a) :
    (p.modify i f).countValues P = p.countValues P :=
  countValues_modifyCell fun c => h c.value

/-- A hold that is given up takes away the value that comes back, if one does, and no other. -/
theorem countValues_release (i : Nat) :
    (p.release i).2.countValues P + (if (p.release i).1.any P then 1 else 0) =
      p.countValues P := by
  unfold release
  cases hc : p.held? i with
  | none => rfl
  | some c =>
    have hcell := cells_of_held? hc
    by_cases hone : c.holders ≤ 1
    · simp only [if_pos hone]
      exact countValues_setIfInBounds hcell
    · simp only [if_neg hone]
      have hset := countValues_setIfInBounds (P := P)
        (d := some { c with holders := c.holders - 1 }) hcell
      exact Nat.add_right_cancel hset

/-- The values in the pool are those of the numbers in a list that has all numbers in use. -/
theorem countP_eq_countValues {l : List Nat} (hl : l.Nodup)
    (hmem : ∀ i, i ∈ l ↔ (p.get? i).isSome) :
    l.countP (fun i => (p.get? i).any P) = p.countValues P := by
  have hcells : p.countValues P = (List.range p.next).countP fun i => (p.get? i).any P := by
    rw [countValues, toList_cells, List.countP_map]
    apply List.countP_congr
    intro i _
    rw [get?, Option.any_map]
    rfl
  rw [hcells, List.countP_eq_length_filter, List.countP_eq_length_filter]
  refine List.Perm.length_eq ((List.perm_ext_iff_of_nodup (hl.filter _)
    (List.nodup_range.filter _)).2 fun i => ?_)
  simp only [List.mem_filter, List.mem_range, hmem]
  apply and_congr_left
  intro hany
  obtain ⟨a, ha, -⟩ := (Option.any_eq_true _ _).1 hany
  rw [ha]
  exact ⟨fun _ => lt_next_of_get? ha, fun _ => rfl⟩

theorem countValues_congr {q : Pool α} (h : ∀ i, p.held? i = q.held? i) :
    p.countValues P = q.countValues P := by
  have hget (i : Nat) : p.get? i = q.get? i := by rw [get?, get?, h]
  have hmem (i : Nat) :
      i ∈ (List.range p.next).filter (fun i => (p.get? i).isSome) ↔ (p.get? i).isSome := by
    simp only [List.mem_filter, List.mem_range, and_iff_right_iff_imp]
    intro hsome
    obtain ⟨a, ha⟩ := Option.isSome_iff_exists.1 hsome
    exact lt_next_of_get? ha
  have hnodup : ((List.range p.next).filter fun i => (p.get? i).isSome).Nodup :=
    List.nodup_range.filter _
  rw [← countP_eq_countValues hnodup hmem,
    ← countP_eq_countValues hnodup fun i => (hmem i).trans (by rw [hget])]
  simp only [hget]

/-- Values with a property: those of now without the new ones are those of the past without the ones
that are gone. -/
theorem Since.length_add_countP {β : Type} {f : α → β} {past : Pool α} (h : Since f past p)
    (P : β → Bool) {l l' : List Nat} (hl : l.Nodup) (hl' : l'.Nodup)
    (hpast : ∀ i ∈ l, (past.get? i).isSome) (hnow : ∀ i ∈ l', (p.get? i).isSome) :
    (l.filter fun i => (past.get? i).any fun a => P (f a)).length +
        (l'.filter fun i => (p.get? i).any fun a => P (f a)).countP (· ∉ l) =
      (l'.filter fun i => (p.get? i).any fun a => P (f a)).length +
        (l.filter fun i => (past.get? i).any fun a => P (f a)).countP (· ∉ l') := by
  -- A number in both lists stands for the same value, so it counts on both sides or on neither.
  have hsame {i : Nat} (hi : i ∈ l) (hi' : i ∈ l') :
      ((past.get? i).any fun a => P (f a)) = (p.get? i).any fun a => P (f a) := by
    obtain ⟨a, ha⟩ := Option.isSome_iff_exists.1 (hnow i hi')
    obtain ⟨c, hc⟩ := Option.isSome_iff_exists.1 (hpast i hi)
    obtain ⟨b, hb, hab⟩ := h.kept i a (lt_next_of_get? hc) ha
    rw [ha, hb, Option.any_some, Option.any_some, hab]
  have hkept : (l.filter fun i => (past.get? i).any fun a => P (f a)).countP (· ∈ l') =
      (l'.filter fun i => (p.get? i).any fun a => P (f a)).countP (· ∈ l) := by
    rw [List.countP_eq_length_filter, List.countP_eq_length_filter]
    refine List.Perm.length_eq ((List.perm_ext_iff_of_nodup ((hl.filter _).filter _)
      ((hl'.filter _).filter _)).2 fun i => ?_)
    simp only [List.mem_filter, decide_eq_true_eq]
    constructor
    · rintro ⟨⟨hi, hany⟩, hi'⟩
      exact ⟨⟨hi', hsame hi hi' ▸ hany⟩, hi⟩
    · rintro ⟨⟨hi', hany⟩, hi⟩
      exact ⟨⟨hi, (hsame hi hi').symm ▸ hany⟩, hi'⟩
  have hgone := List.length_eq_countP_add_countP (· ∈ l')
    (l := l.filter fun i => (past.get? i).any fun a => P (f a))
  have hnew := List.length_eq_countP_add_countP (· ∈ l)
    (l := l'.filter fun i => (p.get? i).any fun a => P (f a))
  simp only [decide_eq_true_eq] at hgone hnew
  omega

end UnixCore.Pool
