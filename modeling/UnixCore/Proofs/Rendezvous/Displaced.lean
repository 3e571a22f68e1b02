import Mathlib.Data.List.Basic
import UnixCore.Proofs.Rendezvous.Stages

/-! Who is unregistered without having been collected. A wait that collects a process and a fork
that gives up its child go by the id alone, so they can hit a process that got the id later. -/

namespace UnixCore

variable {W : Type} {S : Services W} {labels : List Label} {l : Label} {s s' : System W}
  {k k' : Kernel W} {a : ProcessId}

/-- Since the fork of a process began, another one that had its id was collected or given up. -/
def Displaced (labels : List Label) (k : Kernel W) (a : ProcessId) : Prop :=
  ∃ parent l b, [.forkBegun parent a, l].Sublist labels ∧ l.Clears b ∧ b ≠ a ∧
    (k.process b).pid = (k.process a).pid

/-- Whoever was forked, collected or given up in the steps so far is there. Every fork has begun in
one of them, and its child is registered until it is reaped, unless it is displaced. -/
structure Placed (labels : List Label) (s : System W) : Prop where
  begun_lt : ∀ parent a, .forkBegun parent a ∈ labels → a < s.kernel.records.size
  cleared_lt : ∀ l ∈ labels, ∀ b, l.Clears b → b < s.kernel.records.size
  forks : ∀ f ∈ s.forks, .forkBegun f.parent f.child ∈ labels
  forked : ∀ parent a, .forked parent a ∈ labels → .forkBegun parent a ∈ labels
  registered : ∀ parent a, .forkBegun parent a ∈ labels →
    (s.kernel.process a).state ≠ .reaped → (s.kernel.Registered a ↔ ¬ Displaced labels s.kernel a)

theorem pair_sublist_append_singleton {α : Type} {x y z : α} {xs : List α} :
    [x, y].Sublist (xs ++ [z]) ↔ [x, y].Sublist xs ∨ x ∈ xs ∧ y = z := by
  rw [List.sublist_append_iff]
  constructor
  · rintro ⟨ys, zs, heq, hys, hzs⟩
    rcases List.sublist_singleton.1 hzs with rfl | rfl
    · rw [heq, List.append_nil]
      exact .inl hys
    · obtain ⟨hx, hy⟩ : [x] = ys ∧ [y] = [z] := List.append_inj' heq rfl
      exact .inr ⟨List.singleton_sublist.1 (hx ▸ hys), List.head_eq_of_cons_eq hy⟩
  · rintro (h | ⟨hx, rfl⟩)
    · exact ⟨_, [], (List.append_nil _).symm, h, List.nil_sublist _⟩
    · exact ⟨[x], [y], rfl, List.singleton_sublist.2 hx, List.Sublist.refl _⟩

namespace Placed

/-- A process whose fork is under way or has succeeded is the child of a fork that has begun. -/
theorem exists_begun (h : Placed labels s) (hforked : ¬ Unforked labels s a) :
    ∃ parent, .forkBegun parent a ∈ labels := by
  apply Classical.byContradiction
  intro hnone
  refine hforked ⟨fun f hf hchild => hnone ⟨f.parent, hchild ▸ h.forks f hf⟩, fun parent hmem => ?_⟩
  exact hnone ⟨parent, h.forked parent a hmem⟩

theorem displaced_append (h : Placed labels s) (hafter : Kernel.After s.kernel k')
    (ha : a < s.kernel.records.size) (hl : ∀ b, l.Clears b → b < s.kernel.records.size) :
    Displaced (labels ++ [l]) k' a ↔ Displaced labels s.kernel a ∨
      (∃ parent, .forkBegun parent a ∈ labels) ∧
        ∃ b, l.Clears b ∧ b ≠ a ∧ (s.kernel.process b).pid = (s.kernel.process a).pid := by
  have hpid {b : ProcessId} (hb : b < s.kernel.records.size) :
      (k'.process b).pid = (k'.process a).pid ↔
        (s.kernel.process b).pid = (s.kernel.process a).pid := by
    rw [hafter.pid a ha, hafter.pid b hb]
  constructor
  · rintro ⟨parent, l', b, hsub, hclears, hne, hsame⟩
    rcases pair_sublist_append_singleton.1 hsub with hsub | ⟨hmem, rfl⟩
    · have hb := h.cleared_lt l' (hsub.subset (by simp)) b hclears
      exact .inl ⟨parent, l', b, hsub, hclears, hne, (hpid hb).1 hsame⟩
    · exact .inr ⟨⟨parent, hmem⟩, b, hclears, hne, (hpid (hl b hclears)).1 hsame⟩
  · rintro (⟨parent, l', b, hsub, hclears, hne, hsame⟩ | ⟨⟨parent, hmem⟩, b, hclears, hne, hsame⟩)
    · have hb := h.cleared_lt l' (hsub.subset (by simp)) b hclears
      exact ⟨parent, l', b, pair_sublist_append_singleton.2 (.inl hsub), hclears, hne,
        (hpid hb).2 hsame⟩
    · exact ⟨parent, l, b, pair_sublist_append_singleton.2 (.inr ⟨hmem, rfl⟩), hclears, hne,
        (hpid (hl b hclears)).2 hsame⟩

theorem registered_step (h : Placed labels s) (hs : s.Sound) (hstep : Step S s l s')
    {parent : ProcessId} (hbegun : .forkBegun parent a ∈ labels)
    (hstate : (s'.kernel.process a).state ≠ .reaped) :
    s'.kernel.Registered a ↔ ¬ Displaced (labels ++ [l]) s'.kernel a := by
  have ha := h.begun_lt parent a hbegun
  have hchange := hstep.change hs
  have hold := h.registered parent a hbegun (hchange.live ha hstate)
  rw [h.displaced_append hchange.after ha fun b hl => (hchange.cleared hl).1, not_or, ← hold]
  constructor
  · intro hreg
    refine ⟨hchange.after.registered ha hreg, ?_⟩
    rintro ⟨-, b, hclears, -, hsame⟩
    obtain ⟨-, hfree⟩ := hchange.cleared hclears
    rw [Kernel.Registered, hchange.after.pid a ha, ← hsame, hfree] at hreg
    cases hreg
  · rintro ⟨hreg, hnot⟩
    exact hchange.registered hreg ha hstate fun b hclears hne hsame =>
      hnot ⟨⟨parent, hbegun⟩, b, hclears, hne, hsame⟩

/-- The child of a fork that begins is registered, and nothing is known of it before. -/
theorem registered_begun (h : Placed labels s) (hs : s.Sound) {parent : ProcessId}
    (hstep : Step S s (.forkBegun parent a) s') :
    a = s.kernel.records.size ∧ a < s'.kernel.records.size ∧
      (s'.kernel.Registered a ↔ ¬ Displaced (labels ++ [.forkBegun parent a]) s'.kernel a) := by
  have heffect := hstep.effect hs
  generalize s'.kernel = k' at heffect
  cases heffect with
  | forkBegun _ hmade =>
    refine ⟨rfl, hmade.lt_size, iff_of_true ?_ ?_⟩
    · rw [Kernel.Registered, hmade.pid_eq, hmade.born.table, if_pos rfl]
    · rintro ⟨parent', l, b, hsub, hclears, -⟩
      rcases pair_sublist_append_singleton.1 hsub with hsub | ⟨-, rfl⟩
      · exact Nat.lt_irrefl _ (h.begun_lt parent' _ (hsub.subset (List.mem_cons_self ..)))
      · exact hclears

theorem step (h : Placed labels s) (hs : s.Sound) (hstep : Step S s l s') :
    Placed (labels ++ [l]) s' := by
  have hchange := hstep.change hs
  have hsize := hchange.after.size_le
  refine ⟨fun parent a hmem => ?_, fun l' hmem b hclears => ?_, fun f hf => ?_,
    fun parent a hmem => ?_, fun parent a hmem hstate => ?_⟩
  · rcases List.mem_append.1 hmem with hmem | hmem
    · exact Nat.lt_of_lt_of_le (h.begun_lt parent a hmem) hsize
    · obtain rfl := List.mem_singleton.1 hmem
      exact (h.registered_begun hs hstep).2.1
  · apply Nat.lt_of_lt_of_le _ hsize
    rcases List.mem_append.1 hmem with hmem | hmem
    · exact h.cleared_lt l' hmem b hclears
    · obtain rfl := List.mem_singleton.1 hmem
      exact (hchange.cleared hclears).1
  · rcases hstep.forks_cases with ⟨heq, -⟩ | ⟨g, -, heq, -⟩ | ⟨parent, pid, heq, -, rfl⟩ <;>
      rw [heq] at hf
    · exact List.mem_append_left _ (h.forks f hf)
    · exact List.mem_append_left _ (h.forks f (List.mem_of_mem_erase hf))
    · rcases List.mem_cons.1 hf with rfl | hf
      · exact List.mem_append_right _ (List.mem_singleton.2 rfl)
      · exact List.mem_append_left _ (h.forks f hf)
  · apply List.mem_append_left
    rcases List.mem_append.1 hmem with hmem | hmem
    · exact h.forked parent a hmem
    · obtain rfl := List.mem_singleton.1 hmem
      rcases hstep.forks_cases with ⟨-, hnone⟩ | ⟨f, hf, -, hl | hl⟩ | ⟨_, _, _, _, hl⟩
      · exact (hnone a rfl).elim
      · obtain ⟨rfl, rfl⟩ := Label.forked.inj hl
        exact h.forks f hf
      · cases hl
      · cases hl
  · rcases List.mem_append.1 hmem with hmem | hmem
    · exact h.registered_step hs hstep hmem hstate
    · obtain rfl := List.mem_singleton.1 hmem
      exact (h.registered_begun hs hstep).2.2

end Placed

end UnixCore
