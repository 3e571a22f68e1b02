import Mathlib.Logic.Relation
import UnixCore.Action

/-! What holds after a computation that may fail: one condition on success and one on failure, and
how they pass through the ways of building computations. -/

namespace UnixCore.Action

variable {σ τ α β : Type}

/-- After a success `ok` holds of the result and the state, after a failure `error` holds of the
error and the state. -/
def Ensures (act : Action σ α) (s : σ) (ok : α → σ → Prop) (error : Errno → σ → Prop) : Prop :=
  match act s with
  | .ok a t => ok a t
  | .error e t => error e t

variable {act : Action σ α} {s : σ} {ok : α → σ → Prop} {error : Errno → σ → Prop}

theorem Ensures.mono {ok' : α → σ → Prop} {error' : Errno → σ → Prop}
    (h : act.Ensures s ok error) (hok : ∀ a t, ok a t → ok' a t)
    (herror : ∀ e t, error e t → error' e t) : act.Ensures s ok' error' := by
  unfold Ensures at *
  split
  case h_1 a t hact => exact hok a t (by simpa only [hact] using h)
  case h_2 e t hact => exact herror e t (by simpa only [hact] using h)

theorem Ensures.of_ok {a : α} {t : σ} (h : act.Ensures s ok error) (hact : act s = .ok a t) :
    ok a t := by
  simpa only [Ensures, hact] using h

theorem Ensures.of_error {e : Errno} {t : σ} (h : act.Ensures s ok error)
    (hact : act s = .error e t) : error e t := by
  simpa only [Ensures, hact] using h

theorem Ensures.of_result {r : Except Errno α} {t : σ} (h : act.Ensures s ok error)
    (hact : act.result s = (r, t)) :
    match r with
    | .ok a => ok a t
    | .error e => error e t := by
  unfold Action.result at hact
  split at hact <;> cases hact
  case h_1 heq => exact h.of_ok heq
  case h_2 heq => exact h.of_error heq

theorem Ensures.result {P : σ → Prop} {r : Except Errno α} {t : σ}
    (h : act.Ensures s (fun _ t => P t) fun _ t => P t) (hact : act.result s = (r, t)) : P t := by
  cases r with
  | ok a => exact h.of_result hact
  | error e => exact h.of_result hact

theorem Ensures.exists_ok (h : act.Ensures s ok fun _ _ => False) :
    ∃ a t, act s = .ok a t ∧ ok a t := by
  cases hact : act s with
  | ok a t => exact ⟨a, t, rfl, h.of_ok hact⟩
  | error e t => exact (h.of_error hact).elim

theorem Ensures.exists_error (h : act.Ensures s (fun _ _ => False) error) :
    ∃ e t, act s = .error e t ∧ error e t := by
  cases hact : act s with
  | ok a t => exact (h.of_ok hact).elim
  | error e t => exact ⟨e, t, rfl, h.of_error hact⟩

theorem ensures_iff : act.Ensures s ok error ↔
    (∀ a t, act s = .ok a t → ok a t) ∧ ∀ e t, act s = .error e t → error e t := by
  unfold Ensures
  cases act s <;> simp

theorem Ensures.and {ok' : α → σ → Prop} {error' : Errno → σ → Prop}
    (h : act.Ensures s ok error) (h' : act.Ensures s ok' error') :
    act.Ensures s (fun a t => ok a t ∧ ok' a t) fun e t => error e t ∧ error' e t :=
  ensures_iff.2 ⟨fun _ _ hact => ⟨h.of_ok hact, h'.of_ok hact⟩,
    fun _ _ hact => ⟨h.of_error hact, h'.of_error hact⟩⟩

theorem ensures_of_ok {a : α} {t : σ} (h : act s = .ok a t) :
    act.Ensures s ok error ↔ ok a t := by
  rw [Ensures, h]

theorem ensures_of_error {e : Errno} {t : σ} (h : act s = .error e t) :
    act.Ensures s ok error ↔ error e t := by
  rw [Ensures, h]

theorem Ensures.run {P : EStateM.Result Errno σ α → Prop}
    (h : act.Ensures s (fun a t => P (.ok a t)) fun e t => P (.error e t)) : P (act s) := by
  unfold Ensures at h
  cases hact : act s <;> simpa only [hact] using h

theorem eq_ok_iff {a : α} {t : σ} :
    act s = .ok a t ↔ act.Ensures s (fun b u => b = a ∧ u = t) fun _ _ => False := by
  unfold Ensures
  cases act s <;> simp

theorem eq_error_iff {e : Errno} {t : σ} :
    act s = .error e t ↔ act.Ensures s (fun _ _ => False) fun f u => f = e ∧ u = t := by
  unfold Ensures
  cases act s <;> simp

theorem result_eq_iff {r : Except Errno α} {t : σ} :
    act.result s = (r, t) ↔
      act.Ensures s (fun a u => .ok a = r ∧ u = t) fun e u => .error e = r ∧ u = t := by
  unfold Ensures result
  cases act s <;> exact Prod.ext_iff

theorem result_eq_ok {a : α} (h : (act.result s).1.toOption = some a) :
    act.result s = (.ok a, (act.result s).2) := by
  cases hresult : (act.result s).1 with
  | ok b =>
    rw [hresult] at h
    cases h
    exact Prod.ext hresult rfl
  | error e =>
    rw [hresult] at h
    cases h

theorem result_of_ok {a : α} {t : σ} (h : act s = .ok a t) : act.result s = (.ok a, t) := by
  rw [result, h]

theorem result_of_error {e : Errno} {t : σ} (h : act s = .error e t) :
    act.result s = (.error e, t) := by
  rw [result, h]

theorem eq_ok_of_result {a : α} {t : σ} (h : act.result s = (.ok a, t)) : act s = .ok a t := by
  unfold result at h
  split at h <;> cases h
  assumption

/-- How a computation fails can be decided by running it. -/
theorem eq_error_of_result {e : Errno}
    (h : (match (act.result s).1 with | .ok _ => none | .error e => some e) = some e) :
    act s = .error e (act.result s).2 := by
  unfold result at *
  cases hact : act s with
  | ok a t =>
    rw [hact] at h
    cases h
  | error f t =>
    rw [hact] at h
    cases h
    rfl

/-! ### Evaluation -/

section

variable {f : α → Action σ β} {t : σ}

theorem bind_of_ok {a : α} (h : act s = .ok a t) : (act >>= f) s = f a t := by
  show EStateM.bind act f s = _
  rw [EStateM.bind, h]

theorem bind_of_error {e : Errno} (h : act s = .error e t) : (act >>= f) s = .error e t := by
  show EStateM.bind act f s = _
  rw [EStateM.bind, h]

theorem outcome_eq_ok : act.outcome s = .ok (act.result s).1 (act.result s).2 := by
  unfold outcome result
  cases act s <;> rfl

theorem get_bind {f : σ → Action σ α} : (get >>= f) s = f s s := rfl

theorem modifyGet_bind {g : σ → α × σ} : (modifyGet g >>= f) s = f (g s).1 (g s).2 := rfl

end

/-! ### The ways of building computations -/

theorem ensures_congr {act' : Action σ α} (h : act s = act' s) :
    act.Ensures s ok error ↔ act'.Ensures s ok error := by
  unfold Ensures
  rw [h]

theorem ensures_true : act.Ensures s (fun _ _ => True) (fun _ _ => True) :=
  ensures_iff.2 ⟨fun _ _ _ => trivial, fun _ _ _ => trivial⟩

@[simp] theorem ensures_pure {a : α} : (pure a : Action σ α).Ensures s ok error ↔ ok a s := Iff.rfl

@[simp] theorem ensures_throw {e : Errno} :
    (throw e : Action σ α).Ensures s ok error ↔ error e s := Iff.rfl

@[simp] theorem ensures_bind {x : Action σ β} {f : β → Action σ α} :
    (x >>= f).Ensures s ok error ↔ x.Ensures s (fun b t => (f b).Ensures t ok error) error := by
  show (match EStateM.bind x f s with | .ok a t => ok a t | .error e t => error e t) ↔
    match x s with | .ok b t => (f b).Ensures t ok error | .error e t => error e t
  rw [EStateM.bind]
  cases x s <;> rfl

@[simp] theorem ensures_map {x : Action σ β} {f : β → α} :
    (f <$> x).Ensures s ok error ↔ x.Ensures s (fun b t => ok (f b) t) error := by
  rw [map_eq_pure_bind, ensures_bind]
  rfl

@[simp] theorem ensures_get {ok : σ → σ → Prop} :
    (get : Action σ σ).Ensures s ok error ↔ ok s s := Iff.rfl

@[simp] theorem ensures_modify {f : σ → σ} {ok : PUnit → σ → Prop} :
    (modify f : Action σ PUnit).Ensures s ok error ↔ ok ⟨⟩ (f s) := Iff.rfl

theorem ensures_ofExcept {r : Except Errno α} :
    (ofExcept r).Ensures s ok error ↔
      (∀ a, r = .ok a → ok a s) ∧ ∀ e, r = .error e → error e s := by
  cases r <;> simp [Ensures]

@[simp] theorem ensures_outcome {ok : Except Errno α → σ → Prop} :
    act.outcome.Ensures s ok error ↔
      act.Ensures s (fun a t => ok (.ok a) t) fun e t => ok (.error e) t := by
  simp only [Ensures, outcome]
  cases act s <;> rfl

@[simp] theorem ensures_onPart {part : σ → τ} {put : τ → σ → σ} {act : Action τ α} :
    (onPart part put act).Ensures s ok error ↔
      act.Ensures (part s) (fun a t => ok a (put t s)) fun e t => error e (put t s) := by
  simp only [Ensures, onPart]
  cases act (part s) <;> rfl

theorem ensures_result :
    act.Ensures s (fun a t => act.result s = (.ok a, t))
      fun e t => act.result s = (.error e, t) := by
  unfold Ensures result
  cases act s <;> rfl

/-! ### Paths -/

/-- Whatever state it starts in and however it ends, the computation takes the part of the state
that is looked at along a path. -/
def Along (part : σ → τ) (R : τ → τ → Prop) (act : Action σ α) : Prop :=
  ∀ s, act.Ensures s (fun _ t => Relation.ReflTransGen R (part s) (part t))
    fun _ t => Relation.ReflTransGen R (part s) (part t)

variable {part : σ → τ} {R : τ → τ → Prop}

theorem along_pure (a : α) : (pure a : Action σ α).Along part R := fun _ => .refl

theorem along_throw (e : Errno) : (throw e : Action σ α).Along part R := fun _ => .refl

theorem along_get : (get : Action σ σ).Along part R := fun _ => .refl

theorem along_ofExcept (r : Except Errno α) : (ofExcept r : Action σ α).Along part R :=
  fun _ => ensures_ofExcept.2 ⟨fun _ _ => .refl, fun _ _ => .refl⟩

theorem along_modify {f : σ → σ} (h : ∀ s, Relation.ReflTransGen R (part s) (part (f s))) :
    (modify f : Action σ PUnit).Along part R := h

theorem Along.bind {x : Action σ β} {f : β → Action σ α} (hx : x.Along part R)
    (hf : ∀ b, (f b).Along part R) : (x >>= f).Along part R := by
  intro s
  rw [ensures_bind]
  refine (hx s).mono (fun b t h => ?_) fun _ _ h => h
  exact (hf b t).mono (fun _ _ h' => h.trans h') fun _ _ h' => h.trans h'

theorem Along.map {x : Action σ β} (hx : x.Along part R) (f : β → α) :
    (f <$> x).Along part R :=
  fun s => ensures_map.2 (hx s)

theorem Along.outcome (h : act.Along part R) : act.outcome.Along part R :=
  fun s => ensures_outcome.2 (h s)

end UnixCore.Action
