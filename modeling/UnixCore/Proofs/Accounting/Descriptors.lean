import UnixCore.Proofs.Accounting.Shared
import UnixCore.Proofs.Descriptor.Effects
import UnixCore.Proofs.Descriptor.Linear
import UnixCore.Proofs.System.Basic

/-! The descriptor operations keep the books. A table holds the files in its slots; the holdings of
everyone else are a rest that no operation changes. -/

namespace UnixCore

variable {W α β : Type} {S : Services W} {past : Shared (W × Ledger)} {rest : Holdings}

/-! ### What is shared -/

namespace Shared

/-- However the computation ends, balanced books stay balanced with the same holdings. -/
def KeepsBooks (act : Action (Shared (W × Ledger)) α) : Prop :=
  ∀ past sh h, Balanced past sh h →
    act.Ensures sh (fun _ sh' => Balanced past sh' h) fun _ sh' => Balanced past sh' h

theorem keepsBooks_pure (a : α) : KeepsBooks (pure a : Action (Shared (W × Ledger)) α) :=
  fun _ _ _ hb => hb

theorem keepsBooks_throw (e : Errno) : KeepsBooks (throw e : Action (Shared (W × Ledger)) α) :=
  fun _ _ _ hb => hb

theorem KeepsBooks.bind {x : Action (Shared (W × Ledger)) β}
    {f : β → Action (Shared (W × Ledger)) α} (hx : KeepsBooks x) (hf : ∀ b, KeepsBooks (f b)) :
    KeepsBooks (x >>= f) := by
  intro past sh h hb
  rw [Action.ensures_bind]
  exact (hx past sh h hb).mono (fun b sh' hb' => hf b past sh' h hb') fun _ _ hb' => hb'

theorem keepsBooks_get : KeepsBooks (get : Action (Shared (W × Ledger)) _) := fun _ _ _ hb => hb

theorem keepsBooks_ofExcept (r : Except Errno α) :
    KeepsBooks (Action.ofExcept r : Action (Shared (W × Ledger)) α) := by
  cases r with
  | ok a => exact keepsBooks_pure a
  | error e => exact keepsBooks_throw e

theorem keepsBooks_onWorld {act : Action (W × Ledger) α}
    (hact : ∀ w, act.Ensures w (fun _ w' => w'.2 = w.2) fun _ w' => w'.2 = w.2) :
    KeepsBooks (onWorld act) := by
  intro past sh h hb
  rw [onWorld, Action.ensures_onPart]
  exact (hact sh.world).mono (fun _ _ hw => hb.keepLedger hw) fun _ _ hw => hb.keepLedger hw

theorem keepsBooks_modifyFile (id : Nat) {f : OpenFile → OpenFile}
    (hf : ∀ file, (f file).vnode = file.vnode) :
    KeepsBooks (modify fun sh => { sh with files := sh.files.modify id f } :
      Action (Shared (W × Ledger)) Unit) :=
  fun _ _ _ hb => hb.modifyFile hf

theorem keepsBooks_startOffset (v : Vnode) (append : Bool) :
    KeepsBooks (startOffset S.audited v append) := by
  unfold startOffset
  cases append with
  | false => exact keepsBooks_pure _
  | true =>
    exact (keepsBooks_onWorld fun _ => Services.ensures_stat).bind fun _ => keepsBooks_pure _

theorem ensures_openFile {sh : Shared (W × Ledger)} {path : String} {flags : OpenFlags}
    (hb : Balanced past sh rest) :
    (openFile S.audited path flags).Ensures sh (fun id sh' => Balanced past sh' (.ofFile id + rest))
      fun _ sh' => Balanced past sh' rest := by
  rw [openFile, Action.ensures_bind, onWorld, Action.ensures_onPart]
  refine Services.ensures_openPath.mono (fun v w hw => ?_) fun _ w hw => hb.keepLedger hw
  rw [Action.ensures_bind, Action.ensures_outcome]
  refine (keepsBooks_startOffset v _ _ _ _ (hb.hand hw)).mono (fun offset sh' hb' => ?_)
    fun _ sh' hb' => ?_
  · simp only [Action.ensures_bind, Action.ensures_get, Action.ensures_modify, Action.ensures_pure]
    exact hb'.insertFile
  · simp only [Action.ensures_bind, Action.ensures_modify, Action.ensures_throw]
    exact hb'.release

theorem keepsBooks_read (id count : Nat) : KeepsBooks (read S.audited id count) := by
  apply keepsBooks_get.bind
  intro sh
  cases sh.files.get? id with
  | none => exact keepsBooks_throw _
  | some file =>
    dsimp only
    split
    · refine (keepsBooks_onWorld fun _ => Services.ensures_readAt).bind fun bytes => ?_
      refine KeepsBooks.bind ?_ fun _ => keepsBooks_pure _
      exact keepsBooks_modifyFile id fun _ => rfl
    · exact keepsBooks_throw _

theorem keepsBooks_write (id : Nat) (bytes : List UInt8) :
    KeepsBooks (write S.audited id bytes) := by
  apply keepsBooks_get.bind
  intro sh
  cases sh.files.get? id with
  | none => exact keepsBooks_throw _
  | some file =>
    dsimp only
    split
    · refine (keepsBooks_onWorld fun _ => Services.ensures_writeAt).bind fun count => ?_
      refine KeepsBooks.bind ?_ fun _ => keepsBooks_pure _
      exact keepsBooks_modifyFile id fun _ => rfl
    · exact keepsBooks_throw _

theorem keepsBooks_seek (id : Nat) (pos : Int64) (whence : Whence) :
    KeepsBooks (seek S.audited id pos whence) := by
  apply keepsBooks_get.bind
  intro sh
  cases sh.files.get? id with
  | none => exact keepsBooks_throw _
  | some file =>
    apply keepsBooks_get.bind
    intro sh
    split
    · have hbase : KeepsBooks (seekBase S.audited file whence) := by
        cases whence with
        | start => exact keepsBooks_pure _
        | current => exact keepsBooks_pure _
        | fileEnd =>
          exact (keepsBooks_onWorld fun _ => Services.ensures_stat).bind fun _ => keepsBooks_pure _
      refine hbase.bind fun base => (keepsBooks_ofExcept _).bind fun target => ?_
      refine KeepsBooks.bind ?_ fun _ => keepsBooks_pure _
      exact keepsBooks_modifyFile id fun _ => rfl
    · exact keepsBooks_throw _

theorem balanced_dropFiles {sh : Shared (W × Ledger)} {ids : List FileId}
    (hb : Balanced past sh (.ofFiles ids + rest)) :
    Balanced past (ids.foldl (fun sh id => sh.dropFile S.audited id) sh) rest := by
  induction ids generalizing sh with
  | nil => simpa [Holdings.ofFiles_nil] using hb
  | cons id ids ih =>
    rw [Holdings.ofFiles_cons, add_assoc] at hb
    exact ih hb.dropFile

theorem balanced_retainFiles {sh : Shared (W × Ledger)} {ids : List FileId}
    (hb : Balanced past sh rest) (hids : ∀ id ∈ ids, id ∈ rest.files) :
    Balanced past (sh.retainFiles ids) (.ofFiles ids + rest) := by
  induction ids generalizing sh rest with
  | nil =>
    rw [Holdings.ofFiles_nil, zero_add]
    exact hb
  | cons id ids ih =>
    have hnext := hb.retainFile (hids id List.mem_cons_self)
    have hall := ih hnext fun i hi => Multiset.mem_add.2 (.inr (hids i (List.mem_cons_of_mem _ hi)))
    rwa [← add_assoc, add_comm (Holdings.ofFiles ids), ← Holdings.ofFiles_cons] at hall

end Shared

/-! ### Tables -/

theorem DescriptorTable.mem_held_of_get? {t : DescriptorTable} {fd : Nat} {file : FileId}
    (h : t.get? fd = some file) : file ∈ t.held := by
  rw [get?, Option.join_eq_some_iff] at h
  exact List.mem_filterMap.2 ⟨some file, by
    simpa using Array.mem_of_getElem? h, rfl⟩

namespace Holdings

def ofSlot (slot : Option FileId) : Holdings := slot.elim 0 ofFile

theorem ofFiles_set (slots : List (Option FileId)) (i : Nat) (hi : i < slots.length)
    (slot : Option FileId) :
    ofSlot slots[i] + ofFiles ((slots.set i slot).filterMap id) =
      ofSlot slot + ofFiles (slots.filterMap id) := by
  have hcons (x : Option FileId) (xs : List (Option FileId)) :
      ofFiles ((x :: xs).filterMap id) = ofSlot x + ofFiles (xs.filterMap id) := by
    cases x with
    | none => exact (zero_add _).symm
    | some x => exact ofFiles_cons x _
  induction slots generalizing i with
  | nil => exact absurd hi (Nat.not_lt_zero i)
  | cons x xs ih =>
    cases i with
    | zero =>
      rw [List.set_cons_zero, hcons, hcons, List.getElem_cons_zero]
      exact add_left_comm _ _ _
    | succ i =>
      rw [List.set_cons_succ, hcons, hcons, List.getElem_cons_succ, add_left_comm,
        ih i (by simpa using hi), add_left_comm]

end Holdings

namespace DescriptorTable

variable {t t' : DescriptorTable} {fd : Nat} {file : FileId}

theorem ofFiles_held_setIfInBounds (free : Array (BitVec 64)) (slot : Option FileId)
    (h : fd < t.capacity) :
    Holdings.ofSlot (t.get? fd) + .ofFiles (mk (t.slots.setIfInBounds fd slot) free).held =
      .ofSlot slot + .ofFiles t.held := by
  have hget : t.get? fd = t.slots.toList.get ⟨fd, by rw [Array.length_toList]; exact h⟩ := by
    rw [get?, Array.getElem?_eq_getElem h]
    rfl
  rw [hget, held, Array.toList_setIfInBounds]
  exact Holdings.ofFiles_set _ _ _ _

theorem Exact.ofFiles_alloc (ht : t.Exact) (h : t.alloc file = some (fd, t')) :
    Holdings.ofFiles t'.held = .ofFile file + .ofFiles t.held := by
  obtain ⟨n, hn, heq⟩ := Option.map_eq_some_iff.1 h
  obtain ⟨-, rfl⟩ := Prod.mk.inj heq
  have hfree := (ht.lowestFree_eq_some_iff.1 hn).2.1
  have := ofFiles_held_setIfInBounds (markUsed t.free n) (some file) hfree.1
  rw [hfree.2] at this
  exact (zero_add _).symm.trans this

theorem ofFiles_install {previous : Option FileId} (h : t.install fd file = some (previous, t')) :
    Holdings.ofSlot previous + .ofFiles t'.held = .ofFile file + .ofFiles t.held := by
  unfold install at h
  split at h
  case isTrue hlt =>
    obtain ⟨rfl, rfl⟩ := Prod.mk.inj (Option.some.inj h)
    exact ofFiles_held_setIfInBounds _ (some file) hlt
  case isFalse => cases h

theorem ofFiles_take (h : t.take fd = some (file, t')) :
    Holdings.ofFiles t.held = .ofFile file + .ofFiles t'.held := by
  obtain ⟨n, hn, heq⟩ := Option.map_eq_some_iff.1 h
  obtain ⟨rfl, rfl⟩ := Prod.mk.inj heq
  have := ofFiles_held_setIfInBounds (markFree t.free fd) none (lt_of_get? hn)
  rw [hn] at this
  exact ((zero_add _).symm.trans this.symm)

theorem held_clear (t : DescriptorTable) : t.clear.held = [] := by
  rw [← held_linear, DescriptorTable.linear_clear, LinearTable.clear, LinearTable.held,
    LinearTable.empty]
  simp

end DescriptorTable

/-! ### Operations on a table -/

/-- The books of a table and of what is shared: the table is exact, and its files and the holdings
of all others are on balance. -/
structure Descriptors.Booked (past : Shared (W × Ledger)) (rest : Holdings)
    (d : Descriptors (W × Ledger)) : Prop where
  exact : d.table.Exact
  balanced : Balanced past d.shared (.ofFiles d.table.held + rest)

namespace Descriptors

variable {d : Descriptors (W × Ledger)} {id : FileId}

namespace Booked

theorem setShared (h : Booked past rest d) {rest' : Holdings} {sh : Shared (W × Ledger)}
    (hb : Balanced past sh (.ofFiles d.table.held + rest')) :
    Booked past rest' { d with shared := sh } :=
  ⟨h.exact, hb⟩

theorem report (h : Booked past rest d) (e : Event) :
    Booked past rest { d with shared := d.shared.report e } :=
  h.setShared (h.balanced.report e)

theorem drop (h : Booked past (.ofFile id + rest) d) :
    Booked past rest { d with shared := d.shared.dropFile S.audited id } := by
  refine h.setShared (Balanced.dropFile ?_)
  rw [add_left_comm]
  exact h.balanced

theorem retain (h : Booked past rest d) {fd : Nat} (hid : d.table.get? fd = some id) :
    Booked past (.ofFile id + rest)
      { d with shared := { d.shared with files := d.shared.files.retain id } } := by
  apply h.setShared
  rw [add_left_comm]
  refine h.balanced.retainFile (Multiset.mem_add.2 (.inl ?_))
  exact Multiset.mem_coe.2 (DescriptorTable.mem_held_of_get? hid)

theorem dropSlot {slot : Option FileId} (h : Booked past (.ofSlot slot + rest) d) :
    Booked past rest { d with
      shared := slot.elim d.shared fun id => d.shared.dropFile S.audited id } := by
  cases slot with
  | none =>
    have := h.balanced
    rw [Holdings.ofSlot, Option.elim_none, zero_add] at this
    exact ⟨h.exact, this⟩
  | some id => exact h.drop

end Booked

/-- However the operation ends, the books of any table stay right with the same holdings of
others. -/
def KeepsBooks (act : Action (Descriptors (W × Ledger)) α) : Prop :=
  ∀ past d rest, Booked past rest d →
    act.Ensures d (fun _ d' => Booked past rest d') fun _ d' => Booked past rest d'

theorem ensures_onShared_openFile {path : String} {flags : OpenFlags} (h : Booked past rest d) :
    (onShared (Shared.openFile S.audited path flags)).Ensures d
      (fun id d' => Booked past (.ofFile id + rest) d') fun _ d' => Booked past rest d' := by
  rw [ensures_onShared]
  refine (Shared.ensures_openFile h.balanced).mono (fun id sh hb => ?_) fun _ _ hb => h.setShared hb
  rw [add_left_comm] at hb
  exact h.setShared hb

theorem ensures_alloc_booked (h : Booked past (.ofFile id + rest) d) :
    (alloc S.audited id).Ensures d (fun _ d' => Booked past rest d')
      fun _ d' => Booked past rest d' := by
  refine ensures_alloc.2 ⟨fun fd table halloc => ⟨h.exact.alloc halloc, ?_⟩, fun _ => h.drop⟩
  have hb := h.balanced
  rw [← add_assoc, add_comm (Holdings.ofFiles _)] at hb
  rwa [h.exact.ofFiles_alloc halloc]

theorem ensures_install_booked {fd : Nat} (h : Booked past (.ofFile id + rest) d) :
    (install S.audited fd id).Ensures d
      (fun previous d' => Booked past (.ofSlot previous + rest) d')
      fun _ d' => Booked past rest d' := by
  refine ensures_install.2
    ⟨fun previous table hinstall => ⟨h.exact.install hinstall, ?_⟩, fun _ => h.drop⟩
  have hb := h.balanced
  rw [← add_assoc, add_comm (Holdings.ofFiles _)] at hb
  rwa [← add_assoc, add_comm (Holdings.ofFiles table.held),
    DescriptorTable.ofFiles_install hinstall]

theorem ensures_take_booked {fd : Nat} (h : Booked past rest d) :
    (take fd).Ensures d (fun id d' => Booked past (.ofFile id + rest) d')
      fun _ d' => Booked past rest d' := by
  refine ensures_take.2 ⟨fun id table htake => ⟨h.exact.take htake, ?_⟩, fun _ => h⟩
  have hb := h.balanced
  rwa [DescriptorTable.ofFiles_take htake, add_assoc, add_left_comm] at hb

theorem keepsBooks_attachStream (fd : Nat) (flags : OpenFlags) :
    KeepsBooks (attachStream S.audited fd flags) := by
  intro past d rest h
  rw [attachStream, Action.ensures_bind]
  refine (ensures_onShared_openFile h).mono (fun id d₁ h₁ => ?_) fun _ _ h₁ => h₁
  rw [Action.ensures_bind]
  refine (ensures_install_booked h₁).mono (fun previous d₂ h₂ => ?_) fun _ _ h₂ => h₂
  exact ensures_dropDisplaced.2 h₂.dropSlot

theorem KeepsBooks.bind {x : Action (Descriptors (W × Ledger)) β}
    {f : β → Action (Descriptors (W × Ledger)) α} (hx : KeepsBooks x)
    (hf : ∀ b, KeepsBooks (f b)) : KeepsBooks (x >>= f) := by
  intro past d rest h
  rw [Action.ensures_bind]
  exact (hx past d rest h).mono (fun b d' h' => hf b past d' rest h') fun _ _ h' => h'

theorem keepsBooks_report (e : Event) :
    KeepsBooks (report e : Action (Descriptors (W × Ledger)) _) :=
  fun _ _ _ h => h.report e

theorem keepsBooks_attachStreams :
    KeepsBooks (attachStreams S.audited : Action (Descriptors (W × Ledger)) Unit) := by
  refine (keepsBooks_attachStream 0 _).bind fun _ => ?_
  refine (keepsBooks_attachStream 1 _).bind fun _ => ?_
  exact (keepsBooks_attachStream 2 _).bind fun _ => keepsBooks_report _

theorem keepsBooks_pure (a : α) : KeepsBooks (pure a : Action (Descriptors (W × Ledger)) α) :=
  fun _ _ _ h => h

theorem keepsBooks_ofExcept (r : Except Errno α) :
    KeepsBooks (Action.ofExcept r : Action (Descriptors (W × Ledger)) α) := by
  cases r with
  | ok a => exact fun _ _ _ h => h
  | error e => exact fun _ _ _ h => h

theorem keepsBooks_lookup (fd : Nat) :
    KeepsBooks (lookup fd : Action (Descriptors (W × Ledger)) FileId) :=
  fun _ _ _ h => ensures_lookup.2 ⟨fun _ _ => h, fun _ => h⟩

theorem keepsBooks_onShared {act : Action (Shared (W × Ledger)) α} (hact : Shared.KeepsBooks act) :
    KeepsBooks (onShared act) := by
  intro past d rest h
  rw [ensures_onShared]
  exact (hact _ _ _ h.balanced).mono (fun _ _ hb => h.setShared hb) fun _ _ hb => h.setShared hb

theorem keepsBooks_openPath (path : String) (raw : UInt32) :
    KeepsBooks (openPath S.audited path raw) := by
  apply (keepsBooks_ofExcept _).bind
  intro flags past d rest h
  rw [Action.ensures_bind]
  refine (ensures_onShared_openFile h).mono (fun id d₁ h₁ => ?_) fun _ _ h₁ => h₁
  rw [Action.ensures_bind]
  refine (ensures_alloc_booked h₁).mono (fun fd d₂ h₂ => ?_) fun _ _ h₂ => h₂
  exact h₂.report _

theorem keepsBooks_read (fd count : Nat) : KeepsBooks (read S.audited fd count) := by
  apply (keepsBooks_lookup fd).bind
  intro id
  apply (keepsBooks_onShared (Shared.keepsBooks_read id count)).bind
  intro bytes
  exact (keepsBooks_report _).bind fun _ => keepsBooks_pure _

theorem keepsBooks_write (fd : Nat) (bytes : List UInt8) :
    KeepsBooks (write S.audited fd bytes) := by
  apply (keepsBooks_lookup fd).bind
  intro id
  apply (keepsBooks_onShared (Shared.keepsBooks_write id bytes)).bind
  intro count
  exact (keepsBooks_report _).bind fun _ => keepsBooks_pure _

theorem keepsBooks_seek (fd : Nat) (pos : Int64) (whence : Int32) :
    KeepsBooks (seek S.audited fd pos whence) := by
  refine (keepsBooks_lookup fd).bind fun id => (keepsBooks_ofExcept _).bind fun whence => ?_
  exact keepsBooks_onShared (Shared.keepsBooks_seek id pos whence)

theorem keepsBooks_close (fd : Nat) : KeepsBooks (close S.audited fd) := by
  intro past d rest h
  rw [close, Action.ensures_bind]
  refine (ensures_take_booked h).mono (fun id d' h' => ?_) fun _ _ h' => h'
  simp only [Action.ensures_bind, Action.ensures_get, ensures_report, ensures_drop]
  exact (h'.report _).drop

theorem keepsBooks_duplicate (old new : Nat) : KeepsBooks (duplicate S.audited old new) := by
  intro past d rest h
  rw [duplicate, Action.ensures_bind, Action.ensures_get]
  split
  case isTrue => exact h
  case isFalse =>
    rw [Action.ensures_bind]
    refine ensures_lookup.2 ⟨fun id hid => ?_, fun _ => h⟩
    by_cases heq : old = new
    · rw [if_pos heq]
      exact h
    · rw [if_neg heq, Action.ensures_bind, ensures_retain, Action.ensures_bind]
      refine (ensures_install_booked (h.retain hid)).mono (fun previous d' h' => ?_)
        fun _ _ h' => h'
      have hdrop := h'.dropSlot (S := S)
      cases previous with
      | none => exact hdrop.report _
      | some displaced => exact hdrop.report _

/-- Every descriptor operation keeps the books. -/
theorem keepsBooks_call (call : DescriptorCall) : KeepsBooks (call.action S.audited) := by
  have hmap {α : Type} {act : Action (Descriptors (W × Ledger)) α} (hact : KeepsBooks act) :
      KeepsBooks ((fun _ => ()) <$> act) :=
    fun past d rest h => Action.ensures_map.2 (hact past d rest h)
  cases call with
  | openPath path flags => exact hmap (keepsBooks_openPath path flags)
  | read fd count => exact hmap (keepsBooks_read fd count)
  | write fd bytes => exact hmap (keepsBooks_write fd bytes)
  | seek fd pos whence => exact hmap (keepsBooks_seek fd pos whence)
  | close fd => exact keepsBooks_close fd
  | duplicate old new => exact hmap (keepsBooks_duplicate old new)

theorem Booked.clear (h : Booked past rest d) :
    (Descriptors.clear S.audited d).table.Exact ∧
      (Descriptors.clear S.audited d).table.held = [] ∧
      Balanced past (Descriptors.clear S.audited d).shared rest :=
  ⟨h.exact.clear, DescriptorTable.held_clear _, Shared.balanced_dropFiles h.balanced⟩

theorem keepsBooks_clear :
    KeepsBooks (modify (clear S.audited) : Action (Descriptors (W × Ledger)) PUnit) := by
  intro past d rest h
  obtain ⟨hexact, hheld, hb⟩ := h.clear (S := S)
  refine ⟨hexact, ?_⟩
  rw [hheld, Holdings.ofFiles_nil, zero_add]
  exact hb

end Descriptors

end UnixCore
