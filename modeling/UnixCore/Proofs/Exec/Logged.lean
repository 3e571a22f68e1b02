import UnixCore.Proofs.Exec.Walk

/-! Copying an argument vector out of any user memory, with a log of what is read and of what is
left of the limit each time a string is begun. The memory may answer each read as it likes, so a
pointer array may go on for ever and strings may lie over one another; what bounds the copy is the
limit alone. The log is complete: memory that answers the logged reads in the same way gives the
same result, whatever else stands in it. -/

namespace UnixCore

/-! ### The log -/

/-- What the copy of an argument vector asks of user memory, and what it computes on the way. -/
inductive CopyEvent
  | word (slot : UserAddr)
  | byte (src : UserAddr)
  /-- What the strings so far have left of the limit. -/
  | budget (left : Int)
  deriving DecidableEq, Repr

namespace CopyEvent

def isWord : CopyEvent → Bool
  | word _ => true
  | _ => false

def isByte : CopyEvent → Bool
  | byte _ => true
  | _ => false

end CopyEvent

/-- The computation with a log. -/
abbrev Logged (α : Type) := Action (List CopyEvent) α

namespace Logged

def note (event : CopyEvent) : Logged Unit := modify (· ++ [event])

variable {M : Type} [UserMemory M]

def copyInStrFrom (m : M) (src : UserAddr) (got : Array UInt8) :
    (left : Nat) → Logged (List UInt8)
  | 0 => throw .nameTooLong
  | left + 1 => do
    let place ← Action.ofExcept (src.add got.size)
    note (.byte place)
    let byte := (← Action.ofExcept (UserMemory.copyIn m place 1)).get ⟨0, Nat.one_pos⟩
    if byte = 0 then
      return got.toList
    else
      copyInStrFrom m src (got.push byte) left

def copyInStr (m : M) (src : UserAddr) (max : Nat) : Logged (List UInt8) :=
  if src.isNull then throw .badAddress else copyInStrFrom m src #[] max

def copyInFrom (m : M) (argv : UserAddr) (argMax : Nat) (got : Array (List UInt8))
    (total : Nat) : Logged ArgVector := do
  let slot ← Action.ofExcept (argv.add (got.size * wordSize))
  note (.word slot)
  let ptr := UserAddr.ofWord (← Action.ofExcept (UserMemory.copyInWord m slot))
  if ptr.isNull then
    return ⟨got.toList, total⟩
  else
    note (.budget ((argMax : Int) - total))
    if _ : total < argMax then
      match ← (copyInStr m ptr (argMax - total)).outcome with
      | .ok arg => copyInFrom m argv argMax (got.push arg) (total + (arg.length + 1))
      | .error e => throw (if e = .nameTooLong then .argumentListTooBig else e)
    else
      throw .argumentListTooBig
termination_by argMax - total

/-- `ArgVector.copyIn` with a log. -/
def copyIn (m : M) (argv : UserAddr) (argMax : Nat) : Logged ArgVector :=
  if argv.isNull then throw .badAddress else copyInFrom m argv argMax #[] 0

end Logged

/-- Both memories answer the reads of the log in the same way. -/
def AnswersAlike {M : Type} [UserMemory M] (m m' : M) (log : List CopyEvent) : Prop :=
  (∀ slot, .word slot ∈ log → UserMemory.copyInWord m' slot = UserMemory.copyInWord m slot) ∧
    ∀ src, .byte src ∈ log → UserMemory.copyIn m' src 1 = UserMemory.copyIn m src 1

/-- `log'` continues `log` by at most so many reads, and by no negative budget. -/
def Continues (words bytes : Nat) (log log' : List CopyEvent) : Prop :=
  ∃ new, log' = log ++ new ∧ new.countP CopyEvent.isWord ≤ words ∧
    new.countP CopyEvent.isByte ≤ bytes ∧ ∀ left, .budget left ∈ new → 0 ≤ left

namespace Continues

variable {words words' bytes bytes' : Nat} {log log' log'' : List CopyEvent}

theorem refl (log : List CopyEvent) : Continues 0 0 log log :=
  ⟨[], (List.append_nil log).symm, Nat.le_refl 0, Nat.le_refl 0, nofun⟩

theorem trans (h : Continues words bytes log log') (h' : Continues words' bytes' log' log'') :
    Continues (words + words') (bytes + bytes') log log'' := by
  obtain ⟨new, rfl, hwords, hbytes, hleft⟩ := h
  obtain ⟨new', rfl, hwords', hbytes', hleft'⟩ := h'
  refine ⟨new ++ new', List.append_assoc _ _ _, ?_, ?_, fun left hmem => ?_⟩
  · rw [List.countP_append]
    omega
  · rw [List.countP_append]
    omega
  · rcases List.mem_append.1 hmem with hmem | hmem
    · exact hleft left hmem
    · exact hleft' left hmem

theorem mono (h : Continues words bytes log log') (hwords : words ≤ words')
    (hbytes : bytes ≤ bytes') : Continues words' bytes' log log' := by
  obtain ⟨new, hnew, hw, hb, hleft⟩ := h
  exact ⟨new, hnew, by omega, by omega, hleft⟩

theorem word (slot : UserAddr) : Continues 1 0 log (log ++ [.word slot]) :=
  ⟨_, rfl, Nat.le_refl 1, Nat.le_refl 0, by simp⟩

theorem byte (src : UserAddr) : Continues 0 1 log (log ++ [.byte src]) :=
  ⟨_, rfl, Nat.le_refl 0, Nat.le_refl 1, by simp⟩

theorem budget {left : Int} (h : 0 ≤ left) : Continues 0 0 log (log ++ [.budget left]) :=
  ⟨_, rfl, Nat.le_refl 0, Nat.le_refl 0, by simpa using h⟩

theorem mem {event : CopyEvent} (h : Continues words bytes log log') (hmem : event ∈ log) :
    event ∈ log' := by
  obtain ⟨new, rfl, -⟩ := h
  exact List.mem_append_left new hmem

end Continues

theorem AnswersAlike.of_continues {M : Type} [UserMemory M] {m m' : M} {words bytes : Nat}
    {log log' : List CopyEvent} (h : AnswersAlike m m' log')
    (hlog : Continues words bytes log log') : AnswersAlike m m' log :=
  ⟨fun slot hmem => h.1 slot (hlog.mem hmem), fun src hmem => h.2 src (hlog.mem hmem)⟩

namespace Logged

variable {M : Type} [UserMemory M] {m : M}

theorem exists_eq_singleton (v : Vector UInt8 1) : ∃ b, v = #v[b] := by
  refine ⟨v.get ⟨0, Nat.one_pos⟩, ?_⟩
  ext i hi
  obtain rfl : i = 0 := by omega
  rfl

theorem ensures_copyInStrFrom {src : UserAddr} {got : Array UInt8} {left : Nat}
    {log : List CopyEvent} :
    (copyInStrFrom m src got left).Ensures log
      (fun s log' => (∃ rest, s = got.toList ++ rest ∧ 0 ∉ rest ∧ rest.length < left ∧
          Continues 0 (rest.length + 1) log log') ∧
        ∀ m', AnswersAlike m m' log' → UserMemory.copyInStrFrom m' src got left = .ok s)
      fun e log' => Continues 0 left log log' ∧
        ∀ m', AnswersAlike m m' log' → UserMemory.copyInStrFrom m' src got left = .error e := by
  induction left generalizing got log with
  | zero => exact ⟨.refl log, fun _ _ => rfl⟩
  | succ left ih =>
    simp only [copyInStrFrom, Action.ensures_bind]
    refine Action.ensures_ofExcept.2 ⟨fun place hplace => ?_, fun e he => ?_⟩
    · have hread : Continues 0 1 log (log ++ [.byte place]) := .byte place
      refine Action.ensures_ofExcept.2 ⟨fun v hv => ?_, fun e he => ?_⟩
      · obtain ⟨b, rfl⟩ := exists_eq_singleton v
        rw [show #v[b].get ⟨0, Nat.one_pos⟩ = b from rfl]
        have hagain {m' : M} {log' : List CopyEvent} (hmem : .byte place ∈ log')
            (halike : AnswersAlike m m' log') :
            UserMemory.copyInStrFrom m' src got (left + 1) =
              if b = 0 then .ok got.toList
              else UserMemory.copyInStrFrom m' src (got.push b) left :=
          UserMemory.copyInStrFrom_of_byte hplace ((halike.2 place hmem).trans hv)
        by_cases hzero : b = 0
        · rw [if_pos hzero]
          refine ⟨⟨[], (List.append_nil _).symm, List.not_mem_nil, Nat.succ_pos left, hread⟩,
            fun m' halike => ?_⟩
          rw [hagain (by simp) halike, if_pos hzero]
        · rw [if_neg hzero]
          refine ih.mono (fun s log' h => ?_) fun e log' h => ?_
          · obtain ⟨⟨rest, rfl, hrest, hlen, hlog⟩, hsame⟩ := h
            refine ⟨⟨b :: rest, by simp, ?_, ?_, ?_⟩, fun m' halike => ?_⟩
            · simpa [Ne.symm hzero] using hrest
            · rw [List.length_cons]
              omega
            · exact (hread.trans hlog).mono (Nat.le_refl 0) (by rw [List.length_cons]; omega)
            · rw [hagain (hlog.mem (by simp)) halike, if_neg hzero]
              exact hsame m' halike
          · obtain ⟨hlog, hsame⟩ := h
            refine ⟨(hread.trans hlog).mono (Nat.le_refl 0) (by omega), fun m' halike => ?_⟩
            rw [hagain (hlog.mem (by simp)) halike, if_neg hzero]
            exact hsame m' halike
      · refine ⟨hread.mono (Nat.le_refl 0) (by omega), fun m' halike => ?_⟩
        rw [UserMemory.copyInStrFrom, hplace]
        simp only [bind, Except.bind]
        rw [halike.2 place (by simp), he]
    · refine ⟨(Continues.refl log).mono (Nat.le_refl 0) (Nat.zero_le _), fun m' _ => ?_⟩
      rw [UserMemory.copyInStrFrom, he]
      rfl

theorem ensures_copyInStr {src : UserAddr} {max : Nat} {log : List CopyEvent} :
    (copyInStr m src max).Ensures log
      (fun s log' => (0 ∉ s ∧ s.length < max ∧ Continues 0 (s.length + 1) log log') ∧
        ∀ m', AnswersAlike m m' log' → UserMemory.copyInStr m' src max = .ok s)
      fun e log' => Continues 0 max log log' ∧
        ∀ m', AnswersAlike m m' log' → UserMemory.copyInStr m' src max = .error e := by
  unfold copyInStr UserMemory.copyInStr
  cases src.isNull with
  | true => exact ⟨(Continues.refl log).mono (Nat.le_refl 0) (Nat.zero_le max), fun _ _ => rfl⟩
  | false =>
    refine ensures_copyInStrFrom.mono (fun s log' h => ?_) fun e log' h => h
    obtain ⟨⟨rest, rfl, hrest⟩, hsame⟩ := h
    exact ⟨hrest, hsame⟩

/-- The strings that a copy took, behind those already `got`, stay within the limit, and so does
what it read for them. -/
theorem ensures_copyInFrom {argv : UserAddr} {argMax : Nat} {got : Array (List UInt8)}
    {total : Nat} {log : List CopyEvent} (hle : total ≤ argMax) :
    (copyInFrom m argv argMax got total).Ensures log
      (fun v log' => (∃ args, v = ⟨got.toList ++ args, total + stringBytes args⟩ ∧
          total + stringBytes args ≤ argMax ∧ (∀ arg ∈ args, 0 ∉ arg) ∧
          Continues (argMax - total + 1) (argMax - total) log log') ∧
        ∀ m', AnswersAlike m m' log' → ArgVector.copyInFrom m' argv argMax got total = .ok v)
      fun e log' => Continues (argMax - total + 1) (argMax - total) log log' ∧
        ∀ m', AnswersAlike m m' log' →
          ArgVector.copyInFrom m' argv argMax got total = .error e := by
  -- Every string takes at least its terminator, so what is left of the limit goes down.
  induction hleft : argMax - total using Nat.strongRecOn generalizing got total log with
  | _ left ih =>
  rw [copyInFrom]
  simp only [Action.ensures_bind]
  refine Action.ensures_ofExcept.2 ⟨fun slot hslot => ?_, fun e he => ?_⟩
  · have hread : Continues 1 0 log (log ++ [.word slot]) := .word slot
    refine Action.ensures_ofExcept.2 ⟨fun w hw => ?_, fun e he => ?_⟩
    · have hagain {m' : M} {log' : List CopyEvent} (hmem : .word slot ∈ log')
          (halike : AnswersAlike m m' log') : UserMemory.copyInWord m' slot = .ok w :=
        (halike.1 slot hmem).trans hw
      cases hnull : (UserAddr.ofWord w).isNull with
      | true =>
        rw [if_pos rfl]
        refine ⟨⟨[], by simp, hle, by simp, hread.mono (by omega) (Nat.zero_le _)⟩,
          fun m' halike => ?_⟩
        rw [ArgVector.copyInFrom_of_word hslot (hagain (by simp) halike), hnull, if_pos rfl]
      | false =>
        rw [if_neg Bool.false_ne_true]
        simp only [Action.ensures_bind]
        have hleft : 0 ≤ (argMax : Int) - total := by omega
        have hbudget := hread.trans (.budget hleft)
        by_cases hlt : total < argMax
        · rw [dif_pos hlt]
          simp only [Action.ensures_bind, Action.ensures_outcome]
          refine ensures_copyInStr.mono (fun arg log₁ h => ?_) fun e log₁ h => ?_
          · obtain ⟨⟨hne, hlen, hlog₁⟩, hstr⟩ := h
            have hlog := hbudget.trans hlog₁
            refine (ih _ (by omega) (by omega) rfl).mono (fun v log' h => ?_) fun e log' h => ?_
            · obtain ⟨⟨args, rfl, hfit, hargs, hlog'⟩, hrest⟩ := h
              refine ⟨⟨arg :: args, ?_, ?_, ?_, ?_⟩, fun m' halike => ?_⟩
              · simp [Nat.add_assoc]
              · rw [stringBytes_cons]
                omega
              · simpa [hne] using hargs
              · exact (hlog.trans hlog').mono (by omega) (by omega)
              · rw [ArgVector.copyInFrom_of_word hslot
                    (hagain ((hlog₁.trans hlog').mem (by simp)) halike),
                  hnull, if_neg Bool.false_ne_true, if_pos hlt,
                  hstr m' (halike.of_continues hlog')]
                exact hrest m' halike
            · obtain ⟨hlog', hrest⟩ := h
              refine ⟨(hlog.trans hlog').mono (by omega) (by omega), fun m' halike => ?_⟩
              rw [ArgVector.copyInFrom_of_word hslot
                  (hagain ((hlog₁.trans hlog').mem (by simp)) halike),
                hnull, if_neg Bool.false_ne_true, if_pos hlt, hstr m' (halike.of_continues hlog')]
              exact hrest m' halike
          · obtain ⟨hlog₁, hstr⟩ := h
            refine ⟨(hbudget.trans hlog₁).mono (by omega) (by omega), fun m' halike => ?_⟩
            rw [ArgVector.copyInFrom_of_word hslot (hagain (hlog₁.mem (by simp)) halike), hnull,
              if_neg Bool.false_ne_true, if_pos hlt, hstr m' halike]
        · rw [dif_neg hlt]
          refine ⟨hbudget.mono (by omega) (by omega), fun m' halike => ?_⟩
          rw [ArgVector.copyInFrom_of_word hslot (hagain (by simp) halike), hnull,
            if_neg Bool.false_ne_true, if_neg hlt]
    · refine ⟨hread.mono (by omega) (Nat.zero_le _), fun m' halike => ?_⟩
      rw [ArgVector.copyInFrom, hslot]
      simp only [bind, Except.bind]
      rw [halike.1 slot (by simp), he]
  · refine ⟨(Continues.refl log).mono (Nat.zero_le _) (Nat.zero_le _), fun m' _ => ?_⟩
    rw [ArgVector.copyInFrom, he]
    rfl

theorem ensures_copyIn {argv : UserAddr} {argMax : Nat} :
    (copyIn m argv argMax).Ensures []
      (fun v log' => (v.total = stringBytes v.args ∧ v.total ≤ argMax ∧
          (∀ arg ∈ v.args, 0 ∉ arg) ∧ Continues (argMax + 1) argMax [] log') ∧
        ∀ m', AnswersAlike m m' log' → ArgVector.copyIn m' argv argMax = .ok v)
      fun e log' => Continues (argMax + 1) argMax [] log' ∧
        ∀ m', AnswersAlike m m' log' → ArgVector.copyIn m' argv argMax = .error e := by
  unfold copyIn ArgVector.copyIn
  cases argv.isNull with
  | true =>
    exact ⟨(Continues.refl []).mono (Nat.zero_le _) (Nat.zero_le _), fun _ _ => rfl⟩
  | false =>
    refine (ensures_copyInFrom (Nat.zero_le argMax)).mono (fun v log' h => ?_) fun e log' h => h
    obtain ⟨⟨args, rfl, hfit, hargs, hlog⟩, hsame⟩ := h
    rw [Nat.zero_add] at hfit hsame ⊢
    exact ⟨⟨rfl, hfit, hargs, hlog⟩, hsame⟩

end Logged

/-! ### Strings that can be read -/

section

variable {M : Type} [UserMemory M] {m : M}

/-- The string `s` can be read from `src` on: its bytes, none of them zero, and then a zero
byte. -/
structure ReadsString (m : M) (src : UserAddr) (s : List UInt8) : Prop where
  bytes (i : Nat) (hi : i < s.length) :
    ∃ place, src.add i = .ok place ∧ UserMemory.copyIn m place 1 = .ok #v[s[i]]
  nul : ∃ place, src.add s.length = .ok place ∧ UserMemory.copyIn m place 1 = .ok #v[0]
  nonzero : 0 ∉ s

/-- The words from `argv` on, up to the first zero word, can be read and point to strings that can
be read, which are `args`. -/
structure ReadsArgv (m : M) (argv : UserAddr) (args : List (List UInt8)) : Prop where
  pointer (i : Nat) (hi : i < args.length) :
    ∃ slot w, argv.add (i * wordSize) = .ok slot ∧ UserMemory.copyInWord m slot = .ok w ∧
      w ≠ 0 ∧ ReadsString m (.ofWord w) args[i]
  null : ∃ slot, argv.add (args.length * wordSize) = .ok slot ∧
    UserMemory.copyInWord m slot = .ok 0

/-- Of a string that can be read only its length can be at fault. -/
theorem ReadsString.copyInStrFrom {src : UserAddr} {s rest : List UInt8} {got : Array UInt8}
    {left : Nat} (h : ReadsString m src s) (hs : s = got.toList ++ rest) :
    UserMemory.copyInStrFrom m src got left =
      if rest.length < left then .ok s else .error .nameTooLong := by
  induction left generalizing got rest with
  | zero => rfl
  | succ left ih =>
    have hlen : s.length = got.size + rest.length := by simp [hs]
    cases rest with
    | nil =>
      obtain ⟨place, hplace, hbyte⟩ := h.nul
      rw [hlen, List.length_nil, Nat.add_zero] at hplace
      rw [UserMemory.copyInStrFrom_of_byte hplace hbyte, hs]
      simp
    | cons b rest =>
      rw [List.length_cons] at hlen
      obtain ⟨place, hplace, hbyte⟩ := h.bytes got.size (by omega)
      have hb : s[got.size] = b := by simp [hs]
      have hne : b ≠ 0 := by
        rintro rfl
        exact h.nonzero (by simp [hs])
      rw [hb] at hbyte
      have hpush : s = (got.push b).toList ++ rest := by simp [hs]
      rw [UserMemory.copyInStrFrom_of_byte hplace hbyte, if_neg hne, ih hpush]
      simp

theorem ReadsString.copyInStr {src : UserAddr} {s : List UInt8} {max : Nat}
    (h : ReadsString m src s) (hnull : src.isNull = false) :
    UserMemory.copyInStr m src max = if s.length < max then .ok s else .error .nameTooLong := by
  rw [UserMemory.copyInStr, hnull]
  exact h.copyInStrFrom rfl

theorem ReadsArgv.copyInFrom {argv : UserAddr} {argMax total : Nat}
    {args rest : List (List UInt8)} {got : Array (List UInt8)} (h : ReadsArgv m argv args)
    (hargs : args = got.toList ++ rest) (hle : total ≤ argMax) :
    ArgVector.copyInFrom m argv argMax got total =
      if total + stringBytes rest ≤ argMax then .ok ⟨args, total + stringBytes rest⟩
      else .error .argumentListTooBig := by
  have hlen : args.length = got.size + rest.length := by simp [hargs]
  induction rest generalizing got total with
  | nil =>
    obtain ⟨slot, hslot, hword⟩ := h.null
    rw [hlen, List.length_nil, Nat.add_zero] at hslot
    rw [ArgVector.copyInFrom_of_word hslot hword, if_pos (by decide)]
    simp [hargs, hle]
  | cons arg rest ih =>
    rw [List.length_cons] at hlen
    obtain ⟨slot, w, hslot, hword, hne, hstring⟩ := h.pointer got.size (by omega)
    have hnull : (UserAddr.ofWord w).isNull = false := by
      rw [Bool.eq_false_iff, ne_eq, UserAddr.isNull_ofWord]
      exact hne
    have harg : args[got.size] = arg := by simp [hargs]
    rw [harg] at hstring
    rw [ArgVector.copyInFrom_of_word hslot hword, hnull, if_neg Bool.false_ne_true,
      hstring.copyInStr hnull, stringBytes_cons]
    by_cases hfit : total + (arg.length + 1) ≤ argMax
    · rw [if_pos (show total < argMax by omega),
        if_pos (show arg.length < argMax - total by omega)]
      have hpush : args = (got.push arg).toList ++ rest := by simp [hargs]
      refine (ih hpush hfit ?_).trans ?_
      · rw [Array.size_push]
        omega
      · rw [Nat.add_assoc total (arg.length + 1)]
    · rw [if_neg (show ¬ arg.length < argMax - total by omega),
        if_neg (show ¬ total + (arg.length + 1 + stringBytes rest) ≤ argMax by omega)]
      exact ite_self _

theorem ReadsArgv.nonzero {argv : UserAddr} {args : List (List UInt8)}
    (h : ReadsArgv m argv args) : ∀ arg ∈ args, 0 ∉ arg := by
  intro arg harg
  obtain ⟨i, hi, rfl⟩ := List.mem_iff_getElem.1 harg
  obtain ⟨slot, w, -, -, -, hstring⟩ := h.pointer i hi
  exact hstring.nonzero

end

theorem ArgVector.totalFrom_of_nonzero {argMax total : Nat} {args : List (List UInt8)}
    (h : ∀ arg ∈ args, 0 ∉ arg) (hle : total ≤ argMax) :
    totalFrom argMax total args =
      if total + stringBytes args ≤ argMax then .ok (total + stringBytes args)
      else .error .argumentListTooBig := by
  induction args generalizing total with
  | nil => simp [totalFrom, hle]
  | cons arg args ih =>
    have hzero : arg.contains 0 = false := by simpa using h arg List.mem_cons_self
    rw [totalFrom, hzero, if_neg Bool.false_ne_true, stringBytes_cons]
    by_cases hfit : total + (arg.length + 1) ≤ argMax
    · rw [if_neg (Nat.not_lt.2 hfit), ih (fun x hx => h x (List.mem_cons_of_mem arg hx)) hfit,
        Nat.add_assoc total (arg.length + 1)]
    · rw [if_pos (Nat.lt_of_not_le hfit), if_neg (by omega)]

theorem ArgVector.ofArgs_of_nonzero {argMax : Nat} {args : List (List UInt8)}
    (h : ∀ arg ∈ args, 0 ∉ arg) :
    ofArgs args argMax =
      if stringBytes args ≤ argMax then .ok ⟨args, stringBytes args⟩
      else .error .argumentListTooBig := by
  rw [ofArgs, totalFrom_of_nonzero h (Nat.zero_le argMax), Nat.zero_add]
  split <;> rfl

/-! ### The law -/

/-- What holds of a copy out of any memory, for a pointer array that is not null. -/
structure SafelyCopied {M : Type} [UserMemory M] (m : M) (argv : UserAddr) (argMax : Nat)
    (log : List CopyEvent) : Prop where
  /-- The log belongs to the copy: it has every read that the result depends on. -/
  logged (m' : M) : AnswersAlike m m' log →
    ArgVector.copyIn m' argv argMax = ArgVector.copyIn m argv argMax
  words : log.countP CopyEvent.isWord ≤ argMax + 1
  bytes : log.countP CopyEvent.isByte ≤ argMax
  budgets (left : Int) : .budget left ∈ log → 0 ≤ left
  vector (v : ArgVector) : ArgVector.copyIn m argv argMax = .ok v →
    v.total = stringBytes v.args ∧ v.total ≤ argMax ∧ ∀ arg ∈ v.args, 0 ∉ arg
  agrees (args : List (List UInt8)) : ReadsArgv m argv args →
    ArgVector.copyIn m argv argMax = ArgVector.ofArgs args argMax ∧
      (ArgVector.ofArgs args argMax = .ok ⟨args, stringBytes args⟩ ∨
        ArgVector.ofArgs args argMax = .error .argumentListTooBig)

/-- A copy out of any user memory ends after at most so many reads, and the vector that it gives is
within the limit. Where strings can be read, the kernel makes the same of them as of strings of its
own. -/
theorem copyIn_safe_on_any_memory {M : Type} [UserMemory M] (m : M) (argv : UserAddr)
    (argMax : Nat) (hnull : argv.isNull = false) :
    ((Logged.copyIn m argv argMax).result []).1 = ArgVector.copyIn m argv argMax ∧
      SafelyCopied m argv argMax ((Logged.copyIn m argv argMax).result []).2 := by
  have hagrees (args : List (List UInt8)) (hargs : ReadsArgv m argv args) :
      ArgVector.copyIn m argv argMax = ArgVector.ofArgs args argMax ∧
        (ArgVector.ofArgs args argMax = .ok ⟨args, stringBytes args⟩ ∨
          ArgVector.ofArgs args argMax = .error .argumentListTooBig) := by
    rw [ArgVector.copyIn, hnull, if_neg Bool.false_ne_true,
      hargs.copyInFrom (show args = #[].toList ++ args from rfl) (Nat.zero_le argMax), Nat.zero_add,
      ArgVector.ofArgs_of_nonzero hargs.nonzero]
    refine ⟨rfl, ?_⟩
    split
    · exact .inl rfl
    · exact .inr rfl
  have hspec := @Logged.ensures_copyIn M _ m argv argMax
  cases hrun : (Logged.copyIn m argv argMax).result [] with
  | mk r log =>
  have halike : AnswersAlike m m log := ⟨fun _ _ => rfl, fun _ _ => rfl⟩
  cases r with
  | ok v =>
    obtain ⟨⟨htotal, hfit, hzero, new, rfl, hwords, hbytes, hleft⟩, hsame⟩ := hspec.of_result hrun
    have hcopy := hsame m halike
    refine ⟨hcopy.symm, fun m' h => (hsame m' h).trans hcopy.symm, hwords, hbytes, hleft,
      fun v' hv' => ?_, hagrees⟩
    rw [hcopy] at hv'
    cases hv'
    exact ⟨htotal, hfit, hzero⟩
  | error e =>
    obtain ⟨⟨new, rfl, hwords, hbytes, hleft⟩, hsame⟩ := hspec.of_result hrun
    have hcopy := hsame m halike
    refine ⟨hcopy.symm, fun m' h => (hsame m' h).trans hcopy.symm, hwords, hbytes, hleft,
      fun v' hv' => ?_, hagrees⟩
    rw [hcopy] at hv'
    cases hv'

/-- Two pointers, and behind them an empty string and the string "ab", whose terminators touch. -/
def emptyThenTwo : Mapping where
  base := 0x1000
  bytes := #[0x0c, 0x10, 0, 0, 0x0d, 0x10, 0, 0, 0, 0, 0, 0, 0, 0x61, 0x62, 0]

theorem readsArgv_emptyThenTwo : ReadsArgv emptyThenTwo ⟨0x1000⟩ [[], [0x61, 0x62]] where
  pointer
    | 0, _ => ⟨⟨0x1000⟩, 0x100c, rfl, rfl, by decide, nofun, ⟨⟨0x100c⟩, rfl, rfl⟩, by simp⟩
    | 1, _ => ⟨⟨0x1004⟩, 0x100d, rfl, rfl, by decide, fun
        | 0, _ => ⟨⟨0x100d⟩, rfl, rfl⟩
        | 1, _ => ⟨⟨0x100e⟩, rfl, rfl⟩, ⟨⟨0x100f⟩, rfl, rfl⟩, by simp⟩
  null := ⟨⟨0x1008⟩, rfl, rfl⟩

/-- The strings take the limit up exactly, and with one byte less they are too big on both
sides. -/
theorem copyIn_safe_emptyThenTwo : (UserAddr.mk 0x1000).isNull = false ∧
    ArgVector.copyIn emptyThenTwo ⟨0x1000⟩ 4 = ArgVector.ofArgs [[], [0x61, 0x62]] 4 ∧
    ArgVector.ofArgs [[], [0x61, 0x62]] 4 = .ok ⟨[[], [0x61, 0x62]], 4⟩ ∧
    ArgVector.copyIn emptyThenTwo ⟨0x1000⟩ 3 = .error .argumentListTooBig := by
  have hnull : (UserAddr.mk 0x1000).isNull = false := by decide
  have hfour := (copyIn_safe_on_any_memory emptyThenTwo ⟨0x1000⟩ 4 hnull).2.agrees _
    readsArgv_emptyThenTwo
  have hthree := (copyIn_safe_on_any_memory emptyThenTwo ⟨0x1000⟩ 3 hnull).2.agrees _
    readsArgv_emptyThenTwo
  exact ⟨hnull, hfour.1, rfl, hthree.1.trans rfl⟩

end UnixCore
