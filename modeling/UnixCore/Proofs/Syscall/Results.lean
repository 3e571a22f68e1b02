import UnixCore.Proofs.Isolation.Dispatch
import UnixCore.User.Error

/-! The results of system calls on their way to the user program. The kernel puts a result into one
signed word, and the user program takes it apart again, with a table of error codes of its own. No
result of a call that succeeds looks like an error, and each error is decoded to itself. -/

namespace UnixCore

/-! ### The two tables of error codes -/

namespace User

theorem CallError.ofRaw_neg_errno (c : CallError) : .ofRaw (-c.errno.toInt64) = c := by
  cases c <;> rfl

theorem CallError.errno_ofRaw (e : Errno) : (CallError.ofRaw e.returnValue).errno = e.code := by
  cases e <;> rfl

theorem CallError.ofRaw_ne_unknown (e : Errno) : CallError.ofRaw e.returnValue ≠ .unknown := by
  cases e <;> decide

/-- The user program knows each error of the kernel by its code. -/
theorem CallError.eq_ofRaw_iff {c : CallError} {e : Errno} :
    c = .ofRaw e.returnValue ↔ c.errno = e.code := by
  constructor
  · rintro rfl
    exact errno_ofRaw e
  · intro h
    rw [← ofRaw_neg_errno c, h]
    rfl

theorem decodeReturn_returnValue (e : Errno) :
    decodeReturn e.returnValue = .error (.ofRaw e.returnValue) := by
  have hpos := e.code_pos
  have hneg : ¬ 0 ≤ e.returnValue.toInt := by
    rw [e.toInt_returnValue]
    omega
  rw [decodeReturn, if_neg hneg]

theorem decodeReturn_ofNat {n : Nat} (h : n < 2 ^ 63) :
    decodeReturn (.ofNat n) = .ok (.ofNat n) := by
  have hpos : 0 ≤ (Int64.ofNat n).toInt := by
    rw [Int64.toInt_ofNat_of_lt h]
    exact Int.natCast_nonneg n
  rw [decodeReturn, if_pos hpos]
  rfl

end User

namespace Syscall

open Action

variable {W : Type}

/-- The number that a call of `p` is about: the id of the child, the descriptor, the count or the
offset that the operation behind the call has given. -/
inductive Gives (S : Services W) (threads : Threads W) (p : ProcessId) (frame : TrapFrame)
    (k : Kernel W) : Syscall → Nat → Prop
  | fork {pid : Pid} {k' : Kernel W} : Kernel.fork S threads p frame k = .ok pid k' →
    Gives S threads p frame k fork pid.toNat
  | waitpid {pid : Pid} {code : Int32} {k' : Kernel W} :
    Kernel.wait S threads p (.ofRaw (frame.arg 0).toInt64) (int32Arg (frame.arg 2)) k =
      .ok (.reaped code pid) k' →
    Gives S threads p frame k waitpid pid.toNat
  | getpid : Gives S threads p frame k getpid (k.process p).pid.toNat
  | openFile {path : String} {fd : Nat} {k' : Kernel W} :
    copyInPath p ⟨frame.arg 0⟩ k = .ok path k →
    Kernel.onDescriptors p (Descriptors.openPath S path (frame.arg 1).toUInt32) k = .ok fd k' →
    Gives S threads p frame k openFile fd
  | dup2 {old new fd : Nat} {k' : Kernel W} : descriptor (frame.arg 0) = .ok old →
    descriptor (frame.arg 1) = .ok new →
    Kernel.onDescriptors p (Descriptors.duplicate S old new) k = .ok fd k' →
    Gives S threads p frame k dup2 fd
  | close {fd : Nat} {k' : Kernel W} : descriptor (frame.arg 0) = .ok fd →
    Kernel.onDescriptors p (Descriptors.close S fd) k = .ok () k' →
    Gives S threads p frame k close 0
  | read {fd : Nat} {bytes : List UInt8} {k' : Kernel W} : descriptor (frame.arg 0) = .ok fd →
    Kernel.onDescriptors p
      (Descriptors.read S fd (min (frame.arg 2).toNat maxTransfer)) k = .ok bytes k' →
    Gives S threads p frame k read bytes.length
  | write {fd : Nat} {bytes : Vector UInt8 (min (frame.arg 2).toNat maxTransfer)}
    {count : UInt64} {k' : Kernel W} : descriptor (frame.arg 0) = .ok fd →
    Kernel.readMemory p (UserMemory.copyIn · ⟨frame.arg 1⟩ _) k = .ok bytes k →
    Kernel.onDescriptors p (Descriptors.write S fd bytes.toList) k = .ok count k' →
    Gives S threads p frame k write count.toNat
  | lseek {fd : Nat} {offset : UInt64} {k' : Kernel W} : descriptor (frame.arg 0) = .ok fd →
    Kernel.onDescriptors p
      (Descriptors.seek S fd (frame.arg 1).toInt64 (int32Arg (frame.arg 2))) k = .ok offset k' →
    Gives S threads p frame k lseek offset.toNat

/-- A call that gives a value gives what it is about, and that fits into the positive half of the
return register. -/
def Answers (S : Services W) (threads : Threads W) (p : ProcessId) (frame : TrapFrame)
    (k : Kernel W) (call : Syscall) (act : Action (Kernel W) SyscallEnd) : Prop :=
  act.Ensures k
    (fun r _ => ∀ v, r = .value v →
      ∃ n < 2 ^ 63, v = .ofNat n ∧ Gives S threads p frame k call n)
    fun _ _ => True

section

variable {S : Services W} {threads : Threads W} {p : ProcessId} {frame : TrapFrame} {k : Kernel W}

theorem toNat_pid_lt (pid : Pid) : pid.toNat < 2 ^ 63 :=
  Nat.lt_trans pid.toNat_lt (by decide)

theorem toInt64_eq_ofNat (n : UInt64) : n.toInt64 = .ofNat n.toNat := by
  rw [← UInt64.toInt64_ofNat', UInt64.ofNat_toNat]

theorem answers_sysFork : Answers S threads p frame k fork (sysFork S threads p frame) := by
  rw [Answers, sysFork, ensures_bind]
  refine ensures_iff.2 ⟨fun pid k' hfork => ?_, fun _ _ _ => trivial⟩
  rintro _ ⟨⟩
  exact ⟨pid.toNat, toNat_pid_lt pid, rfl, .fork hfork⟩

theorem answers_sysWaitpid : Answers S threads p frame k waitpid
    (sysWaitpid S threads p (.ofRaw (frame.arg 0).toInt64) ⟨frame.arg 1⟩
      (int32Arg (frame.arg 2))) := by
  rw [Answers, sysWaitpid, ensures_bind]
  refine ensures_iff.2 ⟨fun waited k' hwait => ?_, fun _ _ _ => trivial⟩
  cases waited with
  | blocked => rintro _ ⟨⟩
  | reaped code pid =>
    have hgives := Gives.waitpid hwait
    have hpid := toNat_pid_lt pid
    dsimp only
    split
    case isTrue =>
      rintro _ ⟨⟩
      exact ⟨pid.toNat, hpid, rfl, hgives⟩
    case isFalse =>
      rw [ensures_bind]
      refine ensures_true.mono ?_ fun _ _ _ => trivial
      rintro _ _ - _ ⟨⟩
      exact ⟨pid.toNat, hpid, rfl, hgives⟩

theorem answers_sysGetpid : Answers S threads p frame k getpid (sysGetpid p) := by
  rintro _ ⟨⟩
  exact ⟨_, toNat_pid_lt _, rfl, .getpid⟩

theorem answers_bind_descriptor {raw : UInt64} {call : Syscall}
    {act : Nat → Action (Kernel W) SyscallEnd}
    (h : ∀ fd, descriptor raw = .ok fd → Answers S threads p frame k call (act fd)) :
    Answers S threads p frame k call (Action.ofExcept (descriptor raw) >>= act) := by
  rw [Answers, ensures_bind]
  exact ensures_ofExcept.2 ⟨h, fun _ _ => trivial⟩

/-- A call that ends with the number that an operation on the descriptors has given. -/
theorem answers_of_onDescriptors {α : Type} {call : Syscall} {act : Action (Descriptors W) α}
    {value : α → Int64} (number : α → Nat)
    (hnumber : act.Ensures ⟨(k.process p).descriptors, k.shared⟩ (fun a _ => number a < 2 ^ 63)
      fun _ _ => True)
    (hvalue : ∀ a, value a = .ofNat (number a))
    (hgives : ∀ a k', Kernel.onDescriptors p act k = .ok a k' →
      Gives S threads p frame k call (number a)) :
    Answers S threads p frame k call
      (Kernel.onDescriptors p act >>= fun a => return .value (value a)) := by
  have hlt : (Kernel.onDescriptors p act).Ensures k (fun a _ => number a < 2 ^ 63)
      fun _ _ => True := ensures_onPart.2 hnumber
  rw [Answers, ensures_bind]
  refine ensures_iff.2 ⟨fun a k' hrun => ?_, fun _ _ _ => trivial⟩
  rintro _ ⟨⟩
  exact ⟨number a, hlt.of_ok hrun, hvalue a, hgives a k' hrun⟩

end

section Audited

variable {S : Services W} {threads : Threads (W × Ledger)} {p : ProcessId} {frame : TrapFrame}
  {k : Kernel (W × Ledger)}

theorem answers_sysOpen (hexact : (k.process p).descriptors.Exact)
    (hcapacity : (k.process p).descriptors.capacity ≤ 2 ^ 63) :
    Answers S.audited threads p frame k openFile
      (sysOpen S.audited p ⟨frame.arg 0⟩ (frame.arg 1).toUInt32) := by
  rw [Answers, sysOpen, ensures_bind]
  refine ensures_iff.2 ⟨fun path k₁ hpath => ?_, fun _ _ _ => trivial⟩
  obtain rfl : k₁ = k := ensures_copyInPath.of_ok hpath
  refine answers_of_onDescriptors id ?_ (fun _ => rfl)
    fun fd k' hrun => .openFile hpath hrun
  exact (Descriptors.ensures_openPath_restored hexact).mono
    (fun _ _ hfd => Nat.lt_of_lt_of_le hfd hcapacity) fun _ _ _ => trivial

theorem answers_sysDup2 : Answers S.audited threads p frame k dup2
    (sysDup2 S.audited p (frame.arg 0) (frame.arg 1)) := by
  apply answers_bind_descriptor
  intro old hold
  apply answers_bind_descriptor
  intro new hnew
  refine answers_of_onDescriptors id ?_ (fun _ => rfl)
    fun fd k' hrun => .dup2 hold hnew hrun
  refine Descriptors.ensures_duplicate_restored.mono ?_ fun _ _ _ => trivial
  rintro _ _ rfl
  exact lt_of_descriptor hnew

theorem answers_sysClose : Answers S.audited threads p frame k close
    (sysClose S.audited p (frame.arg 0)) := by
  apply answers_bind_descriptor
  intro fd hfd
  refine answers_of_onDescriptors (fun _ => 0) ?_ (fun _ => rfl)
    fun _ k' hrun => .close hfd hrun
  exact ensures_true.mono (fun _ _ _ => by decide) fun _ _ _ => trivial

theorem answers_sysLseek : Answers S.audited threads p frame k lseek
    (sysLseek S.audited p (frame.arg 0) (frame.arg 1).toInt64 (int32Arg (frame.arg 2))) := by
  apply answers_bind_descriptor
  intro fd hfd
  refine answers_of_onDescriptors UInt64.toNat ?_ toInt64_eq_ofNat
    fun offset k' hrun => .lseek hfd hrun
  exact Descriptors.ensures_seek_restored.mono (fun _ _ h => h) fun _ _ _ => trivial

/-- A transfer begins with the state as it is and a descriptor that is one. -/
theorem answers_bind_transferDescriptor {fd : UInt64} {buffer : UserAddr} {call : Syscall}
    {act : Nat → Action (Kernel (W × Ledger)) SyscallEnd}
    (h : ∀ n, descriptor fd = .ok n → Answers S.audited threads p frame k call (act n)) :
    Answers S.audited threads p frame k call (transferDescriptor p fd buffer >>= act) := by
  rw [Answers, ensures_bind]
  refine ensures_transferDescriptor.mono ?_ fun _ _ _ => trivial
  rintro n k₁ ⟨rfl, hn, -⟩
  exact h n hn

theorem answers_sysRead (hsparing : S.SparingAt k.shared.world.1) :
    Answers S.audited threads p frame k read
      (sysRead S.audited p (frame.arg 0) ⟨frame.arg 1⟩ (frame.arg 2)) := by
  apply answers_bind_transferDescriptor
  intro fd hfd
  have hlength : (Kernel.onDescriptors p (Descriptors.read S.audited fd
      (min (frame.arg 2).toNat maxTransfer))).Ensures k (fun bytes _ => bytes.length < 2 ^ 63)
      fun _ _ => True := by
    refine ensures_onPart.2 (Descriptors.ensures_read.mono ?_ fun _ _ _ => trivial)
    rintro bytes _ ⟨-, id, file, w, -, -, -, hread, -⟩
    exact Nat.lt_of_le_of_lt (hsparing.audited _ _ _ bytes w hread) (min_maxTransfer_lt _)
  rw [Answers, ensures_bind]
  refine ensures_iff.2 ⟨fun bytes k₁ hrun => ?_, fun _ _ _ => trivial⟩
  -- The bytes are stored after the operation, and the call may still fail there.
  rw [ensures_bind]
  refine ensures_true.mono ?_ fun _ _ _ => trivial
  rintro _ _ - _ ⟨⟩
  exact ⟨bytes.length, hlength.of_ok hrun, rfl, .read hfd hrun⟩

theorem answers_sysWrite (hhonest : S.HonestAt k.shared.world.1) :
    Answers S.audited threads p frame k write
      (sysWrite S.audited p (frame.arg 0) ⟨frame.arg 1⟩ (frame.arg 2)) := by
  apply answers_bind_transferDescriptor
  intro fd hfd
  rw [Answers, ensures_bind]
  refine ensures_iff.2 ⟨fun bytes k₁ hbytes => ?_, fun _ _ _ => trivial⟩
  obtain rfl : k₁ = k := ensures_readMemory_eq.of_ok hbytes
  refine answers_of_onDescriptors UInt64.toNat ?_ toInt64_eq_ofNat
    fun count k' hrun => .write hfd hbytes hrun
  refine Descriptors.ensures_write_restored.mono ?_ fun _ _ _ => trivial
  rintro count _ ⟨v, offset, w, hwrite⟩
  have hcount := hhonest.audited v offset _ count w hwrite
  rw [Vector.length_toList] at hcount
  exact Nat.lt_of_le_of_lt hcount (min_maxTransfer_lt _)

theorem answers_handle {call : Syscall} (hexact : (k.process p).descriptors.Exact)
    (hcapacity : (k.process p).descriptors.capacity ≤ 2 ^ 63)
    (hsparing : S.SparingAt k.shared.world.1) (hhonest : S.HonestAt k.shared.world.1) :
    Answers S.audited threads p frame k call (handle S.audited threads p frame call) := by
  cases call with
  | fork => exact answers_sysFork
  | execv =>
    rw [Answers, handle, sysExecv]
    refine ensures_iff.2 ⟨fun r k' hrun => ?_, fun _ _ _ => trivial⟩
    obtain ⟨_, _, _, _, rfl, -⟩ := (ensures_sysExecv (S := S.audited)).of_ok hrun
    rintro _ ⟨⟩
  | exit => rintro _ ⟨⟩
  | waitpid => exact answers_sysWaitpid
  | getpid => exact answers_sysGetpid
  | openFile => exact answers_sysOpen hexact hcapacity
  | dup2 => exact answers_sysDup2
  | close => exact answers_sysClose
  | read => exact answers_sysRead hsparing
  | write => exact answers_sysWrite hhonest
  | lseek => exact answers_sysLseek

end Audited

/-! ### The way back to the user program -/

section Conveyed

variable (S : Services W) (threads : Threads W) (p : ProcessId) (frame : TrapFrame) (k : Kernel W)

/-- The handler of the call ends well, with `v` in the return register. -/
def SucceedsWith (v : UInt64) : Prop :=
  ∃ call k', frame.number = call.number ∧
    handle S threads p frame call k = .ok (.value v.toInt64) k' ∧
    Gives S threads p frame k call v.toNat

/-- The handler of the call fails, or there is none for the number. -/
def FailsWith (e : Errno) : Prop :=
  (∃ call k', frame.number = call.number ∧ handle S threads p frame call k = .error e k') ∨
    (∀ call : Syscall, frame.number ≠ call.number) ∧ e = .notImplemented

/-- The frame with which a user program goes on after a call tells it how the call ended. -/
structure Conveyed (frame' : TrapFrame) : Prop where
  succeeds : ∀ v, User.decodeReturn frame'.retval = .ok v ↔ SucceedsWith S threads p frame k v
  fails : ∀ c, User.decodeReturn frame'.retval = .error c ↔
    c ≠ .unknown ∧ ∃ e, c.errno = e.code ∧ FailsWith S threads p frame k e
  pc : frame'.pc.toNat = (frame.pc.toNat + 4) % 2 ^ 64
  number : frame'.number = frame.number
  args : frame'.args = frame.args
  sp : frame'.sp = frame.sp

variable {S threads p frame k}

theorem number_inj {call call' : Syscall} (h : call.number = call'.number) : call = call' := by
  have hcall := ofNumber_number call
  rw [h, ofNumber_number] at hcall
  cases hcall
  rfl

theorem ofNumber_eq_error_iff {n : UInt64} {e : Errno} :
    ofNumber n = .error e ↔ (∀ call : Syscall, n ≠ call.number) ∧ e = .notImplemented := by
  constructor
  · intro h
    refine ⟨?_, ?_⟩
    · rintro call rfl
      rw [ofNumber_number] at h
      cases h
    · unfold ofNumber at h
      split at h <;> cases h
      rfl
  · rintro ⟨hnone, rfl⟩
    cases hcall : ofNumber n with
    | ok call => exact (hnone call (number_of_ofNumber hcall)).elim
    | error e =>
      unfold ofNumber at hcall
      split at hcall <;> cases hcall
      rfl

theorem SucceedsWith.handle_eq {v : UInt64} {call : Syscall}
    (h : SucceedsWith S threads p frame k v) (hnumber : frame.number = call.number) :
    ∃ k', handle S threads p frame call k = .ok (.value v.toInt64) k' := by
  obtain ⟨call', k', hnumber', hrun, -⟩ := h
  cases number_inj (hnumber.symm.trans hnumber')
  exact ⟨k', hrun⟩

theorem FailsWith.handle_eq {e : Errno} {call : Syscall}
    (h : FailsWith S threads p frame k e) (hnumber : frame.number = call.number) :
    ∃ k', handle S threads p frame call k = .error e k' := by
  obtain ⟨call', k', hnumber', hrun⟩ | ⟨hnone, -⟩ := h
  · cases number_inj (hnumber.symm.trans hnumber')
    exact ⟨k', hrun⟩
  · exact (hnone call hnumber).elim

/-- What is left of the frame of a call that returns `v`. -/
theorem conveyed_resumed {v : Int64}
    (hsucceeds : ∀ u, User.decodeReturn v = .ok u ↔ SucceedsWith S threads p frame k u)
    (hfails : ∀ c, User.decodeReturn v = .error c ↔
      c ≠ .unknown ∧ ∃ e, c.errno = e.code ∧ FailsWith S threads p frame k e) :
    Conveyed S threads p frame k (frame.setReturn v).advancePc where
  succeeds := hsucceeds
  fails := hfails
  pc := UInt64.toNat_add frame.pc trapLength
  number := rfl
  args := rfl
  sp := rfl

theorem toInt64_inj {m n : UInt64} (h : m.toInt64 = n.toInt64) : m = n := by
  rw [← UInt64.toUInt64_toInt64 m, h, UInt64.toUInt64_toInt64]

/-- A call that succeeds leaves nothing that could be taken for an error. -/
theorem conveyed_of_ok {call : Syscall} {n : Nat} {k' : Kernel W}
    (hnumber : frame.number = call.number) (hn : n < 2 ^ 63)
    (hrun : handle S threads p frame call k = .ok (.value (.ofNat n)) k')
    (hgives : Gives S threads p frame k call n) :
    Conveyed S threads p frame k (frame.setReturn (.ofNat n)).advancePc := by
  have hdecode := User.decodeReturn_ofNat hn
  have hword : (UInt64.ofNat n).toNat = n := UInt64.toNat_ofNat_of_lt (Nat.lt_trans hn (by decide))
  refine conveyed_resumed (fun u => ?_) fun c => ?_
  · rw [hdecode]
    constructor
    · rintro ⟨⟩
      exact ⟨call, k', hnumber, hrun, hword.symm ▸ hgives⟩
    · intro hsucceeds
      obtain ⟨k'', hrun'⟩ := hsucceeds.handle_eq hnumber
      rw [hrun] at hrun'
      injection hrun' with hvalue
      injection hvalue with hvalue
      exact congrArg _ (toInt64_inj hvalue)
  · rw [hdecode]
    constructor
    · exact nofun
    · rintro ⟨-, e, -, hfails⟩
      obtain ⟨k'', hrun'⟩ := hfails.handle_eq hnumber
      cases hrun.symm.trans hrun'

/-- A failure is decoded to the error it is. -/
theorem conveyed_of_error {e : Errno} (hfails : FailsWith S threads p frame k e)
    (honly : ∀ f, FailsWith S threads p frame k f → f = e)
    (hnever : ∀ v, ¬ SucceedsWith S threads p frame k v) :
    Conveyed S threads p frame k (frame.setReturn e.returnValue).advancePc := by
  have hdecode := User.decodeReturn_returnValue e
  refine conveyed_resumed (fun u => ?_) fun c => ?_
  · rw [hdecode]
    exact ⟨nofun, fun h => (hnever u h).elim⟩
  · rw [hdecode]
    constructor
    · rintro ⟨⟩
      exact ⟨User.CallError.ofRaw_ne_unknown e, e, User.CallError.errno_ofRaw e, hfails⟩
    · rintro ⟨-, f, hcode, hfails'⟩
      cases honly f hfails'
      exact congrArg _ (User.CallError.eq_ofRaw_iff.2 hcode).symm

theorem conveyed_of_handle_error {call : Syscall} {e : Errno} {k' : Kernel W}
    (hnumber : frame.number = call.number)
    (hrun : handle S threads p frame call k = .error e k') :
    Conveyed S threads p frame k (frame.setReturn e.returnValue).advancePc := by
  refine conveyed_of_error (.inl ⟨call, k', hnumber, hrun⟩) (fun f hf => ?_) fun v hv => ?_
  · obtain ⟨k'', hrun'⟩ := hf.handle_eq hnumber
    cases hrun.symm.trans hrun'
    rfl
  · obtain ⟨k'', hrun'⟩ := hv.handle_eq hnumber
    cases hrun.symm.trans hrun'

theorem conveyed_of_unknown {e : Errno} (hcall : ofNumber frame.number = .error e) :
    Conveyed S threads p frame k (frame.setReturn e.returnValue).advancePc := by
  obtain ⟨hnone, rfl⟩ := ofNumber_eq_error_iff.1 hcall
  refine conveyed_of_error (.inr ⟨hnone, rfl⟩) ?_ ?_
  · rintro f (⟨call, -, hnumber, -⟩ | ⟨-, rfl⟩)
    · exact (hnone call hnumber).elim
    · rfl
  · rintro v ⟨call, -, hnumber, -⟩
    exact hnone call hnumber

theorem trap_eq_resumed {frame' : TrapFrame} {k' : Kernel W}
    (h : trap S threads p frame k = (.resumed frame', k')) :
    ∃ v, dispatch S threads p frame k = (.value v, k') ∧
      frame' = (frame.setReturn v).advancePc := by
  unfold trap at h
  split at h <;> cases h
  exact ⟨_, by assumption, rfl⟩

end Conveyed

/-- In every state that can be reached, for any number and any arguments, a user program that goes
on after a call decodes the value in the return register to the very number that the call gave if
and only if the call succeeded, and to the error that the call failed with if and only if it
failed. -/
theorem results_reach_user_program {config : Config} {world : W} {turns : List Turn}
    {s : System (W × Ledger)} {S : Services W} {p : ProcessId}
    (execution : Execution S.audited (System.empty config (world, [])) turns s)
    (hp : p < s.kernel.records.size)
    (hcapacity : (s.kernel.process p).descriptors.capacity < 2 ^ 63)
    (hsparing : S.SparingAt s.kernel.shared.world.1)
    (hhonest : S.HonestAt s.kernel.shared.world.1) (threads : Threads (W × Ledger))
    (frame frame' : TrapFrame) (k' : Kernel (W × Ledger))
    (htrap : trap S.audited threads p frame s.kernel = (.resumed frame', k')) :
    Conveyed S.audited threads p frame s.kernel frame' := by
  obtain ⟨v, hdispatch, rfl⟩ := trap_eq_resumed htrap
  cases hcall : ofNumber frame.number with
  | error e =>
    rw [dispatch_unknown hcall] at hdispatch
    cases hdispatch
    exact conveyed_of_unknown hcall
  | ok call =>
    have hnumber := number_of_ofNumber hcall
    rw [dispatch_of_number hnumber] at hdispatch
    cases hrun : handle S.audited threads p frame call s.kernel with
    | ok r k₁ =>
      rw [hrun] at hdispatch
      cases hdispatch
      have hanswers : Answers S.audited threads p frame s.kernel call _ :=
        answers_handle (execution.booked.exact_process hp) (Nat.le_of_lt hcapacity) hsparing hhonest
      obtain ⟨n, hn, rfl, hgives⟩ := hanswers.of_ok hrun v rfl
      exact conveyed_of_ok hnumber hn hrun hgives
    | error e k₁ =>
      rw [hrun] at hdispatch
      cases hdispatch
      exact conveyed_of_handle_error hnumber hrun

/-- A parent waits for its child, which is a zombie, and decodes the id of that child. -/
theorem results_reach_user_program_waitpid :
    let frame := TrapFrame.ofCall waitpid.number [3, 0, 0]
    let frame' := { frame with retval := 3, pc := 4 }
    ∃ k, trap Ram.services.audited ⟨fun _ _ => pure (), []⟩ 0 frame zombieChild =
        (.resumed frame', k) ∧
      User.decodeReturn frame'.retval = .ok 3 ∧
      SucceedsWith Ram.services.audited ⟨fun _ _ => pure (), []⟩ 0 frame zombieChild 3 := by
  obtain ⟨turns, execution⟩ := exists_execution_zombieChild
  have hconveyed := results_reach_user_program execution (p := 0) (by decide +kernel)
    (by decide +kernel) (Ram.sparingAt _) (Ram.honestAt_of_noClaims (by decide +kernel))
    ⟨fun _ _ => pure (), []⟩ (.ofCall waitpid.number [3, 0, 0])
    { TrapFrame.ofCall waitpid.number [3, 0, 0] with retval := 3, pc := 4 } _
    (Prod.ext (by decide +kernel) rfl)
  exact ⟨_, Prod.ext (by decide +kernel) rfl, rfl, (hconveyed.succeeds 3).1 rfl⟩

end Syscall

end UnixCore
