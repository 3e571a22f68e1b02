import UnixCore.Process.Record
import UnixCore.Process.Table

/-! A process table that holds the records themselves. -/

namespace UnixCore

abbrev Registry := ProcessTable Process

namespace Registry

def createFresh (t : Registry) (name : String) (openMax : Nat) : Except Errno (Pid × Registry) :=
  t.create fun pid => .fresh pid name openMax

/-- Registers a process `n` times, and unless `keep` unregisters it each time. Gives how the last
time ended. -/
def churn (name : String) (openMax : Nat) (keep : Bool) :
    (n : Nat) → (last : Option (Except Errno Pid)) → Registry → Option (Except Errno Pid) × Registry
  | 0, last, t => (last, t)
  | n + 1, _, t =>
    match createFresh t name openMax with
    | .ok (pid, t) => churn name openMax keep n (some (.ok pid)) (if keep then t else t.remove pid)
    | .error e => churn name openMax keep n (some (.error e)) t

end Registry

end UnixCore
