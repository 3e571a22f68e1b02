import UnixCore.Ram.Services
import UnixCore.Syscall.Dispatch

/-! A kernel over a world in memory, and an observer who numbers the processes as they appear,
counts yields, and keeps reports of what happens inside a call. -/

namespace UnixCore

/-- What an observer has written down. The reports are of any type. -/
structure Observer (ρ : Type) where
  /-- The process records in the order they were first seen. -/
  seen : Array ProcessId := #[]
  yields : Nat := 0
  reports : Array ρ := #[]

abbrev Observed (ρ : Type) := Kernel (Ram × Observer ρ)

def Kernel.ram {β : Type} (k : Kernel (Ram × β)) : Ram := k.shared.world.1

def Kernel.observer {β : Type} (k : Kernel (Ram × β)) : β := k.shared.world.2

namespace Observed

variable {ρ α : Type}

def services (ρ : Type) : Services (Ram × Observer ρ) := Ram.services.beside (Observer ρ)

def modifyRam (f : Ram → Ram) (k : Observed ρ) : Observed ρ :=
  k.modifyWorld fun w => (f w.1, w.2)

def modifyObserver (f : Observer ρ → Observer ρ) (k : Observed ρ) : Observed ρ :=
  k.modifyWorld fun w => (w.1, f w.2)

/-- Gives a process the next number, unless it has one. -/
def see (p : ProcessId) (k : Observed ρ) : Observed ρ :=
  if k.observer.seen.contains p then k
  else modifyObserver (fun o => { o with seen := o.seen.push p }) k

def seeAll (k : Observed ρ) : Observed ρ :=
  (k.table.pids.filterMap k.table.get?).foldl (fun k p => see p k) k

/-- Runs a step with a fresh page for its yields and reports, and sees what it registered. Gives
the page, with only the processes first seen during the step, and turns back to the page of the
step around it. -/
def onFreshPage (step : Observed ρ → α × Observed ρ) (k : Observed ρ) :
    α × Observer ρ × Observed ρ :=
  let outer := k.observer
  let (a, k) := step (modifyObserver (fun o => { o with yields := 0, reports := #[] }) k)
  let k := seeAll k
  let page := k.observer
  (a, { page with seen := page.seen.extract outer.seen.size page.seen.size },
    modifyObserver (fun o => { o with yields := outer.yields, reports := outer.reports }) k)

def note (step : Observed ρ → ρ × Observed ρ) (k : Observed ρ) : Observed ρ :=
  let (report, k) := step k
  modifyObserver (fun o => { o with reports := o.reports.push report }) k

/-- The yields of a step in which other things happen. Every yield after them gives the wait up. -/
def yieldsPerStep : Nat := 50

/-- The threads of a call during which other things happen: `onStart` while the thread of a child
starts, which is seen first, and `onYield n` in the yield with number `n`. -/
def threads (onStart : Observed ρ → Observed ρ) (onYield : Nat → Observed ρ → Observed ρ)
    (k : Observed ρ) : Threads (Ram × Observer ρ) where
  start := Ram.startNoted fun child k => onStart (see child k)
  yields := (List.range (max 1 (yieldsPerStep + 1 - k.observer.yields))).map fun _ k =>
    let number := k.observer.yields + 1
    let k := modifyObserver (fun o => { o with yields := number }) k
    if number ≤ yieldsPerStep then onYield number k else k

/-- The threads of a call that is alone, except that `exiter` happens in the first yield. -/
def lonely (exiter : List (Observed ρ → Observed ρ)) : Threads (Ram × Observer ρ) where
  start := Ram.startOrReject
  yields := exiter

/-- Makes the file of a name the current directory of a process, or none if there is no such file.
Tells whether the process had one before. -/
def changeDirectory (p : ProcessId) (name : String) (k : Observed ρ) : Bool × Observed ρ :=
  let had := (k.process p).directory.isSome
  match k.ram.handle? name with
  | some (vnode, ram) =>
    (had, Kernel.setDirectory (services ρ) p (some vnode) (modifyRam (fun _ => ram) k))
  | none => (had, Kernel.setDirectory (services ρ) p none k)

def swapSpace (p : ProcessId) (fresh : Option (Ram → AddressSpace × Ram)) (k : Observed ρ) :
    Bool × Observed ρ :=
  let had := (k.process p).space.isSome
  match fresh with
  | some make =>
    let (space, ram) := make k.ram
    (had, Kernel.setSpace (services ρ) p (some space) (modifyRam (fun _ => ram) k))
  | none => (had, Kernel.setSpace (services ρ) p none k)

/-- Runs a wait for `pid` while another thread makes that process exit with a code, if there is a
code and such a process. Otherwise a wait that nobody would end is not made. -/
def waiting (caller : ProcessId) (pid : Pid) (options : Int32) (code : Option Int32)
    (wait : Threads (Ram × Observer ρ) → Observed ρ → α × Observed ρ) (k : Observed ρ) :
    Option α × Observed ρ :=
  match code, k.table.get? pid with
  | some code, some target =>
    let exit := Kernel.exit target code
    let (a, k) := wait (lonely [exit]) k
    (some a, exit k)
  | _, _ =>
    if k.Waits caller pid options then
      (none, k)
    else
      let (a, k) := wait (lonely []) k
      (some a, k)

end Observed

end UnixCore
