import Dcpu.Machine.Step

/-! Runs of many instructions. -/
namespace Dcpu.Machine

/-- Execute the given number of instructions. -/
def run : Nat → EStateM ExecuteError Machine Unit
  | 0 => return
  | n + 1 => do
    let _ ← step
    run n

/-- Execute instructions until `stop` holds and count them on from `executed`. At most `limit` are
executed; `stop` is looked at before each of them and after the last. -/
def runUntilFrom (stop : Machine → Bool) (executed : Nat) :
    Nat → EStateM ExecuteError Machine Nat
  | 0 => do if stop (← get) then return executed else throw (.limit executed)
  | limit + 1 => do
    if stop (← get) then return executed
    else
      let _ ← step
      runUntilFrom stop (executed + 1) limit

/-- Execute at most `limit` instructions until `stop` holds, and count them. -/
def runUntil (stop : Machine → Bool) (limit : Nat) : EStateM ExecuteError Machine Nat :=
  runUntilFrom stop 0 limit

end Dcpu.Machine
