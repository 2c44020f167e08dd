import Mathlib.Algebra.Ring.Nat
import Mathlib.Data.Int.Notation
import Mathlib.Data.Nat.Notation
import Mathlib.Logic.Function.Basic

/-! `ackTable` (`socketio/ack.go`): the callbacks that wait for an acknowledgement. Each method
is one critical section of `t.mu`; `invoke` calls the callback after it has left the section. -/

namespace Gosocketio

/-- `none` in `cbs` is a key that is not in the map, and `some none` a nil function under it. -/
structure AckTable (C : Type) where
  seq : ℤ := 0
  cbs : ℤ → Option (Option C) := fun _ => none

namespace AckTable

variable {C : Type} (t : AckTable C)

/-- `seq` is an `int64`, which wraps around. -/
def next : ℤ × AckTable C :=
  let seq := (t.seq + 1).bmod (2 ^ 64)
  (seq, { t with seq })

def register (id : ℤ) (cb : Option C) : AckTable C := { t with cbs := Function.update t.cbs id (some cb) }

def remove (id : ℤ) : AckTable C := { t with cbs := Function.update t.cbs id none }

def take (id : ℤ) : Option C × Bool × AckTable C :=
  match t.cbs id with
  | some cb => (cb, true, t.remove id)
  | none => (none, false, t)

def clear : AckTable C := { t with cbs := fun _ => none }

/-- A call of `invoke` after its critical section: what it was called with, what it returns, the
callback it has in hand, and whether it has called it. -/
structure Invocation (C A : Type) where
  id : ℤ
  args : A
  ok : Bool
  cb : Option C
  called : Bool := false

/-- One table that any number of goroutines use. A callback is known by the number of the call
that registered it; `registered` lists the id of each such call. -/
structure Shared (A : Type) where
  table : AckTable ℕ := {}
  issued : List ℤ := []
  registered : List ℤ := []
  invocations : List (Invocation ℕ A) := []
  calls : List (ℕ × A) := []

namespace Shared

inductive Act (A : Type) where
  | next
  | register (id : ℤ) (isNil : Bool)
  | invoke (id : ℤ) (args : A)
  | call (k : ℕ)
  | remove (id : ℤ)
  | clear

variable {A : Type} (s : Shared A)

/-- An id is registered only after `next` has returned it. -/
def step : Act A → Option (Shared A)
  | .next =>
    let (id, table) := s.table.next
    some { s with table, issued := s.issued ++ [id] }
  | .register id isNil =>
    if id ∈ s.issued then
      some { s with
        table := s.table.register id (if isNil then none else some s.registered.length)
        registered := s.registered ++ [id] }
    else none
  | .invoke id args =>
    let (cb, ok, table) := s.table.take id
    some { s with table, invocations := s.invocations ++ [{ id, args, ok, cb }] }
  | .call k =>
    match s.invocations[k]? with
    | some inv =>
      match inv.cb with
      | some n =>
        if inv.called then none
        else
          some { s with
            invocations := s.invocations.set k { inv with called := true }
            calls := s.calls ++ [(n, inv.args)] }
      | none => none
    | none => none
  | .remove id => some { s with table := s.table.remove id }
  | .clear => some { s with table := s.table.clear }

end Shared

end AckTable

end Gosocketio
