import ConfigGraph.Container.Assembly

/-!
# Wiring

Wiring proceeds by acts on an assembly, and what comes next may depend on the assembly as it is
(`Wiring`). It gives a value or fails; what has been done up to a failure stays.
-/

namespace ConfigGraph

/-- A course of acts, up to a value or an error. -/
inductive Wiring (α : Type) where
  | done (a : α)
  | fail (e : ContainerError)
  /-- Does something, then goes on. -/
  | doing (a : Act) (next : Wiring α)
  /-- Goes on with the assembly as it is. -/
  | look (next : Assembly → Wiring α)

namespace Wiring

variable {α β : Type}

/-- What comes of a course, and the assembly afterwards. -/
def run : Wiring α → Assembly → Except ContainerError α × Assembly
  | done a, s => (.ok a, s)
  | fail e, s => (.error e, s)
  | doing a next, s => next.run (s.act a)
  | look next, s => (next s).run s

/-- What a course does, in order. -/
def acts : Wiring α → Assembly → List Act
  | done _, _ | fail _, _ => []
  | doing a next, s => a :: next.acts (s.act a)
  | look next, s => (next s).acts s

/-- Goes on with the value of a course, unless that fails. -/
def andThen (x : Wiring α) (f : α → Wiring β) : Wiring β :=
  match x with
  | done a => f a
  | fail e => fail e
  | doing a next => doing a (next.andThen f)
  | look next => look fun s => (next s).andThen f

instance : Monad Wiring where
  pure := done
  bind := andThen

/-- Does one thing. -/
def once (a : Act) : Wiring Unit := doing a (done ())

/-- The assembly as it is. -/
def current : Wiring Assembly := look done

/-- Gives the error of a course as a value. -/
def attempt : Wiring α → Wiring (Except ContainerError α)
  | done a => done (.ok a)
  | fail e => done (.error e)
  | doing a next => doing a next.attempt
  | look next => look fun s => (next s).attempt

/-- A course without acts. -/
def ofExcept : Except ContainerError α → Wiring α
  | .ok a => done a
  | .error e => fail e

/-- Notes that something has happened. -/
def note (e : Event) : Wiring Unit := once (.note e)

/-- Follows a course while a bean is at the end of the chain. -/
def within (f : Frame) (x : Wiring α) : Wiring α := do
  once (.push f)
  let r ← x.attempt
  once .pop
  ofExcept r

/-- Follows the course of a part of a bean and marks where it begins and, if it does not fail, where
it ends. -/
def part (owner : Option Nat) (p : Part) (x : Wiring α) : Wiring α := do
  once (.mark owner (.begins p))
  let a ← x
  once (.mark owner (.ends p))
  return a

/-- Follows the courses of parts one after the other, each with what comes of the one before it, up
to the first that fails. The first of them has the number `k`. -/
def inTurn (owner : Option Nat) (kind : Nat → Part) (course : α → β → Wiring α) (k : Nat) (a : α) :
    List β → Wiring α
  | [] => return a
  | b :: rest => do
    let a ← part owner (kind k) (course a b)
    inTurn owner kind course (k + 1) a rest

end Wiring

end ConfigGraph
