import Mathlib.Algebra.Group.Nat.Defs
import Mathlib.Logic.Function.Basic

/-!
# `AsyncLogger`

A ring of buffers, each with a `ready` flag. Producers claim positions with a
`fetch_add`, and one thread outputs the buffers in the order of the positions.
A message stands for the line that `push_impl` formats.
-/

namespace OrderExecution

/-- `RING_CAP` -/
def ringCap : Nat := 4096

/-- A slot of the ring. `unread` is set by a write and reset by an output; the
source keeps no such flag. -/
structure LogSlot (α : Type) where
  buf : α
  ready : Bool := false
  unread : Bool := false

structure AsyncLogger (α : Type) where
  ring : Nat → LogSlot α
  writeHead : Nat := 0
  readHead : Nat := 0
  running : Bool := true

/-- Where a thread is in `push_impl`: in the wait, before the write of the buffer
or before `ready = true`. `idx` is what `fetch_add` returned, and `claim` the
number of claims before. -/
inductive ProducerPc (α : Type) where
  | idle
  | wait (idx claim : Nat) (line : α)
  | write (idx claim : Nat) (line : α)
  | publish (idx claim : Nat)

/-- Where the thread of `io_loop` is: at the condition of the loop, the loads of
the heads, the test of `ready`, the output, the reset of `ready` or the advance
of `read_head_`. -/
inductive ReaderPc where
  | loop
  | load
  | test (r : Nat)
  | output (r : Nat)
  | clear (r : Nat)
  | advance
  | done
  deriving DecidableEq

/-- The logger and its threads, the messages in the order of their claims, and
what was output. -/
structure LoggerState (α : Type) extends AsyncLogger α where
  producers : Nat → ProducerPc α := fun _ => .idle
  reader : ReaderPc := .loop
  claimed : List α := []
  printed : List α := []

inductive LoggerEvent (α : Type) where
  /-- Thread `t` calls `push_impl` and claims a position. -/
  | push (t : Nat) (line : α)
  | produce (t : Nat)
  | read
  /-- The destructor resets `running_`. -/
  | stop

namespace LoggerState

variable {α : Type}

def init (line : α) : LoggerState α where
  ring _ := { buf := line }

/-- `ring_[idx % RING_CAP]` -/
def slot (s : LoggerState α) (idx : Nat) : LogSlot α := s.ring (idx % ringCap)

def setSlot (s : LoggerState α) (idx : Nat) (x : LogSlot α) : LoggerState α :=
  { s with ring := Function.update s.ring (idx % ringCap) x }

def goto (s : LoggerState α) (t : Nat) (pc : ProducerPc α) : LoggerState α :=
  { s with producers := Function.update s.producers t pc }

def push (s : LoggerState α) (t : Nat) (line : α) : Option (LoggerState α) :=
  match s.producers t with
  | .idle => some { s.goto t (.wait s.writeHead s.claimed.length line) with
      writeHead := (s.writeHead + 1) % 2 ^ 64, claimed := s.claimed ++ [line] }
  | _ => none

/-- The next step of thread `t` in `push_impl`. -/
def produce (s : LoggerState α) (t : Nat) : Option (LoggerState α) :=
  match s.producers t with
  | .idle => none
  | .wait idx claim line => if (s.slot idx).ready then some s else some (s.goto t (.write idx claim line))
  | .write idx claim line =>
    some ((s.setSlot idx { s.slot idx with buf := line, unread := true }).goto t (.publish idx claim))
  | .publish idx _ => some ((s.setSlot idx { s.slot idx with ready := true }).goto t .idle)

/-- The next step of `io_loop`. Only this thread writes `read_head_`. -/
def read (s : LoggerState α) : Option (LoggerState α) :=
  match s.reader with
  | .loop =>
    if s.running ∨ s.readHead ≠ s.writeHead then some { s with reader := .load }
    else some { s with reader := .done }
  | .load =>
    if s.readHead = s.writeHead then some { s with reader := .loop }
    else some { s with reader := .test s.readHead }
  | .test r =>
    if (s.slot r).ready then some { s with reader := .output r } else some { s with reader := .loop }
  | .output r =>
    some { s.setSlot r { s.slot r with unread := false } with
      reader := .clear r, printed := s.printed ++ [(s.slot r).buf] }
  | .clear r => some { s.setSlot r { s.slot r with ready := false } with reader := .advance }
  | .advance => some { s with reader := .loop, readHead := (s.readHead + 1) % 2 ^ 64 }
  | .done => none

def step (s : LoggerState α) : LoggerEvent α → Option (LoggerState α)
  | .push t line => s.push t line
  | .produce t => s.produce t
  | .read => s.read
  | .stop => some { s with running := false }

/-! ## What is asked of the ring -/

/-- The reader waits for a message. -/
def Waits (s : LoggerState α) : Prop :=
  match s.reader with
  | .loop | .load | .test _ => True
  | _ => False

/-- No producer writes a buffer that is not output yet, the output is the first
messages in the order of their claims, and once every message is published the
reader's next slot is ready. -/
structure Sound (s : LoggerState α) : Prop where
  kept : ∀ t idx claim line, s.producers t = .write idx claim line → (s.slot idx).unread = false
  ordered : s.printed <+: s.claimed
  ready : (∀ t, s.producers t = .idle) → s.Waits → s.readHead ≠ s.writeHead →
    (s.slot s.readHead).ready = true

/-- A producer that passes the wait is less than a round ahead of the output. -/
def PassesInTurn (s : LoggerState α) : ProducerPc α → Prop
  | .wait idx claim _ => (s.slot idx).ready = false → claim < s.printed.length + ringCap
  | _ => True

def InTurn (s : LoggerState α) : LoggerEvent α → Prop
  | .produce t => s.PassesInTurn (s.producers t)
  | _ => True

instance (s : LoggerState α) : (pc : ProducerPc α) → Decidable (s.PassesInTurn pc)
  | .wait idx claim _ =>
    inferInstanceAs (Decidable ((s.slot idx).ready = false → claim < s.printed.length + ringCap))
  | .idle => isTrue trivial
  | .write .. => isTrue trivial
  | .publish .. => isTrue trivial

instance (s : LoggerState α) : (e : LoggerEvent α) → Decidable (s.InTurn e)
  | .produce t => inferInstanceAs (Decidable (s.PassesInTurn (s.producers t)))
  | .push .. => isTrue trivial
  | .read => isTrue trivial
  | .stop => isTrue trivial

end LoggerState

end OrderExecution
