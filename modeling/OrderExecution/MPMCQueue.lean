import Mathlib.Algebra.Group.Nat.Defs
import Mathlib.Logic.Function.Basic
import Mathlib.Data.Int.Init

/-!
# `MPMCQueue`

A ring of `CAP` cells, each with a sequence number that says whose turn it is.
Any number of threads enqueue and dequeue, one access of shared memory at a
time. Words are numbers below `2 ^ 64`.
-/

namespace OrderExecution

/-- What a cell holds: nothing that is still to be read, a task that is written,
or a task that is written and published. The source keeps no such field. -/
inductive Stage where
  | empty
  | written
  | published
  deriving DecidableEq

structure Cell (α : Type) where
  sequence : Nat
  data : α
  stage : Stage := .empty

structure MPMCQueue (α : Type) where
  buffer : Nat → Cell α
  enqueuePos : Nat := 0
  dequeuePos : Nat := 0

/-- Where a thread is in `enqueue` or `dequeue`: the access it makes next, and
its local variables. `enqueued` and `dequeued` are the results. -/
inductive QueuePc (α : Type) where
  | idle
  | enqLoadPos (task : α)
  | enqLoadSeq (task : α) (pos : Nat)
  | enqCas (task : α) (pos : Nat)
  | enqWrite (task : α) (pos : Nat)
  | enqPublish (pos : Nat)
  | enqueued (ok : Bool)
  | deqLoadPos
  | deqLoadSeq (pos : Nat)
  | deqCas (pos : Nat)
  /-- `claim` is the number of claims before its own. -/
  | deqRead (pos claim : Nat)
  | deqRelease (pos : Nat) (task : α)
  | dequeued (task : Option α)

/-- The queue, its threads, and what has happened: the accepted tasks by
enqueue claim, the obtained ones by dequeue claim (`none` for a claim that has
not read its cell yet), and the number of operations begun. -/
structure QueueState (α : Type) extends MPMCQueue α where
  threads : Nat → QueuePc α := fun _ => .idle
  accepted : List α := []
  obtained : List (Option α) := []
  operations : Nat := 0

inductive QueueEvent (α : Type) where
  | enqueue (t : Nat) (task : α)
  | dequeue (t : Nat)
  /-- `compare_exchange_weak` may fail spuriously. -/
  | step (t : Nat) (spurious : Bool)

/-- `CAP` is a power of two, at least 2, and a `size_t`. -/
structure IsCapacity (CAP : Nat) : Prop where
  exponent : ∃ k, 1 ≤ k ∧ k < 64 ∧ CAP = 2 ^ k

/-- `static_cast<intptr_t>(a) - static_cast<intptr_t>(b)` -/
def wordDiff (a b : Nat) : Int := Int.bmod a (2 ^ 64) - Int.bmod b (2 ^ 64)

namespace QueueState

variable {α : Type} (CAP : Nat)

/-- `MPMCQueue()`, with a default `Task` in every cell. -/
def init (task : α) : QueueState α where
  buffer i := { sequence := i, data := task }

/-- `buffer_[pos & (CAP - 1)]` -/
def cell (s : QueueState α) (pos : Nat) : Cell α := s.buffer (pos &&& (CAP - 1))

def setCell (s : QueueState α) (pos : Nat) (c : Cell α) : QueueState α :=
  { s with buffer := Function.update s.buffer (pos &&& (CAP - 1)) c }

def goto (s : QueueState α) (t : Nat) (pc : QueuePc α) : QueueState α :=
  { s with threads := Function.update s.threads t pc }

/-- The next access of thread `t`. -/
def stepThread (s : QueueState α) (t : Nat) (spurious : Bool) : Option (QueueState α) :=
  match s.threads t with
  | .enqLoadPos task => some (s.goto t (.enqLoadSeq task s.enqueuePos))
  | .enqLoadSeq task pos =>
    let diff := wordDiff (s.cell CAP pos).sequence pos
    if diff = 0 then some (s.goto t (.enqCas task pos))
    else if diff < 0 then some (s.goto t (.enqueued false))
    else some (s.goto t (.enqLoadPos task))
  | .enqCas task pos =>
    if s.enqueuePos = pos ∧ spurious = false then
      some { s.goto t (.enqWrite task pos) with
        enqueuePos := (pos + 1) % 2 ^ 64, accepted := s.accepted ++ [task] }
    else some (s.goto t (.enqLoadSeq task s.enqueuePos))
  | .enqWrite task pos =>
    some ((s.setCell CAP pos { s.cell CAP pos with data := task, stage := .written }).goto t (.enqPublish pos))
  | .enqPublish pos =>
    some ((s.setCell CAP pos { s.cell CAP pos with sequence := (pos + 1) % 2 ^ 64, stage := .published }).goto t
      (.enqueued true))
  | .deqLoadPos => some (s.goto t (.deqLoadSeq s.dequeuePos))
  | .deqLoadSeq pos =>
    let diff := wordDiff (s.cell CAP pos).sequence ((pos + 1) % 2 ^ 64)
    if diff = 0 then some (s.goto t (.deqCas pos))
    else if diff < 0 then some (s.goto t (.dequeued none))
    else some (s.goto t .deqLoadPos)
  | .deqCas pos =>
    if s.dequeuePos = pos ∧ spurious = false then
      some { s.goto t (.deqRead pos s.obtained.length) with
        dequeuePos := (pos + 1) % 2 ^ 64, obtained := s.obtained ++ [none] }
    else some (s.goto t (.deqLoadSeq s.dequeuePos))
  | .deqRead pos claim =>
    some { (s.setCell CAP pos { s.cell CAP pos with stage := .empty }).goto t
        (.deqRelease pos (s.cell CAP pos).data) with
      obtained := s.obtained.set claim (some (s.cell CAP pos).data) }
  | .deqRelease pos task =>
    some ((s.setCell CAP pos { s.cell CAP pos with sequence := (pos + CAP) % 2 ^ 64 }).goto t (.dequeued (some task)))
  | .idle | .enqueued _ | .dequeued _ => none

/-- A thread that is in no operation begins one. -/
def start (s : QueueState α) (t : Nat) (pc : QueuePc α) : Option (QueueState α) :=
  match s.threads t with
  | .idle | .enqueued _ | .dequeued _ => some { s.goto t pc with operations := s.operations + 1 }
  | _ => none

def step (s : QueueState α) : QueueEvent α → Option (QueueState α)
  | .enqueue t task => s.start t (.enqLoadPos task)
  | .dequeue t => s.start t .deqLoadPos
  | .step t spurious => s.stepThread CAP t spurious

end QueueState

end OrderExecution
