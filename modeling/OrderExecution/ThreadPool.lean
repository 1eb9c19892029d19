import OrderExecution.MPMCQueue

/-!
# `ThreadPool`

Workers that take tasks from one `MPMCQueue`, any number of other threads that
submit them, and the destructor. A task that a worker runs may submit others.
-/

namespace OrderExecution

/-- Where a worker thread is: at `running_.load()`, in the `dequeue` of its loop
or of the loop after it (`last`), or in a task that it has taken there. -/
inductive WorkerPc (α : Type) where
  | poll
  | take (last : Bool)
  | run (last : Bool) (task : α)
  | done

/-- The threads below the number of workers are the workers; a thread has its
place in `queue` while it is in an operation of the queue. `ran` are the tasks
whose `run` has returned. -/
structure PoolState (α : Type) where
  queue : QueueState α
  running : Bool := true
  workers : Nat → WorkerPc α := fun _ => .poll
  ran : List α := []

inductive PoolEvent (α : Type) where
  | submit (t : Nat) (task : α)
  /-- The next access of the queue's memory. -/
  | access (t : Nat) (spurious : Bool)
  /-- The next step of a worker outside the queue. -/
  | work (t : Nat)
  /-- The destructor resets `running_`, and then joins the workers. -/
  | stop

def WorkerPc.isRun {α : Type} : WorkerPc α → Bool
  | .run _ _ => true
  | _ => false

/-- The thread is in an operation of the queue. -/
def QueuePc.busy {α : Type} : QueuePc α → Bool
  | .idle | .enqueued _ | .dequeued _ => false
  | _ => true

namespace PoolState

variable {α : Type} (n CAP : Nat)

def init (task : α) : PoolState α where
  queue := .init task

def setQueue (s : PoolState α) (q : QueueState α) : PoolState α := { s with queue := q }

def goto (s : PoolState α) (t : Nat) (w : WorkerPc α) : PoolState α :=
  { s with workers := Function.update s.workers t w }

def finish (s : PoolState α) (task : α) : PoolState α := { s with ran := s.ran ++ [task] }

/-- Thread `t` begins a `dequeue`. -/
def beginTake (s : PoolState α) (t : Nat) (last : Bool) : Option (PoolState α) :=
  (s.queue.step CAP (.dequeue t)).map fun q => (s.setQueue q).goto t (.take last)

def work (s : PoolState α) (t : Nat) : Option (PoolState α) :=
  match s.workers t with
  | .poll => s.beginTake CAP t (!s.running)
  | .take last =>
    match s.queue.threads t with
    | .dequeued (some task) => some (s.goto t (.run last task))
    | .dequeued none => some (s.goto t (if last then .done else .poll))
    | _ => none
  | .run last task =>
    if (s.queue.threads t).busy then none
    else if last then (s.finish task).beginTake CAP t true
    else some ((s.finish task).goto t .poll)
  | .done => none

/-- A worker submits from within a task. -/
def step (s : PoolState α) : PoolEvent α → Option (PoolState α)
  | .submit t task =>
    if t < n ∧ (s.workers t).isRun = false then none
    else (s.queue.step CAP (.enqueue t task)).map s.setQueue
  | .access t spurious => (s.queue.step CAP (.step t spurious)).map s.setQueue
  | .work t => if t < n then s.work CAP t else none
  | .stop => some { s with running := false }

end PoolState

end OrderExecution
