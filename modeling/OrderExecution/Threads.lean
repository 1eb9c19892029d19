import OrderExecution.ArbSteps

/-!
# The threads of the coordinator

Every thread that runs the code of `ArbCoordinator`, by what it has still to
run and by which of `mutex_` and `threads_mutex_` it holds or waits for, or
which thread it joins. A critical section changes the coordinator when it
begins, and goes on to `threads_mutex_` when it has a thread to start.
-/

namespace OrderExecution

/-- What a thread runs next. `clearPairs` is the second half of `reset()`. -/
inductive Job where
  | addLeg (s : Signal)
  | dispatch (call : DispatchCall)
  | onFill (exchangeOrderId : Bytes) (fillPrice fillQty : ℚ) (isReject : Bool)
  | getPair (groupId : CStr 15)
  | worker (w : Worker)
  | reset
  | clearPairs
  | destroy
  deriving DecidableEq

namespace Job

def isCall : Job → Bool
  | .addLeg _ | .onFill _ _ _ _ | .getPair _ | .reset | .destroy => true
  | .dispatch _ | .worker _ | .clearPairs => false

def isWorker : Job → Bool
  | .worker _ => true
  | _ => false

/-- Whether it begins by locking `mutex_`. -/
def takesMutex : Job → Bool
  | .addLeg _ | .dispatch (.enter _) | .onFill _ _ _ _ | .getPair _ | .clearPairs => true
  | .worker (.unwindSend _ _ _) => false
  | .worker _ => true
  | .dispatch _ | .reset | .destroy => false

end Job

/-- Where a thread stands. The flag of the two places about `threads_mutex_`
says whether `mutex_` is held meanwhile, `next` what is left after. -/
inductive Place where
  | ready (job : Job)
  | waitsMutex (job : Job)
  | holdsMutex (start : Option Worker) (next : Option Job)
  | waitsThreads (underMutex : Bool) (start : Worker) (next : Option Job)
  | holdsThreads (underMutex : Bool) (start : Worker) (next : Option Job)
  | waitsJoin (isReset : Bool)
  | joining (isReset : Bool) (rest : List Nat)
  | done
  deriving DecidableEq

namespace Place

def hasMutex : Place → Bool
  | .holdsMutex _ _ => true
  | .waitsThreads underMutex _ _ | .holdsThreads underMutex _ _ => underMutex
  | _ => false

def hasThreads : Place → Bool
  | .holdsThreads _ _ _ | .joining _ _ => true
  | _ => false

def wantsMutex : Place → Bool
  | .waitsMutex _ => true
  | _ => false

def wantsThreads : Place → Bool
  | .waitsThreads _ _ _ | .waitsJoin _ => true
  | _ => false

/-- The threads it has still to join; the first is the one it is joining. -/
def toJoin : Place → List Nat
  | .joining _ rest => rest
  | _ => []

/-- Where a thread goes on once it holds no lock. -/
def after : Option Job → Place
  | some job => .ready job
  | none => .done

end Place

/-- The thread `t` is `places[t]`; `workerThreads` is `worker_threads_`. -/
structure Threads where
  arb : ArbCoordinator
  places : List Place := []
  workerThreads : List Nat := []

/-- What a thread does in one step: the coordinator after it, its next place,
the thread it puts at the end of `worker_threads_`, and whether it clears that. -/
structure Move where
  arb : ArbCoordinator
  place : Place
  emplaced : Option Worker := none
  clears : Bool := false

inductive ThreadEvent where
  | call (job : Job)
  /-- `result` is what the future of the thread yields, `now` what the clock says. -/
  | go (t : Nat) (result : OrderResult) (now : Int)
  /-- Another user of the guard or of the id generator. -/
  | guard (op : GuardOp)
  | drawOrderId
  deriving DecidableEq

namespace ArbCoordinator

/-- The thread that a stretch of code from `c` to `c'` has to start. -/
def toStart (c c' : ArbCoordinator) : Option Worker :=
  if c.workers.length < c'.workers.length then c'.workers.head? else none

/-- A stretch of code up to its next lock: the coordinator after it, the thread
it has to start and what is left to run. -/
def stretch (c : ArbCoordinator) (result : OrderResult) (now : Int) :
    Job → ArbCoordinator × Option Worker × Option Job
  | .addLeg s =>
    let c' := (c.addLeg s now).1
    let pair := (c'.pairs.lookup s.groupId).filter (·.bothLegsPresent)
    (c', c.toStart c', pair.map fun _ => .dispatch (.enter s.groupId))
  | .dispatch call =>
    let r := (c.dropCall call).advance now call
    (r.1.pushCalls r.2.toList, c.toStart r.1, r.2.map .dispatch)
  | .onFill exchangeOrderId fillPrice fillQty isReject =>
    let c' := c.onFill exchangeOrderId fillPrice fillQty isReject now
    (c', c.toStart c', none)
  | .worker (.unwindSend g gw o) =>
    -- the same thread goes on to wait for the result
    ((c.join (.unwindSend g gw o)).runWorker result now (.unwindSend g gw o), none,
      some (.worker (.unwindResult g)))
  | .worker w =>
    let c' := (c.join w).runWorker result now w
    (c', (c.join w).toStart c', none)
  | .clearPairs => (c.reset, none, none)
  | .getPair _ | .reset | .destroy => (c, none, none)

end ArbCoordinator

namespace Threads

def init (config : ArbConfig) (portfolio : PortfolioGuard) (hasGateway : Exchange → Bool) : Threads where
  arb := .init config portfolio hasGateway

def mutexFree (s : Threads) : Bool := s.places.all fun p => !p.hasMutex

def threadsFree (s : Threads) : Bool := s.places.all fun p => !p.hasThreads

def isDone (s : Threads) (t : Nat) : Bool := s.places[t]? == some .done

def move (s : Threads) (result : OrderResult) (now : Int) : Place → Option Move
  | .ready .reset => some { arb := s.arb, place := .waitsJoin true }
  | .ready .destroy => some { arb := s.arb, place := .waitsJoin false }
  | .ready job =>
    if job.takesMutex then some { arb := s.arb, place := .waitsMutex job }
    else
      let r := s.arb.stretch result now job
      some { arb := r.1, place := match r.2.1 with
        | some w => .waitsThreads false w r.2.2
        | none => .after r.2.2 }
  | .waitsMutex job =>
    if s.mutexFree then
      let r := s.arb.stretch result now job
      some { arb := r.1, place := .holdsMutex r.2.1 r.2.2 }
    else none
  | .holdsMutex (some w) next => some { arb := s.arb, place := .waitsThreads true w next }
  | .holdsMutex none next => some { arb := s.arb, place := .after next }
  | .waitsThreads underMutex w next =>
    if s.threadsFree then some { arb := s.arb, place := .holdsThreads underMutex w next } else none
  | .holdsThreads underMutex w next =>
    some { arb := s.arb, place := if underMutex then .holdsMutex none next else .after next,
           emplaced := some w }
  | .waitsJoin isReset =>
    if s.threadsFree then some { arb := s.arb, place := .joining isReset s.workerThreads } else none
  | .joining isReset (t :: rest) =>
    if s.isDone t then some { arb := s.arb, place := .joining isReset rest } else none
  | .joining true [] => some { arb := s.arb, place := .ready .clearPairs, clears := true }
  | .joining false [] => some { arb := s.arb, place := .done }
  | .done => none

def put (s : Threads) (t : Nat) (m : Move) : Threads where
  arb := m.arb
  places := s.places.set t m.place ++ (m.emplaced.map fun w => .ready (.worker w)).toList
  workerThreads := (if m.clears then [] else s.workerThreads) ++
    (m.emplaced.map fun _ => s.places.length).toList

def step (s : Threads) : ThreadEvent → Option Threads
  | .call job => if job.isCall then some { s with places := s.places ++ [.ready job] } else none
  | .go t result now => s.places[t]?.bind fun p => (s.move result now p).map (s.put t)
  | .guard op => some { s with arb := s.arb.setPortfolio (s.arb.portfolio.apply op) }
  | .drawOrderId => some { s with arb := s.arb.setUuid s.arb.uuid.orderId.2 }

/-- What a thread can do at its place. -/
inductive Moves (s : Threads) (result : OrderResult) (now : Int) : Place → Move → Prop where
  | asksJoin {job isReset} : job = .reset ∧ isReset = true ∨ job = .destroy ∧ isReset = false →
      Moves s result now (.ready job) { arb := s.arb, place := .waitsJoin isReset }
  | asksMutex {job} : job.takesMutex = true →
      Moves s result now (.ready job) { arb := s.arb, place := .waitsMutex job }
  | runs {job c next} : job.takesMutex = false → s.arb.stretch result now job = (c, none, next) →
      Moves s result now (.ready job) { arb := c, place := .after next }
  | asksThreads {job c w next} : job.takesMutex = false → s.arb.stretch result now job = (c, some w, next) →
      Moves s result now (.ready job) { arb := c, place := .waitsThreads false w next }
  | enters {job c start next} : s.mutexFree = true → s.arb.stretch result now job = (c, start, next) →
      Moves s result now (.waitsMutex job) { arb := c, place := .holdsMutex start next }
  | asksUnderMutex {w next} :
      Moves s result now (.holdsMutex (some w) next) { arb := s.arb, place := .waitsThreads true w next }
  | leaves {next} : Moves s result now (.holdsMutex none next) { arb := s.arb, place := .after next }
  | takesThreads {underMutex w next} : s.threadsFree = true →
      Moves s result now (.waitsThreads underMutex w next)
        { arb := s.arb, place := .holdsThreads underMutex w next }
  | starts {w next} : Moves s result now (.holdsThreads false w next)
      { arb := s.arb, place := .after next, emplaced := some w }
  | startsUnderMutex {w next} : Moves s result now (.holdsThreads true w next)
      { arb := s.arb, place := .holdsMutex none next, emplaced := some w }
  | beginsJoin {isReset} : s.threadsFree = true →
      Moves s result now (.waitsJoin isReset) { arb := s.arb, place := .joining isReset s.workerThreads }
  | joins {isReset t rest} : s.isDone t = true →
      Moves s result now (.joining isReset (t :: rest)) { arb := s.arb, place := .joining isReset rest }
  | clears : Moves s result now (.joining true [])
      { arb := s.arb, place := .ready .clearPairs, clears := true }
  | ends : Moves s result now (.joining false []) { arb := s.arb, place := .done }

section
variable {s s' : Threads} {t j : Nat} {m : Move} {p q : Place} {e : ThreadEvent} {result : OrderResult}
  {now : Int}

theorem moves_of_move (h : s.move result now p = some m) : s.Moves result now p m := by
  cases p with
  | ready job =>
    by_cases hr : job = .reset
    · subst hr; cases h; exact .asksJoin (.inl ⟨rfl, rfl⟩)
    by_cases hd : job = .destroy
    · subst hd; cases h; exact .asksJoin (.inr ⟨rfl, rfl⟩)
    rw [move] at h
    · by_cases hj : job.takesMutex = true
      · rw [if_pos hj] at h
        cases h
        exact .asksMutex hj
      · rw [if_neg hj] at h
        simp only [Bool.not_eq_true] at hj
        generalize hs : s.arb.stretch result now job = r at h
        obtain ⟨c, start, next⟩ := r
        cases start with
        | none => cases h; exact .runs hj hs
        | some w => cases h; exact .asksThreads hj hs
    · exact hr
    · exact hd
  | waitsMutex job =>
    simp only [move] at h
    split at h <;> cases h
    exact .enters ‹_› rfl
  | holdsMutex start next =>
    cases start with
    | none => cases h; exact .leaves
    | some w => cases h; exact .asksUnderMutex
  | waitsThreads underMutex w next =>
    simp only [move] at h
    split at h <;> cases h
    exact .takesThreads ‹_›
  | holdsThreads underMutex w next =>
    cases underMutex with
    | true => cases h; exact .startsUnderMutex
    | false => cases h; exact .starts
  | waitsJoin isReset =>
    simp only [move] at h
    split at h <;> cases h
    exact .beginsJoin ‹_›
  | joining isReset rest =>
    cases rest with
    | nil =>
      cases isReset with
      | true => cases h; exact .clears
      | false => cases h; exact .ends
    | cons t rest =>
      simp only [move] at h
      split at h <;> cases h
      exact .joins ‹_›
  | done => cases h

theorem step_go (h : s.step (.go t result now) = some s') :
    ∃ p m, s.places[t]? = some p ∧ s.Moves result now p m ∧ s' = s.put t m := by
  obtain ⟨p, hp, h⟩ := Option.bind_eq_some_iff.mp h
  obtain ⟨m, hm, rfl⟩ := Option.map_eq_some_iff.mp h
  exact ⟨p, m, hp, moves_of_move hm, rfl⟩

theorem places_put (h : (s.put t m).places[j]? = some q) :
    j = t ∧ q = m.place ∨ j ≠ t ∧ s.places[j]? = some q ∨
      j = s.places.length ∧ ∃ w, m.emplaced = some w ∧ q = .ready (.worker w) := by
  unfold put at h
  by_cases hj : j < s.places.length
  · rw [List.getElem?_append_left (by simpa using hj), List.getElem?_set] at h
    by_cases hjt : t = j
    · subst hjt
      simp only [hj, ite_true, Option.some.injEq] at h
      exact .inl ⟨rfl, h.symm⟩
    · rw [if_neg hjt] at h
      exact .inr (.inl ⟨Ne.symm hjt, h⟩)
  · rw [List.getElem?_append_right (by simpa using hj), List.length_set] at h
    cases hw : m.emplaced with
    | none => simp [hw] at h
    | some w =>
      rw [hw] at h
      simp only [Option.map_some, Option.toList_some, List.getElem?_singleton] at h
      split at h
      · cases h
        exact .inr (.inr ⟨by omega, w, rfl, rfl⟩)
      · cases h

theorem places_put_self (ht : t < s.places.length) : (s.put t m).places[t]? = some m.place := by
  unfold put
  rw [List.getElem?_append_left (by simpa using ht), List.getElem?_set, if_pos rfl, if_pos ht]

theorem places_put_of_ne (hj : j ≠ t) (h : s.places[j]? = some q) : (s.put t m).places[j]? = some q := by
  unfold put
  obtain ⟨hlt, -⟩ := List.getElem?_eq_some_iff.mp h
  rw [List.getElem?_append_left (by simpa using hlt), List.getElem?_set, if_neg (Ne.symm hj), h]

theorem places_step (h : s.step e = some s') (hq : s.places[j]? = some q)
    (hne : ∀ result now, e ≠ .go j result now) : s'.places[j]? = some q := by
  cases e with
  | call job =>
    simp only [step] at h
    split at h <;> cases h
    obtain ⟨hlt, -⟩ := List.getElem?_eq_some_iff.mp hq
    rw [List.getElem?_append_left hlt, hq]
  | go t result now =>
    obtain ⟨p, m, -, -, rfl⟩ := step_go h
    exact places_put_of_ne (fun hjt => hne result now (hjt ▸ rfl)) hq
  | guard op => cases h; exact hq
  | drawOrderId => cases h; exact hq

end

end Threads

end OrderExecution
