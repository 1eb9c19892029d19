import OrderExecution.WaitOrder

/-!
# The locks of the module

What every function does with the mutexes and spin locks of the module, with the
threads that it starts and with those that it joins or whose future it waits for.
Its data are left out: at a branch either way is open, and a loop may end at any
round. `ArbCoordinator::reset` and `~ArbCoordinator`, which join the workers under
`threads_mutex_`, are the functions that are left out.
-/

namespace OrderExecution

namespace LockOrder

open WaitOrder

variable {γ : Type}

/-- A lock, for those of a gateway with the gateway. -/
inductive Lock (γ : Type) where
  /-- `OrderManager::threads_mutex_` -/
  | dispatchThreads
  | orders
  | resolver
  | portfolio
  /-- `ArbCoordinator::mutex_` -/
  | pairs
  /-- `ArbCoordinator::threads_mutex_` -/
  | workerThreads
  | pendingThreads (g : γ)
  | rng (g : γ)
  | callback (g : γ)
  | cancelled (g : γ)
  deriving DecidableEq

/-- What a thread runs: a call from outside, or what a `std::thread` or a
`std::async` of the module was started with. -/
inductive Kind (γ : Type) where
  | processSignal
  | waitForCompletion
  | destroyManager
  | guardCall
  | resolverCall
  | addLeg
  | arbOnFill
  | getPair
  | subscribeFills (g : γ)
  | destroyGateway (g : γ)
  | dispatch (g : γ)
  | deadlineTimer
  | sendResult (g : γ)
  | unwind (g : γ)
  | riskMonitor
  | sendOrder (g : γ)
  | cancelOrder (g : γ)
  | confirm (g : γ)
  deriving DecidableEq

abbrev Code (γ : Type) := Script (Lock γ) (Kind γ) γ

/-- A lock around code that takes no other. -/
def locked (l : Lock γ) : Code γ := .guard l .skip

/-- Code under a condition. -/
def when (p : Code γ) : Code γ := .either .skip p

/-- `std::async` and the `get` of its future. -/
def get (k : Kind γ) : Code γ := .seq (.start k) (.await k)

/-! ## `PortfolioGuard`, `ConflictResolver` -/

def checkAndReserve : Code γ := locked .portfolio

def releaseMargin : Code γ := locked .portfolio

def applyFill : Code γ := locked .portfolio

/-- Every cancel is waited for, if not by `wait_for` then by the destructor of
its future. -/
def check : Code γ := .guard .resolver (.many (.pick fun g => get (.cancelOrder g)))

def registerOrder : Code γ := locked .resolver

def updateStatus : Code γ := locked .resolver

/-! ## `ArbCoordinator` -/

def startDeadlineTimer : Code γ := .guard .workerThreads (.start .deadlineTimer)

def startRiskWindowMonitor : Code γ := .guard .workerThreads (.start .riskMonitor)

def startUnwind : Code γ := when (.pick fun g => .guard .workerThreads (.start (.unwind g)))

def handleLegReject : Code γ :=
  .either (.seq releaseMargin (when releaseMargin)) (.seq (.either (when releaseMargin) startUnwind) releaseMargin)

def finalizePair : Code γ := .seq applyFill applyFill

def arbOnFill : Code γ := .guard .pairs (when (.either handleLegReject (when finalizePair)))

def dispatchLeg : Code γ :=
  when (.pick fun g => .seq (.start (.sendOrder g)) (.guard .workerThreads (.start (.sendResult g))))

/-- It returns with `mutex_` still held, or goes on without it. -/
def dispatchPair : Code γ :=
  .either (.guard .pairs (when checkAndReserve))
    (.seq (.guard .pairs checkAndReserve) (.seq dispatchLeg (.seq dispatchLeg startRiskWindowMonitor)))

def addLeg : Code γ := .seq (.guard .pairs (when startDeadlineTimer)) (when dispatchPair)

def deadlineTimer : Code γ := .guard .pairs (when (.seq (when releaseMargin) (when releaseMargin)))

def sendResult (g : γ) : Code γ := .seq (.await (.sendOrder g)) (.guard .pairs (when (when handleLegReject)))

def unwind (g : γ) : Code γ := .seq (get (.sendOrder g)) (.guard .pairs (when releaseMargin))

def riskMonitor : Code γ :=
  .guard .pairs (when (.either (.seq releaseMargin releaseMargin) (.seq releaseMargin startUnwind)))

/-! ## `OrderManager` -/

def storeOrder : Code γ := locked .orders

def processSingleLeg : Code γ :=
  .seq check (.either storeOrder (.seq checkAndReserve (.either storeOrder (.seq storeOrder (.seq registerOrder
    (.either (.seq storeOrder releaseMargin)
      (.pick fun g => .guard .dispatchThreads (.start (.dispatch g)))))))))

def processSignal : Code γ := when (.either addLeg processSingleLeg)

/-- The thread that `process_single_leg` starts. -/
def dispatch (g : γ) : Code γ :=
  .seq (get (.sendOrder g)) (.guard .orders (when (when (.seq releaseMargin updateStatus))))

def onFill : Code γ := .seq arbOnFill (.guard .orders (when (.either releaseMargin (.seq applyFill updateStatus))))

def joinDispatchThreads : Code γ := .guard .dispatchThreads (.many (.pick fun g => .await (.dispatch g)))

def waitForCompletion : Code γ := .seq joinDispatchThreads (.many (locked .orders))

/-! ## The gateways -/

/-- `schedule_fill` and `schedule_block_confirm` -/
def schedule (g : γ) : Code γ := .guard (.pendingThreads g) (.start (.confirm g))

def sendOrder (isDex : γ → Bool) (g : γ) : Code γ :=
  if isDex g then schedule g else .seq (locked (.rng g)) (when (schedule g))

def fillCallback (g : γ) : Code γ := .guard (.callback g) (when onFill)

/-- The thread that waits for the fill or the block. A DEX gateway sends a
reject with `rng_mutex_` still held. -/
def confirm (isDex : γ → Bool) (g : γ) : Code γ :=
  .seq (locked (.cancelled g)) (when
    (if isDex g then .either (.guard (.rng g) (fillCallback g)) (.seq (locked (.rng g)) (fillCallback g))
    else fillCallback g))

def destroyGateway (g : γ) : Code γ := .guard (.pendingThreads g) (.many (.await (.confirm g)))

def code (isDex : γ → Bool) : Kind γ → Code γ
  | .processSignal => processSignal
  | .waitForCompletion => waitForCompletion
  | .destroyManager => joinDispatchThreads
  | .guardCall => locked .portfolio
  | .resolverCall => .either (locked .resolver) check
  | .addLeg => addLeg
  | .arbOnFill => arbOnFill
  | .getPair => locked .pairs
  | .subscribeFills g => locked (.callback g)
  | .destroyGateway g => destroyGateway g
  | .dispatch g => dispatch g
  | .deadlineTimer => deadlineTimer
  | .sendResult g => sendResult g
  | .unwind g => unwind g
  | .riskMonitor => riskMonitor
  | .sendOrder g => sendOrder isDex g
  | .cancelOrder g => locked (.cancelled g)
  | .confirm g => confirm isDex g

/-! ## The order of the locks and threads -/

def lockRank : Lock γ → Nat
  | .dispatchThreads => 1
  | .pendingThreads _ => 4
  | .rng _ => 6
  | .callback _ => 7
  | .pairs | .orders => 8
  | .workerThreads | .portfolio | .resolver => 9
  | .cancelled _ => 11

def kindRank : Kind γ → Nat
  | .processSignal | .waitForCompletion | .destroyManager | .guardCall | .resolverCall => 0
  | .addLeg | .arbOnFill | .getPair | .subscribeFills _ | .destroyGateway _ => 0
  | .dispatch _ | .deadlineTimer | .sendResult _ | .unwind _ | .riskMonitor => 2
  | .sendOrder _ => 3
  | .confirm _ => 5
  | .cancelOrder _ => 10

def ranks : Ranks (Lock γ) (Kind γ) := ⟨lockRank, kindRank⟩

@[simp] theorem ranks_lock (l : Lock γ) : ranks.lock l = lockRank l := rfl

@[simp] theorem ranks_kind (k : Kind γ) : ranks.kind k = kindRank k := rfl

attribute [simp] Script.Ordered Script.cost lockRank kindRank

section
variable {n : Nat}

@[simp] theorem locked_ordered {l : Lock γ} : (locked l).Ordered ranks n ↔ n < lockRank l := by
  simp [locked]

@[simp] theorem when_ordered {p : Code γ} : (when p).Ordered ranks n ↔ p.Ordered ranks n := by
  simp [when]

theorem handleLegReject_ordered (h : n < 9) : (handleLegReject : Code γ).Ordered ranks n := by
  simp [handleLegReject, releaseMargin, startUnwind, h]

theorem arbOnFill_ordered (h : n < 8) : (arbOnFill : Code γ).Ordered ranks n := by
  have hreject : (handleLegReject : Code γ).Ordered ranks 8 := handleLegReject_ordered (by decide)
  simp [arbOnFill, finalizePair, applyFill, hreject, h]

theorem onFill_ordered (h : n < 8) : (onFill : Code γ).Ordered ranks n := by
  have harb : (arbOnFill : Code γ).Ordered ranks n := arbOnFill_ordered h
  simp [onFill, applyFill, releaseMargin, updateStatus, harb, h]

theorem addLeg_ordered : (addLeg : Code γ).Ordered ranks 0 := by
  simp [addLeg, startDeadlineTimer, dispatchPair, checkAndReserve, dispatchLeg, startRiskWindowMonitor]

theorem check_ordered (h : n < 9) : (check : Code γ).Ordered ranks n := by
  simp [check, get, h]

theorem processSingleLeg_ordered : (processSingleLeg : Code γ).Ordered ranks 0 := by
  have hcheck : (check : Code γ).Ordered ranks 0 := check_ordered (by decide)
  simp [processSingleLeg, storeOrder, checkAndReserve, registerOrder, releaseMargin, hcheck]

theorem confirm_ordered (isDex : γ → Bool) (g : γ) : (confirm isDex g).Ordered ranks 5 := by
  have hfill : (onFill : Code γ).Ordered ranks 7 := onFill_ordered (by decide)
  cases hdex : isDex g <;> simp [confirm, fillCallback, hdex, hfill]

end

/-- Every thread waits only for what ranks above it and above the locks it holds. -/
theorem code_ordered (isDex : γ → Bool) (k : Kind γ) : (code isDex k).Ordered ranks (kindRank k) := by
  have hreject : (handleLegReject : Code γ).Ordered ranks 8 := handleLegReject_ordered (by decide)
  cases k with
  | processSignal =>
    simp only [code, processSignal, when_ordered, kindRank]
    exact ⟨addLeg_ordered, processSingleLeg_ordered⟩
  | waitForCompletion | destroyManager =>
    simp [code, waitForCompletion, joinDispatchThreads]
  | guardCall | getPair | subscribeFills g | cancelOrder g => simp [code]
  | resolverCall =>
    have hcheck : (check : Code γ).Ordered ranks 0 := check_ordered (by decide)
    simp [code, hcheck]
  | addLeg => exact addLeg_ordered
  | arbOnFill =>
    have hfill : (arbOnFill : Code γ).Ordered ranks 0 := arbOnFill_ordered (by decide)
    exact hfill
  | destroyGateway g => simp [code, destroyGateway]
  | dispatch g =>
    simp [code, dispatch, get, releaseMargin, updateStatus]
  | deadlineTimer => simp [code, deadlineTimer, releaseMargin]
  | sendResult g => simp [code, sendResult, hreject]
  | unwind g => simp [code, unwind, get, releaseMargin]
  | riskMonitor => simp [code, riskMonitor, releaseMargin, startUnwind]
  | sendOrder g =>
    cases hdex : isDex g <;> simp [code, sendOrder, schedule, hdex]
  | confirm g => exact confirm_ordered isDex g

/-- More than the steps of the shortest way through, with those of the threads
that it starts. -/
def kindCost : Kind γ → Nat
  | .confirm _ | .cancelOrder _ => 20
  | .sendOrder _ => 40
  | .dispatch _ | .unwind _ => 60
  | _ => 20

theorem code_cost [Inhabited γ] (isDex : γ → Bool) (k : Kind γ) : (code isDex k).cost kindCost ≤ kindCost k := by
  cases k with
  | sendOrder g => cases hdex : isDex g <;> simp [code, sendOrder, schedule, hdex, locked, when, kindCost]
  | confirm g => simp [code, confirm, locked, when, kindCost]
  | dispatch g => simp [code, dispatch, get, when, kindCost]
  | unwind g => simp [code, unwind, get, when, kindCost]
  | _ => simp [code, processSignal, addLeg, arbOnFill, waitForCompletion, joinDispatchThreads, destroyGateway,
      deadlineTimer, sendResult, riskMonitor, locked, when, kindCost]

/-- Whatever was called, and whatever way the threads went so far, all of them
can run to their end: no set of them has come to wait for each other. -/
theorem no_deadlock [DecidableEq γ] [Inhabited γ] (isDex : γ → Bool) {es : List (Event (Kind γ) γ)}
    {s : State (Lock γ) (Kind γ) γ} (hr : Machine.run (State.step (code isDex)) [] es = some s) :
    ∃ es' s', Own es' ∧ Machine.run (State.step (code isDex)) s es' = some s' ∧ Finished s' :=
  can_finish kindCost (code_ordered isDex) (code_cost isDex) hr

end LockOrder

namespace Sample

open LockOrder WaitOrder

/-- The ways of a thread in `process_signal` up to the start of its dispatch thread. -/
def signalWays : List (Way Bool) :=
  [.on, .on] ++ List.replicate 4 .out ++ [.on] ++ List.replicate 4 .out ++ [.on] ++ List.replicate 8 .out ++
    [.on, .pick true] ++ List.replicate 3 .out

/-- The dispatch thread waits for its future; the gateway's thread has taken
`rng_mutex_` and goes on to `callback_mutex_`, while the destructor of the gateway
holds `threads_mutex_` and joins it. -/
def closing : List (Event (Kind Bool) Bool) :=
  .call .processSignal :: signalWays.map (.go 0) ++ List.replicate 3 (.go 1 .out) ++ List.replicate 3 (.go 2 .out) ++
    [.go 1 (.thread 2)] ++ List.replicate 4 (.go 3 .out) ++ [.go 3 .on] ++ List.replicate 2 (.go 3 .out) ++
    [.call (.destroyGateway true), .go 4 .out, .go 4 .on, .go 4 (.thread 3)]

def closingState : State (Lock Bool) (Kind Bool) Bool :=
  (Machine.run (State.step (code id)) [] closing).getD []

theorem run_closing : Machine.run (State.step (code id)) [] closing = some closingState := rfl

example : closingState.map (·.frames.length) = [0, 2, 0, 2, 3] := by decide

theorem no_deadlock_closing : ∃ es s, Own es ∧ Machine.run (State.step (code id)) closingState es = some s ∧ Finished s :=
  no_deadlock id run_closing

end Sample

end OrderExecution
