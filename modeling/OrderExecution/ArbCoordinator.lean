import OrderExecution.PortfolioGuard
import OrderExecution.Machine
import Mathlib.Data.List.AList

/-!
# `ArbCoordinator`

The coordinator of two-legged arbitrage pairs. A thread of the source that
sleeps or waits for a future is a `Worker`, a call of `dispatch_pair` that runs
outside the lock is a `DispatchCall`; `step` runs one critical section of one of
them, or one critical section entered from outside, in any order. `log` records
what leaves the coordinator and is read by no step.
-/

namespace OrderExecution

structure ArbConfig where
  assemblyDeadlineMs : Int := 100
  deriving DecidableEq

inductive LegRole where
  | cexLeg
  | dexLeg
  | unwind
  deriving DecidableEq

/-- A thread of `worker_threads_` and what its closure holds. A gateway is named
by the exchange it is registered under. -/
inductive Worker where
  | deadline (groupId : CStr 15)
  | sendResult (groupId : CStr 15) (isCex : Bool)
  | riskWindow (groupId : CStr 15)
  | unwindSend (groupId : CStr 15) (gateway : Exchange) (order : Order)
  | unwindResult (groupId : CStr 15)
  deriving DecidableEq

/-- Where a call of `dispatch_pair` stands. -/
inductive DispatchCall where
  | enter (groupId : CStr 15)
  | lookup (groupId : CStr 15) (cexOrder dexOrder : Order)
  | sendCex (groupId : CStr 15) (cexGateway dexGateway : Option Exchange) (cexOrder dexOrder : Order)
  | sendDex (groupId : CStr 15) (dexGateway : Option Exchange) (dexOrder : Order)
  | startMonitor (groupId : CStr 15)
  deriving DecidableEq

inductive ArbEffect where
  | dispatched (groupId : CStr 15)
  | sendOrder (groupId : CStr 15) (role : LegRole) (gateway : Exchange) (order : Order)
  | startUnwind (groupId : CStr 15)
  | bookFill (groupId : CStr 15) (signal : Signal) (fillPrice fillQty : ℚ)
  deriving DecidableEq

def Worker.groupId : Worker → CStr 15
  | .deadline g | .sendResult g _ | .riskWindow g | .unwindSend g _ _ | .unwindResult g => g

def DispatchCall.groupId : DispatchCall → CStr 15
  | .enter g | .lookup g _ _ | .sendCex g _ _ _ _ | .sendDex g _ _ | .startMonitor g => g

def ArbEffect.groupId : ArbEffect → CStr 15
  | .dispatched g | .sendOrder g _ _ _ | .startUnwind g | .bookFill g _ _ _ => g

/-- `std::unordered_map<std::string, ArbPair>` -/
abbrev Pairs := AList fun _ : CStr 15 => ArbPair

structure ArbCoordinator where
  config : ArbConfig := {}
  portfolio : PortfolioGuard
  hasGateway : Exchange → Bool
  uuid : UuidGenerator := {}
  pairs : Pairs := ∅
  workers : List Worker := []
  calls : List DispatchCall := []
  log : List ArbEffect := []

namespace ArbPair

def setLeg (p : ArbPair) (isCex : Bool) (o : Order) : ArbPair :=
  if isCex then { p with cexLeg := o } else { p with dexLeg := o }

/-- The status in which this leg alone is filled. -/
def oneSided (isCex : Bool) : ArbPairStatus := if isCex then .CEX_FILLED else .DEX_FILLED

/-- Which leg an exchange order id names: `"EX-"` and the id of the CEX order,
or `"HL-"` and the id of the DEX order. -/
def matchLeg (p : ArbPair) (exchangeOrderId : Bytes) : Option Bool :=
  if p.hasCexLeg ∧ exIdOf p.cexLeg.orderId = exchangeOrderId then some true
  else if p.hasDexLeg ∧ hlIdOf p.dexLeg.orderId = exchangeOrderId then some false
  else none

end ArbPair

namespace ArbCoordinator

def init (config : ArbConfig) (portfolio : PortfolioGuard) (hasGateway : Exchange → Bool) :
    ArbCoordinator := { config := config, portfolio := portfolio, hasGateway := hasGateway }

def setPair (c : ArbCoordinator) (g : CStr 15) (p : ArbPair) : ArbCoordinator :=
  { c with pairs := c.pairs.insert g p }

def spawn (c : ArbCoordinator) (w : Worker) : ArbCoordinator := { c with workers := w :: c.workers }

def join (c : ArbCoordinator) (w : Worker) : ArbCoordinator := { c with workers := c.workers.erase w }

def pushCalls (c : ArbCoordinator) (ds : List DispatchCall) : ArbCoordinator :=
  { c with calls := ds ++ c.calls }

def dropCall (c : ArbCoordinator) (d : DispatchCall) : ArbCoordinator :=
  { c with calls := c.calls.erase d }

def setPortfolio (c : ArbCoordinator) (π : PortfolioGuard) : ArbCoordinator := { c with portfolio := π }

/-- `portfolio_.release_margin(...)` -/
def release (c : ArbCoordinator) (s : Signal) : ArbCoordinator :=
  c.setPortfolio (c.portfolio.releaseMargin s)

def setUuid (c : ArbCoordinator) (u : UuidGenerator) : ArbCoordinator := { c with uuid := u }

def record (c : ArbCoordinator) (x : ArbEffect) : ArbCoordinator := { c with log := x :: c.log }

/-- `portfolio_.on_fill(...)` for a leg of the pair. -/
def bookFill (c : ArbCoordinator) (g : CStr 15) (o : Order) : ArbCoordinator :=
  (c.setPortfolio (c.portfolio.onFill o.signal o.avgFillPrice o.filledQuantity)).record
    (.bookFill g o.signal o.avgFillPrice o.filledQuantity)

def calcExpectedSpread (cexSig dexSig : Signal) : ℚ :=
  let cexPrice := if cexSig.price > 0 then cexSig.price else referencePrice cexSig.symbol
  let dexPrice := if dexSig.price > 0 then dexSig.price else referencePrice dexSig.symbol
  if cexSig.side = .BUY then (dexPrice - cexPrice) / cexPrice * 10000
  else (cexPrice - dexPrice) / dexPrice * 10000

def calcRealizedSpread (p : ArbPair) : ℚ :=
  let cexFill := p.cexLeg.avgFillPrice
  let dexFill := p.dexLeg.avgFillPrice
  if p.cexLeg.signal.side = .BUY then (dexFill - cexFill) / cexFill * 10000
  else (cexFill - dexFill) / dexFill * 10000

/-- The critical section of `add_leg`, and the call of `dispatch_pair` it makes
once both legs are there. -/
def addLeg (c : ArbCoordinator) (s : Signal) (now : Int) : ArbCoordinator × Order :=
  let g := s.groupId
  let (id, uuid) := c.uuid.orderId
  let order : Order := { orderId := .copy 15 id, signal := s, status := .CREATED, createdAtNs := now }
  let c := c.setUuid uuid
  let (c, pair) := match c.pairs.lookup g with
    | some pair => (c, pair)
    | none => (c.spawn (.deadline g),
        { groupId := g, createdAtNs := now,
          dispatchDeadlineNs := now + c.config.assemblyDeadlineMs * 1000000 })
  let pair := match getExchangeType s.exchange with
    | .CEX => { pair with cexLeg := order, hasCexLeg := true }
    | .DEX => { pair with dexLeg := order, hasDexLeg := true }
  let c := c.setPair g pair
  (if pair.bothLegsPresent then c.pushCalls [.enter g] else c, order)

/-- `"incomplete_pair: deadline %lldms exceeded"` -/
def incompleteReason (c : ArbCoordinator) : CStr 63 :=
  .copy 63 (lit "incomplete_pair: deadline " ++ decimalInt c.config.assemblyDeadlineMs ++ lit "ms exceeded")

/-- The thread of `start_deadline_timer` after its sleep. -/
def deadline (c : ArbCoordinator) (g : CStr 15) : ArbCoordinator :=
  match c.pairs.lookup g with
  | none => c
  | some pair =>
    if pair.status = .ASSEMBLING ∧ !pair.bothLegsPresent then
      let rejected (o : Order) : Order := { o with status := .REJECTED, rejectReason := c.incompleteReason }
      let pair := { pair with status := .FAILED }
      let (c, pair) := if pair.hasCexLeg then
        (c.release pair.cexLeg.signal, { pair with cexLeg := rejected pair.cexLeg }) else (c, pair)
      let (c, pair) := if pair.hasDexLeg then
        (c.release pair.dexLeg.signal, { pair with dexLeg := rejected pair.dexLeg }) else (c, pair)
      c.setPair g pair
    else c

/-- The critical section of `dispatch_pair`: the coordinator after it, and where
the call goes on if it does not return. -/
def dispatchEnter (c : ArbCoordinator) (g : CStr 15) (now : Int) : ArbCoordinator × Option DispatchCall :=
  match c.pairs.lookup g with
  | none => (c, none)
  | some pair =>
    if pair.status ≠ .ASSEMBLING then (c, none)
    else
      let cexSig := pair.cexLeg.signal
      let dexSig := pair.dexLeg.signal
      let pair := { pair with expectedSpreadBps := calcExpectedSpread cexSig dexSig }
      let margin := c.portfolio.checkAndReservePair cexSig dexSig
      let c := c.setPortfolio margin.1
      if !margin.2.approved then
        let rejected (o : Order) : Order :=
          { o with status := .REJECTED, rejectReason := .copy 63 margin.2.reason.bytes }
        (c.setPair g { pair with
          status := .FAILED, cexLeg := rejected pair.cexLeg, dexLeg := rejected pair.dexLeg }, none)
      else
        let sent (o : Order) : Order := { o with status := .SENT, sentAtNs := now }
        let pair := { pair with
          status := .DISPATCHED, cexLeg := sent pair.cexLeg, dexLeg := sent pair.dexLeg }
        ((c.setPair g pair).record (.dispatched g), some (.lookup g pair.cexLeg pair.dexLeg))

/-- `gateways_.find(exch)` -/
def findGateway (c : ArbCoordinator) (exch : Exchange) : Option Exchange :=
  if c.hasGateway exch then some exch else none

/-- One send of `dispatch_pair`: hand the order to its gateway, if it has one,
and start the thread that waits for the result. -/
def sendLeg (c : ArbCoordinator) (g : CStr 15) (isCex : Bool) (gateway : Option Exchange) (o : Order) :
    ArbCoordinator :=
  match gateway with
  | none => c
  | some gw =>
    (c.record (.sendOrder g (if isCex then .cexLeg else .dexLeg) gw o)).spawn (.sendResult g isCex)

/-- One stretch of a call of `dispatch_pair`. After the lock is released the
exchanges are still read through references into the pair. -/
def advance (c : ArbCoordinator) (now : Int) : DispatchCall → ArbCoordinator × Option DispatchCall
  | .enter g => c.dispatchEnter g now
  | .lookup g cexOrder dexOrder =>
    match c.pairs.lookup g with
    | none => (c, none)
    | some pair => (c, some (.sendCex g (c.findGateway pair.cexLeg.signal.exchange)
        (c.findGateway pair.dexLeg.signal.exchange) cexOrder dexOrder))
  | .sendCex g cexGateway dexGateway cexOrder dexOrder =>
    (c.sendLeg g true cexGateway cexOrder, some (.sendDex g dexGateway dexOrder))
  | .sendDex g dexGateway dexOrder => (c.sendLeg g false dexGateway dexOrder, some (.startMonitor g))
  | .startMonitor g => (c.spawn (.riskWindow g), none)

/-- The order that `start_unwind` builds. -/
def unwindOrder (c : ArbCoordinator) (pair : ArbPair) (now : Int) : Order :=
  let (signalId, uuid) := c.uuid.signalId
  let (orderId, _) := uuid.orderId
  let unwindSig := { pair.cexLeg.signal with
    signalId := .copy 15 signalId, side := pair.cexLeg.signal.side.opposite, price := 0 }
  { orderId := .copy 15 orderId, signal := unwindSig, status := .SENT, sentAtNs := now }

/-- `start_unwind` -/
def startUnwind (c : ArbCoordinator) (pair : ArbPair) (now : Int) : ArbCoordinator :=
  let exch := pair.cexLeg.signal.exchange
  let c' := (c.setUuid c.uuid.signalId.2.orderId.2).record (.startUnwind pair.groupId)
  if c.hasGateway exch then c'.spawn (.unwindSend pair.groupId exch (c.unwindOrder pair now)) else c'

/-- `handle_leg_reject`: the coordinator and the pair after it. -/
def handleLegReject (c : ArbCoordinator) (pair : ArbPair) (isCexReject : Bool) (now : Int) :
    ArbCoordinator × ArbPair :=
  if isCexReject then
    let pair := if pair.hasDexLeg ∧ pair.dexLeg.status = .FILLED then
        -- `UNWINDING` is overwritten at once
        let pair := { pair with status := .UNWINDING }
        { pair with status := .FAILED }
      else { pair with status := .FAILED }
    let pair := { pair with cexLeg := { pair.cexLeg with status := .REJECTED } }
    let c := c.release pair.cexLeg.signal
    if pair.hasDexLeg ∧ !isTerminal pair.dexLeg.status then
      (c.release pair.dexLeg.signal, { pair with dexLeg := { pair.dexLeg with status := .CANCELLED } })
    else (c, pair)
  else
    let (c, pair) :=
      if pair.hasCexLeg ∧ pair.cexLeg.status = .FILLED then
        let pair := { pair with status := .UNWINDING }
        (c.startUnwind pair now, pair)
      else
        let pair := { pair with status := .FAILED }
        if pair.hasCexLeg then
          (c.release pair.cexLeg.signal, { pair with cexLeg := { pair.cexLeg with status := .CANCELLED } })
        else (c, pair)
    (c.release pair.dexLeg.signal, { pair with dexLeg := { pair.dexLeg with status := .REJECTED } })

/-- The thread that waits for the send result of a leg. -/
def sendResult (c : ArbCoordinator) (g : CStr 15) (isCex : Bool) (result : OrderResult) (now : Int) :
    ArbCoordinator :=
  match c.pairs.lookup g with
  | none => c
  | some pair =>
    if pair.hasLeg isCex then
      let leg := { pair.leg isCex with exchangeOrderId := result.exchangeOrderId }
      if result.success then
        let leg := if isCex then { leg with status := .ACKNOWLEDGED }
          else
            let leg := { leg with status := .TX_PENDING }
            if result.hasTxHash then leg.setTxHash result.txHash else leg
        c.setPair g (pair.setLeg isCex leg)
      else
        let r := c.handleLegReject (pair.setLeg isCex leg) isCex now
        r.1.setPair g r.2
    else c

/-- `finalize_pair` -/
def finalizePair (c : ArbCoordinator) (g : CStr 15) (pair : ArbPair) : ArbCoordinator × ArbPair :=
  let pair := if pair.cexFillNs > 0 ∧ pair.dexConfirmNs > 0 then
    { pair with riskWindowNs := |pair.dexConfirmNs - pair.cexFillNs| } else pair
  let pair := { pair with realizedSpreadBps := calcRealizedSpread pair }
  let pair := { pair with status := .COMPLETED }
  ((c.bookFill g pair.cexLeg).bookFill g pair.dexLeg, pair)

/-- The fields of a pair that a fill of one leg writes before the status. -/
def fillLeg (pair : ArbPair) (isCex : Bool) (fillPrice fillQty : ℚ) (now : Int) : ArbPair :=
  let filled (o : Order) : Order :=
    { o with status := .FILLED, filledQuantity := fillQty, avgFillPrice := fillPrice }
  if isCex then { pair with cexLeg := filled pair.cexLeg, cexFillNs := now }
  else { pair with dexLeg := filled pair.dexLeg, dexConfirmNs := now }

/-- The first pair of the map, in its unspecified order, with a leg of that
exchange id. -/
def findLeg (c : ArbCoordinator) (exchangeOrderId : Bytes) : Option (CStr 15 × ArbPair × Bool) :=
  c.pairs.entries.findSome? fun e => (e.2.matchLeg exchangeOrderId).map fun isCex => (e.1, e.2, isCex)

def onFill (c : ArbCoordinator) (exchangeOrderId : Bytes) (fillPrice fillQty : ℚ) (isReject : Bool)
    (now : Int) : ArbCoordinator :=
  match c.findLeg exchangeOrderId with
  | none => c
  | some (g, pair, isCex) =>
    if isReject then
      let r := c.handleLegReject pair isCex now
      r.1.setPair g r.2
    else
      let pair := fillLeg pair isCex fillPrice fillQty now
      if pair.status = .DISPATCHED then
        c.setPair g { pair with status := ArbPair.oneSided isCex }
      else if pair.status = ArbPair.oneSided (!isCex) then
        let r := c.finalizePair g { pair with status := .ALL_FILLED }
        r.1.setPair g r.2
      else
        -- in any other status only the leg is written
        c.setPair g pair

/-- The thread of `start_risk_window_monitor` after its sleep. -/
def riskWindow (c : ArbCoordinator) (g : CStr 15) (now : Int) : ArbCoordinator :=
  match c.pairs.lookup g with
  | none => c
  | some pair =>
    if pair.status = .CEX_FILLED then
      let pair := { pair with
        status := .UNWINDING, dexLeg := { pair.dexLeg with status := .TIMEOUT } }
      ((c.release pair.dexLeg.signal).startUnwind pair now).setPair g pair
    else if pair.status = .DEX_FILLED then
      -- the filled DEX leg is left as it is
      let pair := { pair with status := .FAILED, cexLeg := { pair.cexLeg with status := .TIMEOUT } }
      ((c.release pair.cexLeg.signal).release pair.dexLeg.signal).setPair g pair
    else c

/-- The end of the thread that `start_unwind` starts. -/
def unwindResult (c : ArbCoordinator) (g : CStr 15) (result : OrderResult) : ArbCoordinator :=
  match c.pairs.lookup g with
  | none => c
  | some pair =>
    -- whatever the status has become since the unwind began
    let pair := { pair with status := if result.success then .COMPLETED else .FAILED }
    (c.setPair g pair).release pair.cexLeg.signal

def runWorker (c : ArbCoordinator) (result : OrderResult) (now : Int) : Worker → ArbCoordinator
  | .deadline g => c.deadline g
  | .sendResult g isCex => c.sendResult g isCex result now
  | .riskWindow g => c.riskWindow g now
  | .unwindSend g gw o => (c.record (.sendOrder g .unwind gw o)).spawn (.unwindResult g)
  | .unwindResult g => c.unwindResult g result

/-- `reset()`, once every thread is joined. -/
def reset (c : ArbCoordinator) : ArbCoordinator := { c with pairs := ∅ }

end ArbCoordinator

/-- What can happen next: `result` is what a worker's future yields, `now` what
the clock says. The last two are other users of the guard and of the id
generator. -/
inductive ArbEvent where
  | addLeg (s : Signal) (now : Int)
  | dispatch (call : DispatchCall) (now : Int)
  | worker (w : Worker) (result : OrderResult) (now : Int)
  | onFill (exchangeOrderId : Bytes) (fillPrice fillQty : ℚ) (isReject : Bool) (now : Int)
  | portfolio (op : GuardOp)
  | drawOrderId
  deriving DecidableEq

def ArbCoordinator.step (c : ArbCoordinator) : ArbEvent → Option ArbCoordinator
  | .addLeg s now => some (c.addLeg s now).1
  | .dispatch call now =>
    if call ∈ c.calls then
      let r := (c.dropCall call).advance now call
      some (r.1.pushCalls r.2.toList)
    else none
  | .worker w result now =>
    if w ∈ c.workers then some ((c.join w).runWorker result now w) else none
  | .onFill exchangeOrderId fillPrice fillQty isReject now =>
    some (c.onFill exchangeOrderId fillPrice fillQty isReject now)
  | .portfolio op => some (c.setPortfolio (c.portfolio.apply op))
  | .drawOrderId => some (c.setUuid c.uuid.orderId.2)

end OrderExecution
