import OrderExecution.ArbCoordinator
import OrderExecution.ConflictResolver
import OrderExecution.SignalReceiver

/-!
# `OrderManager`

A call of `process_single_leg`, and the dispatch thread it starts, is a
`SingleTask`; `step` runs one critical section of a task or of the coordinator,
or one of the two critical sections of `on_fill`. The guard and the gateways
are the coordinator's. `log` records what leaves the manager and is read by no
step.
-/

namespace OrderExecution

structure ProcessResult where
  success : Bool := false
  orderId : CStr 15 := .empty
  reason : CStr 127 := .empty
  deriving DecidableEq

/-- Where a call of `process_single_leg` stands, and then its dispatch thread;
`order` is its local copy. -/
inductive SingleTask where
  | check (order : Order)
  | reserve (order : Order)
  | storeRefused (order : Order) (reason : CStr 127)
  | store (order : Order)
  | register (order : Order)
  | lookup (order : Order)
  | storeRejected (order : Order)
  | release (order : Order)
  | send (gateway : Exchange) (order : Order)
  | result (order : Order)
  deriving DecidableEq

def SingleTask.order : SingleTask → Order
  | .check o | .reserve o | .storeRefused o _ | .store o | .register o | .lookup o | .storeRejected o
  | .release o | .send _ o | .result o => o

inductive ManagerEffect where
  | processed (r : ProcessResult)
  | sendOrder (gateway : Exchange) (order : Order)
  | bookFill (orderId : CStr 15) (signal : Signal) (fillPrice fillQty : ℚ)
  deriving DecidableEq

/-- `std::unordered_map<std::string, Order>` -/
abbrev Orders := AList fun _ : CStr 15 => Order

structure OrderManager where
  signalConfig : SignalConfig := {}
  arb : ArbCoordinator
  resolver : ConflictResolver := {}
  orders : Orders := ∅
  tasks : List SingleTask := []
  log : List ManagerEffect := []

/-- `is_reject` of `on_fill` -/
def Fill.isReject (f : Fill) : Bool := f.filledQty = 0 ∧ f.fillPrice = 0

namespace Order

/-- `order` in `orders_` once the fill is on it. -/
def filledBy (o : Order) (f : Fill) : Order :=
  let o := { o with
    status := .FILLED, filledQuantity := f.filledQty, avgFillPrice := f.fillPrice,
    lastUpdateNs := f.fillTimestampNs,
    latency := { o.latency with totalNs := f.fillTimestampNs - o.createdAtNs } }
  if f.hasTxHash then
    { o.setTxHash f.txHash with txConfirmedNs := f.fillTimestampNs, hasTxConfirmedNs := true }
  else o

/-- `order` in `orders_` once its send result is on it; `exch` is the exchange it
was sent to. -/
def answeredBy (o : Order) (exch : Exchange) (r : OrderResult) : Order :=
  let o := { o with
    exchangeOrderId := r.exchangeOrderId, latency := { o.latency with sendToAckNs := r.latencyNs } }
  if r.success then
    let o := { o with status := if getExchangeType exch = .DEX then .TX_PENDING else .ACKNOWLEDGED }
    if r.hasTxHash then o.setTxHash r.txHash else o
  else { o with status := .REJECTED, rejectReason := r.errorMessage }

end Order

namespace OrderManager

def init (signalConfig : SignalConfig) (portfolioConfig : PortfolioConfig) (arbConfig : ArbConfig)
    (hasGateway : Exchange → Bool) : OrderManager where
  signalConfig := signalConfig
  arb := .init arbConfig (.init portfolioConfig) hasGateway

def setArb (m : OrderManager) (c : ArbCoordinator) : OrderManager := { m with arb := c }

def setResolver (m : OrderManager) (r : ConflictResolver) : OrderManager := { m with resolver := r }

def record (m : OrderManager) (x : ManagerEffect) : OrderManager := { m with log := x :: m.log }

def spawn (m : OrderManager) (ts : List SingleTask) : OrderManager := { m with tasks := ts ++ m.tasks }

def drop (m : OrderManager) (t : SingleTask) : OrderManager := { m with tasks := m.tasks.erase t }

/-- `portfolio_.release_margin(...)` -/
def release (m : OrderManager) (s : Signal) : OrderManager := m.setArb (m.arb.release s)

/-- `orders_[id] = order` -/
def setOrder (m : OrderManager) (id : CStr 15) (o : Order) : OrderManager :=
  { m with orders := m.orders.insert id o }

def storeOrder (m : OrderManager) (o : Order) : OrderManager := m.setOrder o.orderId o

/-- `conflict_resolver_.update_status(...)` -/
def updateStatus (m : OrderManager) (id : CStr 15) (status : OrderStatus) : OrderManager :=
  m.setResolver (m.resolver.updateStatus id status)

/-- `portfolio_.on_fill(...)` -/
def bookFill (m : OrderManager) (id : CStr 15) (s : Signal) (fillPrice fillQty : ℚ) : OrderManager :=
  (m.setArb (m.arb.setPortfolio (m.arb.portfolio.onFill s fillPrice fillQty))).record
    (.bookFill id s fillPrice fillQty)

/-- `process_signal` up to where it enters `process_single_leg`, which draws the
order id. -/
def processSignal (m : OrderManager) (s : Signal) (receiveNs now : Int) : OrderManager :=
  let validation := SignalReceiver.validate m.signalConfig s receiveNs
  if !validation.valid then m.record (.processed { reason := validation.reason })
  else if s.hasGroupId then
    let r := m.arb.addLeg s now
    (m.setArb r.1).record (.processed { success := true, orderId := r.2.orderId })
  else
    let (id, uuid) := m.arb.uuid.orderId
    (m.setArb (m.arb.setUuid uuid)).spawn
      [.check { orderId := .copy 15 id, signal := s, status := .CREATED, createdAtNs := now }]

/-- The critical section of the dispatch thread once it has the send result. -/
def sendResult (m : OrderManager) (o : Order) (result : OrderResult) : OrderManager :=
  match m.orders.lookup o.orderId with
  | none => m
  | some order =>
    let m := m.setOrder o.orderId (order.answeredBy o.signal.exchange result)
    if result.success then m else (m.release o.signal).updateStatus o.orderId .REJECTED

/-- `"no gateway for exchange %s"` -/
def noGatewayReason (exch : Exchange) : CStr 63 := .copy 63 (lit "no gateway for exchange " ++ exch.text)

/-- One critical section of a task: the manager after it, and where the task
goes on if it does. -/
def advance (m : OrderManager) (answers : List (Option CancelResult)) (result : OrderResult) (now : Int) :
    SingleTask → OrderManager × Option SingleTask
  | .check o =>
    let r := m.resolver.check m.arb.hasGateway o.signal answers
    (m.setResolver r.1, some (if r.2.canProceed then .reserve o
      else .storeRefused { o with status := .REJECTED, rejectReason := .copy 63 r.2.reason.bytes } r.2.reason))
  | .reserve o =>
    let r := m.arb.portfolio.checkAndReserve o.signal
    (m.setArb (m.arb.setPortfolio r.1), some (if r.2.approved then .store { o with status := .SENT, sentAtNs := now }
      else .storeRefused { o with status := .REJECTED, rejectReason := .copy 63 r.2.reason.bytes } r.2.reason))
  | .storeRefused o reason =>
    ((m.storeOrder o).record (.processed { orderId := o.orderId, reason := reason }), none)
  | .store o => (m.storeOrder o, some (.register o))
  | .register o => (m.setResolver (m.resolver.registerOrder o), some (.lookup o))
  | .lookup o =>
    match m.arb.findGateway o.signal.exchange with
    | none =>
      (m, some (.storeRejected { o with status := .REJECTED, rejectReason := noGatewayReason o.signal.exchange }))
    | some gw => (m.record (.processed { success := true, orderId := o.orderId }), some (.send gw o))
  | .storeRejected o => (m.storeOrder o, some (.release o))
  | .release o =>
    ((m.release o.signal).record (.processed { orderId := o.orderId, reason := .copy 127 o.rejectReason.bytes }),
      none)
  | .send gw o => (m.record (.sendOrder gw o), some (.result o))
  | .result o => (m.sendResult o result, none)

/-- The first critical section of `on_fill`. -/
def onFill (m : OrderManager) (f : Fill) (now : Int) : OrderManager :=
  m.setArb (m.arb.onFill f.exchangeOrderId.bytes f.fillPrice f.filledQty f.isReject now)

/-- The first order of the map, in its unspecified order, of that exchange id. -/
def findOrder (m : OrderManager) (exchangeOrderId : CStr 31) : Option (CStr 15 × Order) :=
  (m.orders.entries.find? fun e => e.2.exchangeOrderId = exchangeOrderId).map fun e => (e.1, e.2)

/-- The second critical section of `on_fill`. -/
def finishFill (m : OrderManager) (f : Fill) : OrderManager :=
  match m.findOrder f.exchangeOrderId with
  | none => m
  | some (id, order) =>
    if f.isReject then
      -- the resolver is not told
      (m.setOrder id { order with status := .REJECTED }).release order.signal
    else
      ((m.setOrder id (order.filledBy f)).bookFill id order.signal f.fillPrice f.filledQty).updateStatus id
        .FILLED

end OrderManager

/-- What can happen next. `answers` are the gateways' answers to the cancels of
the conflict check, `result` is what the dispatch thread's future yields. -/
inductive ManagerEvent where
  | processSignal (s : Signal) (receiveNs now : Int)
  | task (t : SingleTask) (answers : List (Option CancelResult)) (result : OrderResult) (now : Int)
  | arb (e : ArbEvent)
  | onFill (f : Fill) (now : Int)
  | finishFill (f : Fill)
  deriving DecidableEq

/-- A step of the coordinator's own threads. -/
def ArbEvent.isOwn : ArbEvent → Bool
  | .dispatch _ _ | .worker _ _ _ => true
  | .addLeg _ _ | .onFill _ _ _ _ _ | .portfolio _ | .drawOrderId => false

def OrderManager.step (m : OrderManager) : ManagerEvent → Option OrderManager
  | .processSignal s receiveNs now => some (m.processSignal s receiveNs now)
  | .task t answers result now =>
    if t ∈ m.tasks then
      let r := (m.drop t).advance answers result now t
      some (r.1.spawn r.2.toList)
    else none
  | .arb e => if e.isOwn then (m.arb.step e).map m.setArb else none
  | .onFill f now => some (m.onFill f now)
  | .finishFill f => some (m.finishFill f)

end OrderExecution
