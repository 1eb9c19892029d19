import OrderExecution.Uuid

/-!
# Signals, orders and arbitrage pairs

Amounts are exact rationals, times are integers of nanoseconds.
-/

namespace OrderExecution

inductive Side where
  | BUY
  | SELL
  deriving DecidableEq

inductive InstrumentType where
  | FUTURES
  | OPTIONS
  deriving DecidableEq

inductive Exchange where
  | BINANCE
  | BYBIT
  | HYPERLIQUID
  deriving DecidableEq

inductive ExchangeType where
  | CEX
  | DEX
  deriving DecidableEq

inductive SignalSource where
  | BACKTEST_VALIDATED
  | DIRECT
  deriving DecidableEq

def getExchangeType : Exchange → ExchangeType
  | .BINANCE => .CEX
  | .BYBIT => .CEX
  | .HYPERLIQUID => .DEX

def Exchange.text : Exchange → Bytes
  | .BINANCE => lit "BINANCE"
  | .BYBIT => lit "BYBIT"
  | .HYPERLIQUID => lit "HYPERLIQUID"

def SignalSource.text : SignalSource → Bytes
  | .BACKTEST_VALIDATED => lit "BACKTEST_VALIDATED"
  | .DIRECT => lit "DIRECT"

def Side.opposite : Side → Side
  | .BUY => .SELL
  | .SELL => .BUY

/-- `side == Side::BUY ? 1.0 : -1.0` -/
def Side.sign : Side → ℚ
  | .BUY => 1
  | .SELL => -1

@[simp] theorem Side.sign_opposite (s : Side) : s.opposite.sign = -s.sign := by
  cases s <;> simp [Side.opposite, Side.sign]

structure Signal where
  signalId : CStr 15 := .empty
  symbol : CStr 15 := .empty
  side : Side := .BUY
  instrumentType : InstrumentType := .FUTURES
  exchange : Exchange := .BINANCE
  signalSource : SignalSource := .BACKTEST_VALIDATED
  quantity : ℚ := 0
  price : ℚ := 0
  timestampNs : Int := 0
  groupId : CStr 15 := .empty
  hasGroupId : Bool := false
  hasStrikePrice : Bool := false
  hasExpiry : Bool := false
  hasOptionType : Bool := false
  deriving DecidableEq

inductive OrderStatus where
  | CREATED
  | VALIDATING
  | PENDING
  | SENT
  | TX_PENDING
  | TX_CONFIRMED
  | ACKNOWLEDGED
  | PARTIAL_FILL
  | FILLED
  | CANCELLED
  | REJECTED
  | TIMEOUT
  | UNWINDING
  deriving DecidableEq

def isTerminal : OrderStatus → Bool
  | .FILLED | .CANCELLED | .REJECTED | .TIMEOUT => true
  | _ => false

def isInFlight : OrderStatus → Bool
  | .SENT | .TX_PENDING | .ACKNOWLEDGED | .TX_CONFIRMED => true
  | _ => false

structure OrderResult where
  success : Bool := false
  exchangeOrderId : CStr 31 := .empty
  status : OrderStatus := .REJECTED
  errorMessage : CStr 63 := .empty
  latencyNs : Int := 0
  txHash : CStr 31 := .empty
  hasTxHash : Bool := false
  deriving DecidableEq

structure CancelResult where
  success : Bool := false
  deriving DecidableEq

structure Fill where
  exchangeOrderId : CStr 31 := .empty
  filledQty : ℚ := 0
  fillPrice : ℚ := 0
  fillTimestampNs : Int := 0
  isFinal : Bool := false
  txHash : CStr 31 := .empty
  hasTxHash : Bool := false
  deriving DecidableEq

structure LatencyMetrics where
  sendToAckNs : Int := 0
  totalNs : Int := 0
  deriving DecidableEq

structure Order where
  orderId : CStr 15 := .empty
  exchangeOrderId : CStr 31 := .empty
  signal : Signal := {}
  status : OrderStatus := .CREATED
  filledQuantity : ℚ := 0
  avgFillPrice : ℚ := 0
  createdAtNs : Int := 0
  sentAtNs : Int := 0
  lastUpdateNs : Int := 0
  rejectReason : CStr 63 := .empty
  txHash : CStr 31 := .empty
  hasTxHash : Bool := false
  txConfirmedNs : Int := 0
  hasTxConfirmedNs : Bool := false
  latency : LatencyMetrics := {}
  deriving DecidableEq

/-- `set_tx_hash` -/
def Order.setTxHash (o : Order) (h : CStr 31) : Order := { o with txHash := h, hasTxHash := true }

/-- The id the exchange of the order gives it. -/
def Order.exchangeId (o : Order) : Bytes :=
  match getExchangeType o.signal.exchange with
  | .CEX => exIdOf o.orderId
  | .DEX => hlIdOf o.orderId

inductive ArbPairStatus where
  | ASSEMBLING
  | DISPATCHED
  | CEX_FILLED
  | DEX_FILLED
  | ALL_FILLED
  | UNWINDING
  | FAILED
  | COMPLETED
  deriving DecidableEq

structure ArbPair where
  groupId : CStr 15 := .empty
  hasCexLeg : Bool := false
  cexLeg : Order := {}
  hasDexLeg : Bool := false
  dexLeg : Order := {}
  status : ArbPairStatus := .ASSEMBLING
  expectedSpreadBps : ℚ := 0
  realizedSpreadBps : ℚ := 0
  createdAtNs : Int := 0
  cexFillNs : Int := 0
  dexConfirmNs : Int := 0
  riskWindowNs : Int := 0
  dispatchDeadlineNs : Int := 0
  deriving DecidableEq

namespace ArbPair

def bothLegsPresent (p : ArbPair) : Bool := p.hasCexLeg && p.hasDexLeg

/-- The CEX leg for `true`, the DEX leg for `false`. -/
def leg (p : ArbPair) (isCex : Bool) : Order := if isCex then p.cexLeg else p.dexLeg

def hasLeg (p : ArbPair) (isCex : Bool) : Bool := if isCex then p.hasCexLeg else p.hasDexLeg

@[simp] theorem leg_true (p : ArbPair) : p.leg true = p.cexLeg := rfl
@[simp] theorem leg_false (p : ArbPair) : p.leg false = p.dexLeg := rfl
@[simp] theorem hasLeg_true (p : ArbPair) : p.hasLeg true = p.hasCexLeg := rfl
@[simp] theorem hasLeg_false (p : ArbPair) : p.hasLeg false = p.hasDexLeg := rfl

end ArbPair

/-- `FAILED` and `COMPLETED`, the statuses a pair ends in. -/
def ArbPairStatus.isFinal : ArbPairStatus → Bool
  | .FAILED | .COMPLETED => true
  | _ => false

end OrderExecution
