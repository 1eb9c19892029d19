import OrderExecution.Model

/-!
# The mock gateways

A gateway answers `send_order`, and a thread that it starts reports the fill
later, unless the order was cancelled by then. Where the source draws a random
number, `draw` is that number; delays and logging are left out.
-/

namespace OrderExecution

/-- The price that `schedule_fill` and `schedule_block_confirm` fill at. -/
def slippedPrice (slippageBps : ℚ) (s : Signal) : ℚ :=
  if s.price > 0 ∧ slippageBps > 0 then
    let slip := slippageBps / 10000
    if s.side = .BUY then s.price * (1 + slip) else s.price * (1 - slip)
  else s.price

structure MockCexGateway where
  exchangeId : Exchange := .BINANCE
  rejectProbability : ℚ := 0
  slippageBps : ℚ := 0
  cancelledOrders : List Bytes := []

structure MockDexGateway where
  rejectProbability : ℚ := 0
  slippageBps : ℚ := 0
  cancelledOrders : List Bytes := []

namespace MockCexGateway

def sendOrder (gw : MockCexGateway) (o : Order) (draw : ℚ) (latencyNs : Int) : OrderResult :=
  if draw < gw.rejectProbability then
    { success := false, status := .REJECTED, errorMessage := .copy 63 (lit "mock_reject"), latencyNs := latencyNs }
  else
    { success := true, exchangeOrderId := .copy 31 (exIdOf o.orderId), status := .ACKNOWLEDGED,
      latencyNs := latencyNs }

def cancelOrder (gw : MockCexGateway) (exchangeOrderId : Bytes) : MockCexGateway × CancelResult :=
  ({ gw with cancelledOrders := exchangeOrderId :: gw.cancelledOrders }, { success := true })

/-- The thread of `schedule_fill` after its sleep. -/
def scheduleFill (gw : MockCexGateway) (o : Order) (now : Int) : Option Fill :=
  if exIdOf o.orderId ∈ gw.cancelledOrders then none
  else some {
    exchangeOrderId := .copy 31 (exIdOf o.orderId)
    filledQty := o.signal.quantity
    fillPrice := slippedPrice gw.slippageBps o.signal
    fillTimestampNs := now
    isFinal := true }

end MockCexGateway

namespace MockDexGateway

def sendOrder (o : Order) (txHash : CStr 31) (latencyNs : Int) : OrderResult where
  success := true
  exchangeOrderId := .copy 31 (hlIdOf o.orderId)
  status := .TX_PENDING
  latencyNs := latencyNs
  txHash := txHash
  hasTxHash := true

def cancelOrder (gw : MockDexGateway) (exchangeOrderId : Bytes) : MockDexGateway × CancelResult :=
  ({ gw with cancelledOrders := exchangeOrderId :: gw.cancelledOrders }, { success := true })

/-- The thread of `schedule_block_confirm` after its sleep. -/
def scheduleBlockConfirm (gw : MockDexGateway) (o : Order) (txHash : CStr 31) (draw : ℚ) (now : Int) : Option Fill :=
  if hlIdOf o.orderId ∈ gw.cancelledOrders then none
  else if draw < gw.rejectProbability then
    some {
      exchangeOrderId := .copy 31 (hlIdOf o.orderId), filledQty := 0, fillPrice := 0, fillTimestampNs := now
      isFinal := true, txHash := txHash, hasTxHash := true }
  else some {
    exchangeOrderId := .copy 31 (hlIdOf o.orderId)
    filledQty := o.signal.quantity
    fillPrice := slippedPrice gw.slippageBps o.signal
    fillTimestampNs := now
    isFinal := true
    txHash := txHash
    hasTxHash := true }

end MockDexGateway

/-- `f` is what a mock gateway of this slippage reports when it fills the order. -/
inductive FilledAt (slippageBps : ℚ) (o : Order) (f : Fill) : Prop where
  | cex (gw : MockCexGateway) (now : Int) : gw.slippageBps = slippageBps → f ∈ gw.scheduleFill o now →
      FilledAt slippageBps o f
  | dex (gw : MockDexGateway) (txHash : CStr 31) (draw : ℚ) (now : Int) : gw.slippageBps = slippageBps →
      ¬ draw < gw.rejectProbability → f ∈ gw.scheduleBlockConfirm o txHash draw now → FilledAt slippageBps o f

section
variable {slippageBps : ℚ} {o : Order} {f : Fill}

/-- Both gateways fill the whole order, at the slipped price. -/
theorem FilledAt.amounts (h : FilledAt slippageBps o f) :
    f.filledQty = o.signal.quantity ∧ f.fillPrice = slippedPrice slippageBps o.signal := by
  cases h with
  | cex gw now hbps hf =>
    unfold MockCexGateway.scheduleFill at hf
    split at hf
    · cases hf
    · obtain rfl := Option.some.inj hf
      exact ⟨rfl, by rw [hbps]⟩
  | dex gw txHash draw now hbps hdraw hf =>
    unfold MockDexGateway.scheduleBlockConfirm at hf
    rw [if_neg hdraw] at hf
    split at hf
    · cases hf
    · obtain rfl := Option.some.inj hf
      exact ⟨rfl, by rw [hbps]⟩

theorem slippedPrice_zero (s : Signal) : slippedPrice 0 s = s.price := if_neg (by simp)

/-- A slippage below the whole price keeps the sign of the price. -/
theorem slippedPrice_pos_iff (h₀ : 0 ≤ slippageBps) (h₁ : slippageBps < 10000) (s : Signal) :
    0 < slippedPrice slippageBps s ↔ 0 < s.price := by
  have hslip : 0 ≤ slippageBps / 10000 ∧ slippageBps / 10000 < 1 := by
    constructor
    · positivity
    · rw [div_lt_one (by norm_num)]; exact h₁
  unfold slippedPrice
  split
  · next h =>
    have hup : 0 < 1 + slippageBps / 10000 := by linarith [hslip.1]
    have hdown : 0 < 1 - slippageBps / 10000 := by linarith [hslip.2]
    simp only
    split
    · exact iff_of_true (mul_pos h.1 hup) h.1
    · exact iff_of_true (mul_pos h.1 hdown) h.1
  · rfl

end

end OrderExecution
