import OrderExecution.GatewayRaces
import OrderExecution.Handovers

/-!
# The manager with its gateways

`Deployment` puts the manager and the mock gateways together: the runs of
`send_order`, the futures that the manager's threads wait for, the threads that
look at the cancelled orders, and the callbacks, one at a time for each gateway.
It refines `Market`, where a message is anything that names its order.
-/

namespace OrderExecution

open Machine

/-! ## The model -/

/-- `exchange_type()` -/
def MockGateway.exchangeType : MockGateway → ExchangeType
  | .cex _ => .CEX
  | .dex _ => .DEX

/-- What the thread that waits for the result does with it. -/
def Handover.resultEvent (x : Handover) (result : OrderResult) (now : Int) : ManagerEvent :=
  match x.sender with
  | .single => .task (.result x.order) [] result now
  | .pair g .cexLeg => .arb (.worker (.sendResult g true) result now)
  | .pair g .dexLeg => .arb (.worker (.sendResult g false) result now)
  | .pair g .unwind => .arb (.worker (.unwindResult g) result now)

/-- The step waits for the result of a `send_order`. -/
def ManagerEvent.awaitsResult : ManagerEvent → Bool
  | .task (.result _) _ _ _ | .arb (.worker (.sendResult _ _) _ _) | .arb (.worker (.unwindResult _) _ _) => true
  | _ => false

/-- `sending` are the runs of `send_order` before their result, `results` the
futures that have one and are waited for, and `finishing` the callbacks between
their two critical sections. `handed` and `answered` keep all that was handed
over and answered so far, and `overtaken` the orders whose callback ended before
the manager had their result. -/
structure Deployment where
  om : OrderManager
  gateways : Exchange → GatewayState
  handed : List Handover := []
  sending : List Handover := []
  answered : List (Handover × OrderResult) := []
  results : List (Handover × OrderResult) := []
  finishing : List (Exchange × Fill) := []
  overtaken : List Handover := []

/-- Cancels come from the conflict check or from anyone else who has the gateway. -/
inductive DeploymentEvent where
  | code (e : ManagerEvent)
  | result (x : Handover) (r : OrderResult) (now : Int)
  | sendOrder (x : Handover) (txHash : CStr 31) (draw : ℚ) (latencyNs : Int)
  | check (gw : Exchange) (o : Order) (txHash : CStr 31) (draw : ℚ) (now : Int)
  | cancelOrder (gw : Exchange) (exchangeOrderId : Bytes)
  | callback (gw : Exchange) (f : Fill) (now : Int)
  | finish (gw : Exchange) (f : Fill)

def DeploymentEvent.managerEvent : DeploymentEvent → Option ManagerEvent
  | .code e => some e
  | .result x r now => some (x.resultEvent r now)
  | .callback _ f now => some (.onFill f now)
  | .finish _ f => some (.finishFill f)
  | .sendOrder _ _ _ _ | .check _ _ _ _ _ | .cancelOrder _ _ => none

namespace Deployment

def init (signalConfig : SignalConfig) (portfolioConfig : PortfolioConfig) (arbConfig : ArbConfig)
    (hasGateway : Exchange → Bool) (gateways : Exchange → MockGateway) : Deployment where
  om := .init signalConfig portfolioConfig arbConfig hasGateway
  gateways := fun gw => { gateway := gateways gw }

def setGateway (d : Deployment) (gw : Exchange) (s : GatewayState) : Deployment :=
  { d with gateways := Function.update d.gateways gw s }

def step (d : Deployment) : DeploymentEvent → Option Deployment
  | .code e =>
    if e.isMessage = false ∧ e.awaitsResult = false then
      (d.om.step e).map fun om => { d with
        om := om, handed := e.handed ++ d.handed, sending := e.handed ++ d.sending }
    else none
  | .result x r now =>
    if (x, r) ∈ d.results then
      (d.om.step (x.resultEvent r now)).map fun om => { d with om := om, results := d.results.erase (x, r) }
    else none
  | .sendOrder x txHash draw latencyNs =>
    if x ∈ d.sending then
      let result := (d.gateways x.gateway).gateway.sendOrder x.order txHash draw latencyNs
      ((d.gateways x.gateway).step (.sendOrder x.order txHash draw latencyNs)).map fun s =>
        { d.setGateway x.gateway s with
          sending := d.sending.erase x
          answered := (x, result) :: d.answered
          results := (x, result) :: d.results }
    else none
  | .check gw o txHash draw now => ((d.gateways gw).step (.check o txHash draw now)).map (d.setGateway gw)
  | .cancelOrder gw id => ((d.gateways gw).step (.cancelOrder id)).map (d.setGateway gw)
  | .callback gw f now =>
    -- the gateway makes its callbacks under `callback_mutex_`
    if ∀ x ∈ d.finishing, x.1 ≠ gw then
      ((d.gateways gw).step (.callback f)).map fun s =>
        { d.setGateway gw s with om := d.om.onFill f now, finishing := (gw, f) :: d.finishing }
    else none
  | .finish gw f =>
    if (gw, f) ∈ d.finishing then
      some { d with
        om := d.om.finishFill f
        finishing := d.finishing.erase (gw, f)
        overtaken := (d.results.map Prod.fst).filter (·.order.exchangeId = f.exchangeOrderId.bytes) ++ d.overtaken }
    else none

end Deployment

/-! ## Where the message of an order is -/

namespace GatewayState

/-- The threads and callbacks about an exchange id. -/
def holds (s : GatewayState) (id : Bytes) : Nat :=
  s.threads.countP (fun t => t.1.exchangeId = id) + s.callbacks.countP fun f => f.exchangeOrderId.bytes = id

def reported (s : GatewayState) (id : Bytes) : Nat := s.fills.countP fun f => f.exchangeOrderId.bytes = id

end GatewayState

def overGateways (n : Exchange → Nat) : Nat := n .BINANCE + n .BYBIT + n .HYPERLIQUID

namespace Deployment

/-- How often a message with the id can still come. -/
def waiting (d : Deployment) (id : Bytes) : Nat :=
  d.sending.countP (fun x => x.order.exchangeId = id) + overGateways fun gw => (d.gateways gw).holds id

/-- How often a message with the id came. -/
def reported (d : Deployment) (id : Bytes) : Nat := overGateways fun gw => (d.gateways gw).reported id

/-- The gateway said no to the order. -/
def Refused (d : Deployment) (x : Handover) : Prop := ∃ a ∈ d.answered, a.1 = x ∧ a.2.success = false

/-- The order's cancel reached its gateway. -/
def Cancelled (d : Deployment) (x : Handover) : Prop :=
  x.order.exchangeId ∈ (d.gateways x.gateway).gateway.cancelledOrders

end Deployment

theorem overGateways_update (n : GatewayState → Nat) (gateways : Exchange → GatewayState) (gw : Exchange)
    (s : GatewayState) : overGateways (fun y => n (Function.update gateways gw s y)) + n (gateways gw) =
      overGateways (fun y => n (gateways y)) + n s := by
  cases gw <;> simp [overGateways, Function.update] <;> omega

theorem countP_erase_add {α : Type} [BEq α] [LawfulBEq α] {l : List α} {a : α} (p : α → Bool) (h : a ∈ l) :
    (l.erase a).countP p + (if p a then 1 else 0) = l.countP p := by
  rw [(List.perm_cons_erase h).countP_eq p, List.countP_cons]

/-! ## The steps of a gateway -/

theorem Order.exchangeId_cex {o : Order} (h : getExchangeType o.signal.exchange = .CEX) :
    o.exchangeId = exIdOf o.orderId := by
  rw [Order.exchangeId, h]

theorem Order.exchangeId_dex {o : Order} (h : getExchangeType o.signal.exchange = .DEX) :
    o.exchangeId = hlIdOf o.orderId := by
  rw [Order.exchangeId, h]

section
variable {gw : MockGateway} {o : Order} {txHash : CStr 31} {draw : ℚ} {now latencyNs : Int}

/-- A gateway of the order's kind answers with the id of the order. -/
theorem MockGateway.sendOrder_answers (h : gw.exchangeType = getExchangeType o.signal.exchange) :
    (gw.sendOrder o txHash draw latencyNs).Answers o := by
  cases gw with
  | cex gw =>
    show (gw.sendOrder o draw latencyNs).exchangeOrderId.bytes = _
    unfold MockGateway.sendOrder MockCexGateway.sendOrder
    rw [Order.exchangeId_cex h.symm]
    by_cases hr : draw < gw.rejectProbability
    · simp only [if_pos hr, Bool.false_eq_true, ite_false]
      rfl
    · simp only [if_neg hr, ite_true]
      exact bytes_copy_exIdOf _
  | dex gw =>
    show (CStr.copy 31 (hlIdOf o.orderId)).bytes = o.exchangeId
    rw [Order.exchangeId_dex h.symm]
    exact bytes_copy_hlIdOf _

/-- The thread of an order reports it, unless it finds the order cancelled. -/
theorem MockGateway.confirm_cases (h : gw.exchangeType = getExchangeType o.signal.exchange) :
    (gw.confirm o txHash draw now = none ∧ o.exchangeId ∈ gw.cancelledOrders) ∨
      ∃ f, gw.confirm o txHash draw now = some f ∧ f.exchangeOrderId.bytes = o.exchangeId := by
  cases gw with
  | cex gw =>
    show (gw.scheduleFill o now = none ∧ o.exchangeId ∈ gw.cancelledOrders) ∨
      ∃ f, gw.scheduleFill o now = some f ∧ f.exchangeOrderId.bytes = o.exchangeId
    rw [Order.exchangeId_cex h.symm, MockCexGateway.scheduleFill]
    by_cases hc : exIdOf o.orderId ∈ gw.cancelledOrders
    · exact .inl ⟨if_pos hc, hc⟩
    · exact .inr ⟨_, if_neg hc, bytes_copy_exIdOf _⟩
  | dex gw =>
    show (gw.scheduleBlockConfirm o txHash draw now = none ∧ o.exchangeId ∈ gw.cancelledOrders) ∨
      ∃ f, gw.scheduleBlockConfirm o txHash draw now = some f ∧ f.exchangeOrderId.bytes = o.exchangeId
    rw [Order.exchangeId_dex h.symm, MockDexGateway.scheduleBlockConfirm]
    by_cases hc : hlIdOf o.orderId ∈ gw.cancelledOrders
    · exact .inl ⟨if_pos hc, hc⟩
    · rw [if_neg hc]
      by_cases hr : draw < gw.rejectProbability
      · exact .inr ⟨_, if_pos hr, bytes_copy_hlIdOf _⟩
      · exact .inr ⟨_, if_neg hr, bytes_copy_hlIdOf _⟩

theorem MockGateway.exchangeType_cancelOrder (id : Bytes) : (gw.cancelOrder id).1.exchangeType = gw.exchangeType := by
  cases gw <;> rfl

end

namespace GatewayState

section
variable {s s' : GatewayState} {e : GatewayEvent} {o : Order} {txHash : CStr 31} {draw : ℚ} {now latencyNs : Int}
  {f : Fill}

/-- What a step keeps of the gateway itself. -/
theorem gateway_step (hs : s.step e = some s') : s'.gateway.exchangeType = s.gateway.exchangeType ∧
    ∀ id ∈ s.gateway.cancelledOrders, id ∈ s'.gateway.cancelledOrders := by
  cases e with
  | sendOrder o txHash draw latencyNs =>
    obtain ⟨threads, rfl⟩ := step_sendOrder hs
    exact ⟨rfl, fun _ h => h⟩
  | check o txHash draw now =>
    obtain ⟨threads, rfl⟩ := step_check hs
    exact ⟨rfl, fun _ h => h⟩
  | callback f =>
    obtain ⟨-, rfl⟩ := step_callback hs
    exact ⟨rfl, fun _ h => h⟩
  | cancelOrder id =>
    obtain rfl := step_cancelOrder hs
    refine ⟨MockGateway.exchangeType_cancelOrder id, fun x hx => ?_⟩
    rw [MockGateway.cancelOrder_cancelled]
    exact List.mem_cons_of_mem _ hx

theorem reported_step (hs : s.step e = some s')
    (he : ∀ f, e ≠ .callback f) : s'.reported = s.reported := by
  cases e with
  | sendOrder o txHash draw latencyNs =>
    obtain ⟨threads, rfl⟩ := step_sendOrder hs
    rfl
  | check o txHash draw now =>
    obtain ⟨threads, rfl⟩ := step_check hs
    rfl
  | callback f => exact absurd rfl (he f)
  | cancelOrder id =>
    obtain rfl := step_cancelOrder hs
    rfl

theorem sendOrder_counts (hs : s.step (.sendOrder o txHash draw latencyNs) = some s') :
    ((s.gateway.sendOrder o txHash draw latencyNs).success = true ∧ s'.threads = (o, txHash) :: s.threads ∧
      ∀ id, s'.holds id = s.holds id + if o.exchangeId = id then 1 else 0) ∧ s'.reported = s.reported ∨
    (s.gateway.sendOrder o txHash draw latencyNs).success = false ∧ s' = s := by
  unfold step at hs
  simp only at hs
  split at hs
  · next hsucc =>
    obtain rfl := Option.some.inj hs
    refine .inl ⟨⟨hsucc, rfl, fun id => ?_⟩, rfl⟩
    simp only [holds, List.countP_cons, decide_eq_true_eq]
    omega
  · next hsucc => exact .inr ⟨Bool.eq_false_of_not_eq_true hsucc, (Option.some.inj hs).symm⟩

theorem thread_of_check (hs : s.step (.check o txHash draw now) = some s') : (o, txHash) ∈ s.threads := by
  unfold step at hs
  simp only at hs
  split at hs
  · assumption
  · cases hs

theorem check_counts (hs : s.step (.check o txHash draw now) = some s')
    (hkind : s.gateway.exchangeType = getExchangeType o.signal.exchange) :
    s'.threads = s.threads.erase (o, txHash) ∧ s'.reported = s.reported ∧
      ((∀ id, s'.holds id = s.holds id) ∨ o.exchangeId ∈ s.gateway.cancelledOrders ∧
        ∀ id, s'.holds id + (if o.exchangeId = id then 1 else 0) = s.holds id) := by
  have ht := thread_of_check hs
  unfold step at hs
  simp only [if_pos ht, Option.some.injEq] at hs
  subst hs
  refine ⟨rfl, rfl, ?_⟩
  have hthreads := fun id => countP_erase_add (fun t : Order × CStr 31 => t.1.exchangeId = id) ht
  have hconfirm : (s.gateway.confirm o txHash draw now = none ∧ o.exchangeId ∈ s.gateway.cancelledOrders) ∨
      ∃ f, s.gateway.confirm o txHash draw now = some f ∧ f.exchangeOrderId.bytes = o.exchangeId :=
    MockGateway.confirm_cases hkind
  rcases hconfirm with ⟨hnone, hc⟩ | ⟨f, hsome, hf⟩
  · refine .inr ⟨hc, fun id => ?_⟩
    have := hthreads id
    simp only [decide_eq_true_eq] at this
    simp only [holds, hnone, Option.toList_none, List.nil_append]
    omega
  · refine .inl fun id => ?_
    have := hthreads id
    simp only [decide_eq_true_eq] at this
    simp only [holds, hsome, Option.toList_some, List.singleton_append, List.countP_cons, decide_eq_true_eq, hf]
    omega

theorem callback_counts (hs : s.step (.callback f) = some s') : f ∈ s.callbacks ∧ s'.threads = s.threads ∧
    (∀ id, s'.holds id + (if f.exchangeOrderId.bytes = id then 1 else 0) = s.holds id) ∧
      ∀ id, s'.reported id = s.reported id + if f.exchangeOrderId.bytes = id then 1 else 0 := by
  obtain ⟨hf, rfl⟩ := step_callback hs
  refine ⟨hf, rfl, fun id => ?_, fun id => ?_⟩
  · have := countP_erase_add (fun f : Fill => f.exchangeOrderId.bytes = id) hf
    simp only [decide_eq_true_eq] at this
    simp only [holds]
    omega
  · simp only [reported, List.countP_cons, decide_eq_true_eq]

end

end GatewayState

/-! ## Every order is accounted for -/

namespace Deployment

/-- An order that was handed over is with its gateway or was reported, and once in
all; if it is neither, it was refused or cancelled. -/
structure Tracked (d : Deployment) : Prop where
  kinds : ∀ gw, (d.gateways gw).gateway.exchangeType = getExchangeType gw
  fits : ∀ x ∈ d.handed, x.Fits
  distinct : (d.handed.map (·.order.orderId)).Nodup
  sending : ∀ x ∈ d.sending, x ∈ d.handed
  threads : ∀ gw, ∀ t ∈ (d.gateways gw).threads, ∃ x ∈ d.handed, x.gateway = gw ∧ x.order = t.1
  known : ∀ id, 0 < d.waiting id + d.reported id → ∃ x ∈ d.handed, x.order.exchangeId = id
  atMostOnce : ∀ id, d.waiting id + d.reported id ≤ 1
  accounted : ∀ x ∈ d.handed, d.waiting x.order.exchangeId + d.reported x.order.exchangeId = 1 ∨
    d.Refused x ∨ d.Cancelled x
  answered : ∀ a ∈ d.answered, a.1 ∈ d.handed
  refused : ∀ x, d.Refused x → d.waiting x.order.exchangeId + d.reported x.order.exchangeId = 0

section
variable {d d' : Deployment} {x y : Handover} {gw : Exchange} {s : GatewayState}

theorem waiting_setGateway (d : Deployment) (gw : Exchange) (s : GatewayState) (id : Bytes) :
    (d.setGateway gw s).waiting id + (d.gateways gw).holds id = d.waiting id + s.holds id := by
  have := overGateways_update (fun s => s.holds id) d.gateways gw s
  simp only [waiting, setGateway]
  omega

theorem reported_setGateway (d : Deployment) (gw : Exchange) (s : GatewayState) (id : Bytes) :
    (d.setGateway gw s).reported id + (d.gateways gw).reported id = d.reported id + s.reported id :=
  overGateways_update (fun s => s.reported id) d.gateways gw s

theorem gateways_setGateway (P : GatewayState → Exchange → Prop) (h : ∀ y, P (d.gateways y) y) (hs : P s gw) (y : Exchange) :
    P ((d.setGateway gw s).gateways y) y := by
  by_cases hy : y = gw
  · subst hy
    simpa only [setGateway, Function.update_self] using hs
  · simpa only [setGateway, Function.update_of_ne hy] using h y

theorem Tracked.eq_of_id (h : d.Tracked) (hx : x ∈ d.handed) (hy : y ∈ d.handed)
    (hid : x.order.exchangeId = y.order.exchangeId) : x = y :=
  List.inj_on_of_nodup_map h.distinct hx hy (Market.exchangeId_inj hid)

theorem tracked_init (signalConfig : SignalConfig) (portfolioConfig : PortfolioConfig) (arbConfig : ArbConfig)
    (hasGateway : Exchange → Bool) {gateways : Exchange → MockGateway}
    (hkinds : ∀ gw, (gateways gw).exchangeType = getExchangeType gw) :
    (init signalConfig portfolioConfig arbConfig hasGateway gateways).Tracked where
  kinds := hkinds
  fits := fun _ hx => by cases hx
  distinct := List.nodup_nil
  sending := fun _ hx => by cases hx
  threads := fun _ _ ht => by cases ht
  known := fun _ hpos => by cases hpos
  atMostOnce := fun _ => Nat.zero_le 1
  accounted := fun _ hx => by cases hx
  answered := fun _ ha => by cases ha
  refused := by
    rintro x ⟨a, ha, -⟩
    cases ha

/-- A new order is with `send_order`. -/
theorem Tracked.hand (h : d.Tracked) (hfits : x.Fits) (hfresh : ∀ y ∈ d.handed, y.order.orderId ≠ x.order.orderId)
    (om : OrderManager) :
    Tracked { d with om := om, handed := x :: d.handed, sending := x :: d.sending } := by
  have hne : ∀ y ∈ d.handed, y.order.exchangeId ≠ x.order.exchangeId := fun y hy he =>
    hfresh y hy (Market.exchangeId_inj he)
  have hwaiting : ∀ id, waiting { d with om := om, handed := x :: d.handed, sending := x :: d.sending } id =
      d.waiting id + if x.order.exchangeId = id then 1 else 0 := by
    intro id
    simp only [waiting, List.countP_cons, decide_eq_true_eq]
    omega
  have hnone : d.waiting x.order.exchangeId + d.reported x.order.exchangeId = 0 := by
    by_contra hpos
    obtain ⟨y, hy, hid⟩ := h.known _ (Nat.pos_of_ne_zero hpos)
    exact hne y hy hid
  have hreported : ∀ id, reported { d with om := om, handed := x :: d.handed, sending := x :: d.sending } id =
      d.reported id := fun _ => rfl
  refine ⟨h.kinds, ?_, ?_, ?_, ?_, ?_, ?_, ?_, fun a ha => List.mem_cons_of_mem _ (h.answered a ha), ?_⟩
  · intro y hy
    rcases List.mem_cons.mp hy with rfl | hy
    · exact hfits
    · exact h.fits y hy
  · refine List.nodup_cons.mpr ⟨fun hm => ?_, h.distinct⟩
    obtain ⟨y, hy, hid⟩ := List.mem_map.mp hm
    exact hfresh y hy hid
  · intro y hy
    rcases List.mem_cons.mp hy with rfl | hy
    · exact List.mem_cons_self ..
    · exact List.mem_cons_of_mem _ (h.sending y hy)
  · intro gw t ht
    obtain ⟨y, hy, hyt⟩ := h.threads gw t ht
    exact ⟨y, List.mem_cons_of_mem _ hy, hyt⟩
  · intro id hpos
    rw [hwaiting, hreported] at hpos
    by_cases hid : x.order.exchangeId = id
    · exact ⟨x, List.mem_cons_self .., hid⟩
    · rw [if_neg hid] at hpos
      obtain ⟨y, hy, hyid⟩ := h.known id hpos
      exact ⟨y, List.mem_cons_of_mem _ hy, hyid⟩
  · intro id
    rw [hwaiting, hreported]
    have := h.atMostOnce id
    split
    · next hid =>
      rw [hid] at hnone
      omega
    · omega
  · intro y hy
    rw [hwaiting, hreported]
    rcases List.mem_cons.mp hy with rfl | hy
    · left
      rw [if_pos rfl]
      omega
    · rw [if_neg (hne y hy).symm]
      exact h.accounted y hy
  · intro y hy
    obtain ⟨a, ha, hay, -⟩ := id hy
    rw [hwaiting, hreported, if_neg (hne y (hay ▸ h.answered a ha)).symm]
    exact h.refused y hy

/-- The gateways move a message on, or end it with a refusal or a cancel. -/
structure Moves (d d' : Deployment) : Prop where
  handed : d'.handed = d.handed
  kinds : ∀ gw, (d'.gateways gw).gateway.exchangeType = getExchangeType gw
  sending : ∀ x ∈ d'.sending, x ∈ d.sending
  threads : ∀ gw, ∀ t ∈ (d'.gateways gw).threads, ∃ x ∈ d.handed, x.gateway = gw ∧ x.order = t.1
  refused : ∀ x, d.Refused x → d'.Refused x
  cancelled : ∀ x, d.Cancelled x → d'.Cancelled x
  waiting : ∀ id, d'.waiting id ≤ d.waiting id
  count : ∀ id, d'.waiting id + d'.reported id = d.waiting id + d.reported id ∨
    d'.waiting id + d'.reported id ≤ d.waiting id + d.reported id ∧
      ∀ x ∈ d.handed, x.order.exchangeId = id → d'.Refused x ∨ d'.Cancelled x
  answered : ∀ a ∈ d'.answered, a.1 ∈ d.handed
  silent : ∀ x, d'.Refused x → d.Refused x ∨ d'.waiting x.order.exchangeId + d'.reported x.order.exchangeId = 0

theorem Tracked.move (h : d.Tracked) (hm : d.Moves d') : d'.Tracked := by
  have hle : ∀ id, d'.waiting id + d'.reported id ≤ d.waiting id + d.reported id := fun id =>
    (hm.count id).elim Nat.le_of_eq And.left
  refine ⟨hm.kinds, ?_, ?_, ?_, ?_, ?_, fun id => (hle id).trans (h.atMostOnce id), ?_, ?_, ?_⟩
  · rw [hm.handed]
    exact h.fits
  · rw [hm.handed]
    exact h.distinct
  · intro x hx
    rw [hm.handed]
    exact h.sending x (hm.sending x hx)
  · rw [hm.handed]
    exact hm.threads
  · intro id hpos
    rw [hm.handed]
    exact h.known id (hpos.trans_le (hle id))
  · intro x hx
    rw [hm.handed] at hx
    rcases hm.count x.order.exchangeId with he | ⟨-, hend⟩
    · rw [he]
      exact (h.accounted x hx).imp_right (Or.imp (hm.refused x) (hm.cancelled x))
    · exact .inr (hend x hx rfl)
  · rw [hm.handed]
    exact hm.answered
  · intro x hx
    rcases hm.silent x hx with hold | hnone
    · exact Nat.le_zero.mp ((hle _).trans (Nat.le_of_eq (h.refused x hold)))
    · exact hnone

end

/-! ### The steps of the gateways -/

section
variable {d : Deployment} {x : Handover} {gw : Exchange} {s : GatewayState} {e : GatewayEvent} {o : Order}
  {txHash : CStr 31} {draw : ℚ} {now latencyNs : Int} {f : Fill} {id : Bytes}

theorem Tracked.kinds_step (h : d.Tracked) (hs : (d.gateways gw).step e = some s) (y : Exchange) :
    ((d.setGateway gw s).gateways y).gateway.exchangeType = getExchangeType y :=
  gateways_setGateway (fun s y => s.gateway.exchangeType = getExchangeType y) h.kinds
    ((GatewayState.gateway_step hs).1.trans (h.kinds gw)) y

theorem Cancelled.step (hs : (d.gateways gw).step e = some s) (hc : d.Cancelled x) :
    (d.setGateway gw s).Cancelled x := by
  by_cases hx : x.gateway = gw
  · subst hx
    simpa only [Cancelled, setGateway, Function.update_self] using (GatewayState.gateway_step hs).2 _ hc
  · simpa only [Cancelled, setGateway, Function.update_of_ne hx] using hc

/-- The threads are as they were, or some are gone. -/
theorem Tracked.threads_sub (h : d.Tracked) (hsub : ∀ t ∈ s.threads, t ∈ (d.gateways gw).threads) (y : Exchange) :
    ∀ t ∈ ((d.setGateway gw s).gateways y).threads, ∃ x ∈ d.handed, x.gateway = y ∧ x.order = t.1 :=
  gateways_setGateway (fun s y => ∀ t ∈ s.threads, ∃ x ∈ d.handed, x.gateway = y ∧ x.order = t.1) h.threads
    (fun t ht => h.threads gw t (hsub t ht)) y

theorem Tracked.sendOrder (h : d.Tracked) (hx : x ∈ d.sending)
    (hs : (d.gateways x.gateway).step (.sendOrder x.order txHash draw latencyNs) = some s)
    (results : List (Handover × OrderResult)) : d.Moves { d.setGateway x.gateway s with
      sending := d.sending.erase x
      answered := (x, (d.gateways x.gateway).gateway.sendOrder x.order txHash draw latencyNs) :: d.answered
      results := results } := by
  have hhold := waiting_setGateway d x.gateway s
  have hreport := reported_setGateway d x.gateway s
  have hsend := fun id => countP_erase_add (fun y : Handover => y.order.exchangeId = id) hx
  simp only [waiting, decide_eq_true_eq] at hhold hsend
  refine ⟨rfl, h.kinds_step hs, fun y hy => List.mem_of_mem_erase hy, ?_, ?_, fun y hy => hy.step hs, ?_, ?_, ?_, ?_⟩
  · refine gateways_setGateway (fun s gw => ∀ t ∈ s.threads, ∃ x ∈ d.handed, x.gateway = gw ∧ x.order = t.1)
      h.threads fun t ht => ?_
    rcases GatewayState.sendOrder_counts hs with ⟨⟨-, hthreads, -⟩, -⟩ | ⟨-, rfl⟩
    · rw [hthreads] at ht
      rcases List.mem_cons.mp ht with rfl | ht
      · exact ⟨x, h.sending x hx, rfl, rfl⟩
      · exact h.threads _ t ht
    · exact h.threads _ t ht
  · rintro y ⟨a, ha, hay⟩
    exact ⟨a, List.mem_cons_of_mem _ ha, hay⟩
  · intro id
    have h₁ := hhold id
    have h₃ := hsend id
    rcases GatewayState.sendOrder_counts hs with ⟨⟨-, -, hcount⟩, -⟩ | ⟨-, rfl⟩
    · rw [hcount] at h₁
      simp only [waiting, setGateway] at h₁ ⊢
      omega
    · simp only [waiting, setGateway] at h₁ ⊢
      omega
  · intro id
    have h₁ := hhold id
    have h₂ := hreport id
    have h₃ := hsend id
    rcases GatewayState.sendOrder_counts hs with ⟨⟨-, -, hcount⟩, hrep⟩ | ⟨hfail, rfl⟩
    · rw [hcount] at h₁
      rw [hrep] at h₂
      left
      simp only [waiting, reported, setGateway] at h₁ h₂ ⊢
      omega
    · by_cases hid : x.order.exchangeId = id
      · refine .inr ⟨?_, fun y hy hyid => .inl ⟨_, List.mem_cons_self .., ?_, hfail⟩⟩
        · simp only [waiting, reported, setGateway] at h₁ h₂ ⊢
          omega
        · exact h.eq_of_id (h.sending x hx) hy (hid.trans hyid.symm)
      · rw [if_neg hid] at h₃
        left
        simp only [waiting, reported, setGateway] at h₁ h₂ ⊢
        omega
  · intro a ha
    rcases List.mem_cons.mp ha with rfl | ha
    · exact h.sending x hx
    · exact h.answered a ha
  · rintro y ⟨a, ha, hay, hfail⟩
    rcases List.mem_cons.mp ha with rfl | ha
    · obtain rfl := hay
      rcases GatewayState.sendOrder_counts hs with ⟨⟨hsucc, -, -⟩, -⟩ | ⟨-, rfl⟩
      · exact absurd (hsucc.symm.trans hfail) nofun
      · right
        have h₁ := hhold x.order.exchangeId
        have h₂ := hreport x.order.exchangeId
        have h₃ := hsend x.order.exchangeId
        have honce := h.atMostOnce x.order.exchangeId
        rw [if_pos rfl] at h₃
        simp only [waiting, reported, setGateway] at h₁ h₂ honce ⊢
        omega
    · exact .inl ⟨a, ha, hay, hfail⟩

theorem Tracked.check (h : d.Tracked) (hs : (d.gateways gw).step (.check o txHash draw now) = some s) :
    d.Moves (d.setGateway gw s) := by
  obtain ⟨x, hx, rfl, rfl⟩ := h.threads gw _ (GatewayState.thread_of_check hs)
  have hkind := (h.kinds x.gateway).trans (h.fits x hx)
  obtain ⟨hthreads, hrep, hcount⟩ := GatewayState.check_counts hs hkind
  have hhold := waiting_setGateway d x.gateway s
  refine ⟨rfl, h.kinds_step hs, fun _ hy => hy, ?_, fun _ hy => hy, fun _ hy => hy.step hs, fun id => ?_, fun id => ?_,
    h.answered, fun _ hy => .inl hy⟩
  · refine h.threads_sub fun t ht => ?_
    rw [hthreads] at ht
    exact List.mem_of_mem_erase ht
  · have h₁ := hhold id
    rcases hcount with hcount | ⟨-, hcount⟩
    · rw [hcount] at h₁
      omega
    · have h₃ := hcount id
      omega
  · have h₁ := hhold id
    have h₂ := reported_setGateway d x.gateway s id
    rw [hrep] at h₂
    rcases hcount with hcount | ⟨hcancelled, hcount⟩
    · rw [hcount] at h₁
      left
      omega
    · have h₃ := hcount id
      by_cases hid : x.order.exchangeId = id
      · refine .inr ⟨by omega, fun y hy hyid => .inr ?_⟩
        obtain rfl := h.eq_of_id hx hy (hid.trans hyid.symm)
        exact Cancelled.step hs hcancelled
      · rw [if_neg hid] at h₃
        left
        omega

theorem Tracked.cancelOrder (h : d.Tracked) (hs : (d.gateways gw).step (.cancelOrder id) = some s) :
    d.Moves (d.setGateway gw s) := by
  have hkept := GatewayState.step_cancelOrder hs
  have hwaiting : ∀ id, (d.setGateway gw s).waiting id = d.waiting id := by
    intro id
    have h₁ := waiting_setGateway d gw s id
    rw [hkept] at h₁ ⊢
    exact Nat.add_right_cancel h₁
  have hreported : ∀ id, (d.setGateway gw s).reported id = d.reported id := by
    intro id
    have h₂ := reported_setGateway d gw s id
    rw [hkept] at h₂ ⊢
    exact Nat.add_right_cancel h₂
  refine ⟨rfl, h.kinds_step hs, fun _ hy => hy, ?_, fun _ hy => hy, fun _ hy => hy.step hs,
    fun id => Nat.le_of_eq (hwaiting id), fun id => .inl (by rw [hwaiting, hreported]), h.answered,
    fun _ hy => .inl hy⟩
  refine h.threads_sub fun t ht => ?_
  rw [hkept] at ht
  exact ht

theorem Tracked.callback (h : d.Tracked) (hs : (d.gateways gw).step (.callback f) = some s) (om : OrderManager)
    (finishing : List (Exchange × Fill)) :
    d.Moves { d.setGateway gw s with om := om, finishing := finishing } := by
  obtain ⟨-, hthreads, hholds, hreported⟩ := GatewayState.callback_counts hs
  have h₁ := waiting_setGateway d gw s
  have h₂ := reported_setGateway d gw s
  refine ⟨rfl, h.kinds_step hs, fun _ hy => hy, ?_, fun _ hy => hy, fun _ hy => hy.step hs, fun id => ?_,
    fun id => .inl ?_, h.answered, fun _ hy => .inl hy⟩
  · refine h.threads_sub fun t ht => ?_
    rw [hthreads] at ht
    exact ht
  · have := h₁ id
    have := hholds id
    show (d.setGateway gw s).waiting id ≤ _
    omega
  · have := h₁ id
    have := h₂ id
    have := hholds id
    have := hreported id
    show (d.setGateway gw s).waiting id + (d.setGateway gw s).reported id = _
    omega

end

end Deployment

/-! ## The market that is refined -/

def Market.closedFor (m : Market) : Sender → List (CStr 15)
  | .single => m.closedSingles
  | .pair _ _ => m.closed

/-- The market `m` is where the deployment is. -/
structure Deployment.Refines (d : Deployment) (m : Market) : Prop where
  om : m.om = d.om
  once : m.HandsOnce
  tracked : d.Tracked
  sent : ∀ x ∈ d.handed, m.om.SentBy x.sender x.order
  results : ∀ a ∈ d.results, a.1.sender = .single → a.2.Answers a.1.order
  sending : ∀ x ∈ d.handed, 0 < d.waiting x.order.exchangeId → x.order.orderId ∉ m.closedFor x.sender
  closed : ∀ sender, ∀ id ∈ m.closedFor sender, ∃ x ∈ d.handed, x.order.orderId = id
  pending : (m.pending.map Prod.snd).Perm (d.finishing.map Prod.snd)

theorem ManagerEvent.honest_of_not_awaits {e : ManagerEvent} (hm : e.isMessage = false) (ha : e.awaitsResult = false) :
    e.Honest := by
  cases e with
  | task t answers r now =>
    cases t with
    | result o => cases ha
    | _ => trivial
  | finishFill f => cases hm
  | _ => trivial

theorem ManagerEvent.handed_cases (e : ManagerEvent) : e.handed = [] ∨ ∃ x, e.handed = [x] := by
  cases e with
  | task t answers r now =>
    cases t with
    | send gw o => exact .inr ⟨_, rfl⟩
    | _ => exact .inl rfl
  | arb a =>
    cases a with
    | dispatch call now =>
      cases call with
      | sendCex g gw gw₂ o₁ o₂ => cases gw <;> simp [handed]
      | sendDex g gw o => cases gw <;> simp [handed]
      | _ => exact .inl rfl
    | worker w r now =>
      cases w with
      | unwindSend g gw o => exact .inr ⟨_, rfl⟩
      | _ => exact .inl rfl
    | _ => exact .inl rfl
  | _ => exact .inl rfl

theorem Handover.resultEvent_spec (x : Handover) (r : OrderResult) (now : Int) :
    (x.resultEvent r now).isMessage = false ∧ (x.resultEvent r now).handed = [] ∧
      ((x.sender = .single → r.Answers x.order) → (x.resultEvent r now).Honest) := by
  unfold Handover.resultEvent
  split
  · next hs => exact ⟨rfl, rfl, fun h => h hs⟩
  · exact ⟨rfl, rfl, fun _ => trivial⟩
  · exact ⟨rfl, rfl, fun _ => trivial⟩
  · exact ⟨rfl, rfl, fun _ => trivial⟩

namespace Market

section
variable {m m' : Market} {me : MarketEvent} {e : ManagerEvent} {om : OrderManager} {sender : Sender} {o : Order}

theorem SentBy.step (h : m.Orderly) (hs : m.step me = some m') (hsent : m.om.SentBy sender o) :
    m'.om.SentBy sender o := by
  cases sender with
  | single => exact Sent.step hs hsent
  | pair g role =>
    obtain ⟨x, hx, hsend⟩ := hsent
    rcases arb_step hs with ⟨-, harb⟩ | ⟨a, -, hstep⟩
    · exact ⟨x, harb ▸ hx, hsend⟩
    · exact ⟨x, log_mono h.tagged.keyed hstep hx, hsend⟩

/-- A step of the manager's own code changes nothing of the gateways. -/
theorem code_step (hm : e.isMessage = false) (hh : e.Honest) (hom : m.om.step e = some om) :
    ∃ m', m.step (.code e) = some m' ∧ m'.om = om ∧ (∀ sender, m'.closedFor sender = m.closedFor sender) ∧
      m'.pending = m.pending := by
  have hs : m.step (.code e) = (m.om.step e).map _ := if_pos ⟨by simp [hm], hh⟩
  rw [hom] at hs
  refine ⟨_, hs, rfl, fun sender => ?_, rfl⟩
  cases sender <;> rfl

/-- The message of an order that was sent. -/
theorem message_step {f : Fill} (hs : m.om.SentBy sender o) (ho : o.orderId ∉ m.closedFor sender)
    (hx : f.exchangeOrderId.bytes = o.exchangeId) (now : Int) : ∃ me m', me.managerEvent = some (.onFill f now) ∧
      m.step me = some m' ∧ m'.om = m.om.onFill f now ∧ m'.pending = (o, f) :: m.pending ∧
        ∀ y, m'.closedFor y = m.closedFor y ∨ m'.closedFor y = o.orderId :: m.closedFor y := by
  cases sender with
  | single =>
    refine ⟨.message o f now, _, rfl, if_pos ⟨⟨hs, ho⟩, hx⟩, rfl, rfl, fun y => ?_⟩
    cases y
    · exact .inr rfl
    · exact .inl rfl
  | pair g role =>
    refine ⟨.legMessage g role o f now, _, rfl, if_pos ⟨⟨hs, ho⟩, hx⟩, rfl, rfl, fun y => ?_⟩
    cases y
    · exact .inl rfl
    · exact .inr rfl

end

end Market

/-! ## The refinement -/

namespace Deployment

section
variable {d d' : Deployment} {m : Market} {e : ManagerEvent} {om : OrderManager} {de : DeploymentEvent}

theorem refines_init (signalConfig : SignalConfig) (portfolioConfig : PortfolioConfig) (arbConfig : ArbConfig)
    (hasGateway : Exchange → Bool) {gateways : Exchange → MockGateway}
    (hkinds : ∀ gw, (gateways gw).exchangeType = getExchangeType gw) :
    (init signalConfig portfolioConfig arbConfig hasGateway gateways).Refines
      (.init signalConfig portfolioConfig arbConfig hasGateway) where
  om := rfl
  once := Market.handsOnce_init ..
  tracked := tracked_init signalConfig portfolioConfig arbConfig hasGateway hkinds
  sent := fun _ hx => by cases hx
  results := fun _ ha => by cases ha
  sending := fun _ hx => by cases hx
  closed := by
    intro sender id hid
    cases sender <;> cases hid
  pending := .refl _

theorem Tracked.manage (h : d.Tracked) (om : OrderManager) (results : List (Handover × OrderResult))
    (finishing : List (Exchange × Fill)) (overtaken : List Handover) :
    Tracked { d with om := om, results := results, finishing := finishing, overtaken := overtaken } :=
  ⟨h.kinds, h.fits, h.distinct, h.sending, h.threads, h.known, h.atMostOnce, h.accounted, h.answered, h.refused⟩

/-- The gateways' own steps are not seen by the market. -/
theorem Refines.moves (h : d.Refines m) (hm : d.Moves d') (hom : d'.om = d.om) (hfin : d'.finishing = d.finishing)
    (hresults : ∀ a ∈ d'.results, a ∈ d.results ∨ (a.1.sender = .single → a.2.Answers a.1.order)) : d'.Refines m where
  om := h.om.trans hom.symm
  once := h.once
  tracked := h.tracked.move hm
  sent := by
    rw [hm.handed]
    exact h.sent
  results := fun a ha => (hresults a ha).elim (h.results a) id
  sending := by
    intro x hx hpos
    rw [hm.handed] at hx
    exact h.sending x hx (hpos.trans_le (hm.waiting _))
  closed := by
    rw [hm.handed]
    exact h.closed
  pending := by
    rw [hfin]
    exact h.pending

/-- The manager's own steps that hand nothing over. -/
theorem Refines.manage (h : d.Refines m) (hn : d.om.arb.uuid.orderCounter < 10 ^ 11) (hm : e.isMessage = false)
    (hh : e.Honest) (hom : d.om.step e = some om) {results : List (Handover × OrderResult)}
    (hresults : ∀ a ∈ results, a ∈ d.results) :
    ∃ m', m.step (.code e) = some m' ∧ Refines { d with om := om, results := results } m' := by
  rw [← h.om] at hom hn
  obtain ⟨m', hs, hom', hclosed, hpend⟩ := Market.code_step hm hh hom
  refine ⟨m', hs, hom', h.once.step hn hs, h.tracked.manage om results d.finishing d.overtaken, ?_, ?_, ?_, ?_, ?_⟩
  · exact fun x hx => Market.SentBy.step h.once.orderly hs (h.sent x hx)
  · exact fun a ha => h.results a (hresults a ha)
  · intro x hx hpos
    rw [hclosed]
    exact h.sending x hx hpos
  · intro sender id hid
    rw [hclosed] at hid
    exact h.closed sender id hid
  · rw [hpend]
    exact h.pending

theorem Refines.hand (h : d.Refines m) (hn : d.om.arb.uuid.orderCounter < 10 ^ 11) (hm : e.isMessage = false)
    (hh : e.Honest) (hom : d.om.step e = some om) {x : Handover} (hx : e.handed = [x]) :
    ∃ m', m.step (.code e) = some m' ∧
      Refines { d with om := om, handed := x :: d.handed, sending := x :: d.sending } m' := by
  rw [← h.om] at hom hn
  obtain ⟨m', hs, hom', hclosed, hpend⟩ := Market.code_step hm hh hom
  have hmem : x ∈ e.handed := by rw [hx]; exact List.mem_singleton_self x
  have hfresh : ∀ y ∈ d.handed, y.order.orderId ≠ x.order.orderId := fun y hy =>
    h.once.handed_fresh hom hmem (h.sent y hy)
  refine ⟨m', hs, hom', h.once.step hn hs, h.tracked.hand (h.once.handed_fits hom hmem) hfresh om, ?_, h.results,
    ?_, ?_, ?_⟩
  · intro y hy
    rcases List.mem_cons.mp hy with rfl | hy
    · rw [hom']
      exact h.once.handed_sent hom hmem
    · exact Market.SentBy.step h.once.orderly hs (h.sent y hy)
  · intro y hy hpos
    rw [hclosed]
    rcases List.mem_cons.mp hy with rfl | hy
    · intro hid
      obtain ⟨z, hz, hzid⟩ := h.closed _ _ hid
      exact hfresh z hz hzid
    · refine h.sending y hy ?_
      have hne : ¬ x.order.exchangeId = y.order.exchangeId := fun he => hfresh y hy (Market.exchangeId_inj he.symm)
      simpa [waiting, List.countP_cons, hne] using hpos
  · intro sender id hid
    rw [hclosed] at hid
    obtain ⟨y, hy, hyid⟩ := h.closed sender id hid
    exact ⟨y, List.mem_cons_of_mem _ hy, hyid⟩
  · rw [hpend]
    exact h.pending

/-- A callback is the one message of an order that was sent. -/
theorem Refines.callback (h : d.Refines m) (hn : d.om.arb.uuid.orderCounter < 10 ^ 11) {gw : Exchange} {f : Fill}
    {s : GatewayState} (hs : (d.gateways gw).step (.callback f) = some s) (now : Int) :
    ∃ me m', me.managerEvent = some (.onFill f now) ∧ m.step me = some m' ∧
      Refines { d.setGateway gw s with om := d.om.onFill f now, finishing := (gw, f) :: d.finishing } m' := by
  obtain ⟨hf, -, hholds, -⟩ := GatewayState.callback_counts hs
  have hgw := waiting_setGateway d gw s f.exchangeOrderId.bytes
  have hheld := hholds f.exchangeOrderId.bytes
  rw [if_pos rfl] at hheld
  have hpos : 0 < d.waiting f.exchangeOrderId.bytes := by omega
  obtain ⟨x, hx, hid⟩ := h.tracked.known _ (Nat.lt_add_right _ hpos)
  rw [← hid] at hgw hheld hpos
  obtain ⟨me, m', hme, hstep, hom', hpend, hclosed⟩ :=
    Market.message_step (h.sent x hx) (h.sending x hx hpos) hid.symm now
  have hmove := h.tracked.callback hs (d.om.onFill f now) ((gw, f) :: d.finishing)
  rw [← h.om] at hn
  refine ⟨me, m', hme, hstep, by rw [hom', h.om], h.once.step hn hstep, h.tracked.move hmove, ?_, h.results, ?_, ?_, ?_⟩
  · exact fun y hy => Market.SentBy.step h.once.orderly hstep (h.sent y hy)
  · intro y hy hypos hyid
    have hyold := h.sending y hy (hypos.trans_le (hmove.waiting _))
    rcases hclosed y.sender with he | he
    · rw [he] at hyid
      exact hyold hyid
    · rw [he] at hyid
      rcases List.mem_cons.mp hyid with hyx | hyid
      · -- the order itself has no other message
        obtain rfl := List.inj_on_of_nodup_map h.tracked.distinct hy hx hyx
        have honce := h.tracked.atMostOnce y.order.exchangeId
        have : 0 < (d.setGateway gw s).waiting y.order.exchangeId := hypos
        omega
      · exact hyold hyid
  · intro sender id hmem
    rcases hclosed sender with he | he
    · rw [he] at hmem
      exact h.closed sender id hmem
    · rw [he] at hmem
      rcases List.mem_cons.mp hmem with rfl | hmem
      · exact ⟨x, hx, rfl⟩
      · exact h.closed sender id hmem
  · rw [hpend]
    exact h.pending.cons f

theorem Refines.finish (h : d.Refines m) (hn : d.om.arb.uuid.orderCounter < 10 ^ 11) {gw : Exchange} {f : Fill}
    (hf : (gw, f) ∈ d.finishing) (overtaken : List Handover) :
    ∃ me m', me.managerEvent = some (.finishFill f) ∧ m.step me = some m' ∧ Refines { d with
      om := d.om.finishFill f, finishing := d.finishing.erase (gw, f), overtaken := overtaken } m' := by
  obtain ⟨⟨o, f'⟩, hmem, rfl⟩ : ∃ x ∈ m.pending, x.2 = f :=
    List.mem_map.mp (h.pending.mem_iff.mpr (List.mem_map_of_mem hf))
  have hstep : m.step (.finish o f') = some { m with
      om := m.om.finishFill f', pending := m.pending.erase (o, f') } := if_pos hmem
  rw [← h.om] at hn
  refine ⟨_, _, rfl, hstep, by rw [h.om], h.once.step hn hstep, h.tracked.manage _ d.results _ overtaken, ?_, h.results,
    h.sending, h.closed, ?_⟩
  · exact fun y hy => Market.SentBy.step h.once.orderly hstep (h.sent y hy)
  · have hleft := (List.perm_cons_erase hmem).map Prod.snd
    have hright := (List.perm_cons_erase hf).map Prod.snd
    exact (hleft.symm.trans (h.pending.trans hright)).cons_inv

/-- A step of the deployment is a step of the market, or none for the gateways' own. -/
theorem Refines.step (h : d.Refines m) (hn : d.om.arb.uuid.orderCounter < 10 ^ 11) (hs : d.step de = some d') :
    (de.managerEvent = none ∧ d'.Refines m) ∨
      ∃ me m', me.managerEvent = de.managerEvent ∧ m.step me = some m' ∧ d'.Refines m' := by
  cases de with
  | code e =>
    simp only [Deployment.step] at hs
    split at hs
    · next hc =>
      obtain ⟨om, hom, rfl⟩ := Option.map_eq_some_iff.mp hs
      have hh := ManagerEvent.honest_of_not_awaits hc.1 hc.2
      rcases e.handed_cases with hnil | ⟨x, hx⟩
      · obtain ⟨m', hme, hd⟩ := h.manage hn hc.1 hh hom fun a (ha : a ∈ d.results) => ha
        refine .inr ⟨_, m', rfl, hme, ?_⟩
        rw [hnil]
        exact hd
      · obtain ⟨m', hme, hd⟩ := h.hand hn hc.1 hh hom hx
        refine .inr ⟨_, m', rfl, hme, ?_⟩
        rw [hx]
        exact hd
    · cases hs
  | result x r now =>
    simp only [Deployment.step] at hs
    split at hs
    · next hmem =>
      obtain ⟨om, hom, rfl⟩ := Option.map_eq_some_iff.mp hs
      obtain ⟨hm, -, hh⟩ := x.resultEvent_spec r now
      obtain ⟨m', hme, hd⟩ := h.manage hn hm (hh (h.results _ hmem)) hom fun _ ha => List.mem_of_mem_erase ha
      exact .inr ⟨_, m', rfl, hme, hd⟩
    · cases hs
  | sendOrder x txHash draw latencyNs =>
    simp only [Deployment.step] at hs
    split at hs
    · next hx =>
      obtain ⟨s, hgw, rfl⟩ := Option.map_eq_some_iff.mp hs
      refine .inl ⟨rfl, h.moves (h.tracked.sendOrder hx hgw _) rfl rfl fun a ha => ?_⟩
      rcases List.mem_cons.mp ha with rfl | ha
      · have hkind := (h.tracked.kinds x.gateway).trans (h.tracked.fits x (h.tracked.sending x hx))
        exact .inr fun _ => MockGateway.sendOrder_answers hkind
      · exact .inl ha
    · cases hs
  | check gw o txHash draw now =>
    simp only [Deployment.step] at hs
    obtain ⟨s, hgw, rfl⟩ := Option.map_eq_some_iff.mp hs
    exact .inl ⟨rfl, h.moves (h.tracked.check hgw) rfl rfl fun _ ha => .inl ha⟩
  | cancelOrder gw id =>
    simp only [Deployment.step] at hs
    obtain ⟨s, hgw, rfl⟩ := Option.map_eq_some_iff.mp hs
    exact .inl ⟨rfl, h.moves (h.tracked.cancelOrder hgw) rfl rfl fun _ ha => .inl ha⟩
  | callback gw f now =>
    simp only [Deployment.step] at hs
    split at hs
    · obtain ⟨s, hgw, rfl⟩ := Option.map_eq_some_iff.mp hs
      obtain ⟨me, m', he, hme, hd⟩ := h.callback hn hgw now
      exact .inr ⟨me, m', he, hme, hd⟩
    · cases hs
  | finish gw f =>
    simp only [Deployment.step] at hs
    split at hs
    · next hf =>
      obtain rfl := Option.some.inj hs
      obtain ⟨me, m', he, hme, hd⟩ := h.finish hn hf _
      exact .inr ⟨me, m', he, hme, hd⟩
    · cases hs

end

end Deployment

section
variable (signalConfig : SignalConfig) (portfolioConfig : PortfolioConfig) (arbConfig : ArbConfig)
  (hasGateway : Exchange → Bool) (gateways : Exchange → MockGateway)

/-- The run of the market that a run of the deployment is. -/
theorem exists_market_run (hkinds : ∀ gw, (gateways gw).exchangeType = getExchangeType gw)
    {es : List DeploymentEvent} {d : Deployment}
    (hids : Along Deployment.step (fun d _ => d.om.arb.uuid.orderCounter < 10 ^ 11)
      (.init signalConfig portfolioConfig arbConfig hasGateway gateways) es)
    (hr : run Deployment.step (.init signalConfig portfolioConfig arbConfig hasGateway gateways) es = some d) :
    ∃ mes m, run Market.step (.init signalConfig portfolioConfig arbConfig hasGateway) mes = some m ∧ d.Refines m ∧
      mes.filterMap MarketEvent.managerEvent = es.filterMap DeploymentEvent.managerEvent := by
  refine run_refines (fun d de d' m h hn hs => ?_) hids
    (Deployment.refines_init signalConfig portfolioConfig arbConfig hasGateway hkinds) hr
  rcases Deployment.Refines.step h hn hs with ⟨hnone, hd⟩ | ⟨me, m', hme, hstep, hd⟩
  · exact ⟨[], m, rfl, hd, by rw [hnone]; rfl⟩
  · refine ⟨[me], m', run_one hstep, hd, ?_⟩
    rw [← hme, List.filterMap_cons]
    cases me.managerEvent <;> rfl

/-- With the mock gateways the manager runs as it does in the market: each of its
messages is the one of an order that was sent, and every result keeps to the id. -/
theorem deployment_refines (hkinds : ∀ gw, (gateways gw).exchangeType = getExchangeType gw)
    {es : List DeploymentEvent} {d : Deployment}
    (hids : Along Deployment.step (fun d _ => d.om.arb.uuid.orderCounter < 10 ^ 11)
      (.init signalConfig portfolioConfig arbConfig hasGateway gateways) es)
    (hr : run Deployment.step (.init signalConfig portfolioConfig arbConfig hasGateway gateways) es = some d) :
    ∃ mes m, run Market.step (.init signalConfig portfolioConfig arbConfig hasGateway) mes = some m ∧ m.om = d.om ∧
      mes.filterMap MarketEvent.managerEvent = es.filterMap DeploymentEvent.managerEvent := by
  obtain ⟨mes, m, hm, hd, hobs⟩ := exists_market_run _ _ _ _ _ hkinds hids hr
  exact ⟨mes, m, hm, hd.om, hobs⟩

end

namespace Sample

def mockGateways : Exchange → MockGateway
  | .BINANCE => .cex {}
  | .BYBIT => .cex { exchangeId := .BYBIT }
  | .HYPERLIQUID => .dex {}

def deployment : Deployment := .init {} {} {} (fun _ => true) mockGateways

def singleHandover : Handover := ⟨.single, .BINANCE, singleSent⟩

def ownTask (t : SingleTask) : DeploymentEvent := .code (.task t [] {} 1)

/-- The callback of the order comes before the result of its `send_order`. -/
def deployed : List DeploymentEvent :=
  [.code (.processSignal single 1 1), ownTask (.check singleOrder), ownTask (.reserve singleOrder),
   ownTask (.store singleSent), ownTask (.register singleSent), ownTask (.lookup singleSent),
   ownTask (.send .BINANCE singleSent), .sendOrder singleHandover .empty 0 0, .check .BINANCE singleSent .empty 0 0,
   .callback .BINANCE singleFill 2, .result singleHandover taken 3, .finish .BINANCE singleFill]

end Sample

theorem deployment_refines_filled : ∃ d mes m, run Deployment.step Sample.deployment Sample.deployed = some d ∧
    run Market.step Sample.market mes = some m ∧ m.om = d.om ∧
      mes.filterMap MarketEvent.managerEvent = Sample.deployed.filterMap DeploymentEvent.managerEvent := by
  obtain ⟨d, hd⟩ : ∃ d, run Deployment.step Sample.deployment Sample.deployed = some d :=
    Option.isSome_iff_exists.mp (by decide +kernel)
  obtain ⟨mes, m, hm⟩ := deployment_refines {} {} {} (fun _ => true) Sample.mockGateways
    (fun gw => by cases gw <;> rfl) (by decide +kernel) hd
  exact ⟨d, mes, m, hd, hm⟩

section
variable (signalConfig : SignalConfig) (portfolioConfig : PortfolioConfig) (arbConfig : ArbConfig)
  (hasGateway : Exchange → Bool) (gateways : Exchange → MockGateway)

/-- No message is lost, made up or doubled: a report names an order that was handed
over, and such an order was refused, or has one message that came or still can, or
its cancel reached the gateway in time. -/
theorem every_order_accounted (hkinds : ∀ gw, (gateways gw).exchangeType = getExchangeType gw)
    {es : List DeploymentEvent} {d : Deployment}
    (hids : Along Deployment.step (fun d _ => d.om.arb.uuid.orderCounter < 10 ^ 11)
      (.init signalConfig portfolioConfig arbConfig hasGateway gateways) es)
    (hr : run Deployment.step (.init signalConfig portfolioConfig arbConfig hasGateway gateways) es = some d) :
    (∀ id, 0 < d.reported id → ∃ x ∈ d.handed, x.order.exchangeId = id) ∧
    ∀ x ∈ d.handed,
      (d.Refused x ∧ d.waiting x.order.exchangeId + d.reported x.order.exchangeId = 0) ∨
      (¬ d.Refused x ∧ (d.waiting x.order.exchangeId + d.reported x.order.exchangeId = 1 ∨
        d.waiting x.order.exchangeId + d.reported x.order.exchangeId = 0 ∧ d.Cancelled x)) := by
  obtain ⟨mes, m, -, hd, -⟩ := exists_market_run _ _ _ _ _ hkinds hids hr
  have h := hd.tracked
  refine ⟨fun id hid => h.known id (Nat.add_pos_right _ hid), fun x hx => ?_⟩
  by_cases href : d.Refused x
  · exact .inl ⟨href, h.refused x href⟩
  · refine .inr ⟨href, ?_⟩
    rcases h.accounted x hx with hone | href' | hc
    · exact .inl hone
    · exact absurd href' href
    · have := h.atMostOnce x.order.exchangeId
      by_cases hone : d.waiting x.order.exchangeId + d.reported x.order.exchangeId = 1
      · exact .inl hone
      · exact .inr ⟨by omega, hc⟩

end

namespace Sample

/-- Up to the result. -/
def cancelledInTime : List DeploymentEvent :=
  deployed.take 8 ++ [.cancelOrder .BINANCE (exIdOf (storedOrderId 1)), .check .BINANCE singleSent .empty 0 0]

end Sample

/-- The cancel comes before the thread's look, and the order has no report. -/
theorem every_order_accounted_cancelled : ∃ d, run Deployment.step Sample.deployment Sample.cancelledInTime = some d ∧
    Sample.singleHandover ∈ d.handed ∧ ¬ d.Refused Sample.singleHandover ∧ d.Cancelled Sample.singleHandover := by
  obtain ⟨d, hd, hrest⟩ : ∃ d, run Deployment.step Sample.deployment Sample.cancelledInTime = some d ∧
      some (decide (Sample.singleHandover ∈ d.handed ∧
        d.waiting Sample.singleHandover.order.exchangeId + d.reported Sample.singleHandover.order.exchangeId = 0 ∧
          ∀ a ∈ d.answered, a.2.success = true)) = some true :=
    Option.bind_eq_some_iff.mp (show (run Deployment.step Sample.deployment Sample.cancelledInTime).bind (fun d =>
      some (decide (Sample.singleHandover ∈ d.handed ∧
        d.waiting Sample.singleHandover.order.exchangeId + d.reported Sample.singleHandover.order.exchangeId = 0 ∧
          ∀ a ∈ d.answered, a.2.success = true))) = some true by decide +kernel)
  obtain ⟨hmem, hnone, hall⟩ := of_decide_eq_true (Option.some.inj hrest)
  have hnot : ¬ d.Refused Sample.singleHandover := fun ⟨a, ha, _, hfail⟩ => by
    rw [hall a ha] at hfail
    cases hfail
  rcases (every_order_accounted {} {} {} (fun _ => true) Sample.mockGateways (fun gw => by cases gw <;> rfl)
    (by decide +kernel) hd).2 _ hmem with ⟨href, -⟩ | ⟨-, hone | ⟨-, hc⟩⟩
  · exact absurd href hnot
  · omega
  · exact ⟨d, hd, hmem, hnot, hc⟩

end OrderExecution
