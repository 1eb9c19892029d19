import OrderExecution.ArbWorld
import OrderExecution.SingleSteps

/-!
# The manager and the exchanges

`Market` is the manager together with the gateways it sends to. Each order that
was handed to a gateway has one message or none, a fill or a reject, at any
later time; a callback stands between its two critical sections in `pending`.
An order lives through the stages of `Life`.
-/

namespace OrderExecution

open ArbCoordinator Machine SignalReceiver

/-- The result of sending an order: the exchange id of the order if it was taken,
none if not. -/
def OrderResult.Answers (r : OrderResult) (o : Order) : Prop :=
  r.exchangeOrderId.bytes = if r.success then o.exchangeId else []

instance (r : OrderResult) (o : Order) : Decidable (r.Answers o) := inferInstanceAs (Decidable (_ = _))

def OrderManager.Sent (m : OrderManager) (o : Order) : Prop := .sendOrder o.signal.exchange o ∈ m.log

instance (m : OrderManager) (o : Order) : Decidable (m.Sent o) := inferInstanceAs (Decidable (_ ∈ _))

/-- The step of the coordinator in a step of the manager. -/
def OrderManager.arbEvent (m : OrderManager) : ManagerEvent → Option ArbEvent
  | .processSignal s receiveNs now =>
    if (validate m.signalConfig s receiveNs).valid then
      some (if s.hasGroupId then .addLeg s now else .drawOrderId) else none
  | .task (.reserve o) _ _ _ => some (.portfolio (.checkAndReserve o.signal))
  | .task (.release o) _ _ _ => some (.portfolio (.releaseMargin o.signal))
  | .task (.result o) _ r _ =>
    if !r.success ∧ (m.orders.lookup o.orderId).isSome then some (.portfolio (.releaseMargin o.signal)) else none
  | .task _ _ _ _ => none
  | .arb e => some e
  | .onFill f now => some (.onFill f.exchangeOrderId.bytes f.fillPrice f.filledQty f.isReject now)
  | .finishFill f => (m.findOrder f.exchangeOrderId).map fun x =>
    .portfolio (if f.isReject then .releaseMargin x.2.signal else .onFill x.2.signal f.fillPrice f.filledQty)

/-- `others`, `closed` and `fills` are those of the coordinator's `World`, the
single-leg orders being the others; `closedSingles` and `singleFills` are the
same for the single-leg orders. -/
structure Market where
  om : OrderManager
  others : List (CStr 15) := []
  closed : List (CStr 15) := []
  fills : List FillRecord := []
  closedSingles : List (CStr 15) := []
  singleFills : List (Order × ℚ) := []
  pending : List (Order × Fill) := []

inductive MarketEvent where
  /-- A step of the manager's own code. -/
  | code (e : ManagerEvent)
  | legMessage (g : CStr 15) (role : LegRole) (o : Order) (f : Fill) (now : Int)
  | noLegMessage (g : CStr 15) (role : LegRole) (o : Order)
  | message (o : Order) (f : Fill) (now : Int)
  | noMessage (o : Order)
  /-- The second critical section of a callback. -/
  | finish (o : Order) (f : Fill)
  deriving DecidableEq

def ManagerEvent.isMessage : ManagerEvent → Bool
  | .onFill _ _ | .finishFill _ => true
  | .processSignal _ _ _ | .task _ _ _ _ | .arb _ => false

/-- The gateway keeps to the id it gives the order. -/
def ManagerEvent.Honest : ManagerEvent → Prop
  | .task (.result o) _ r _ => r.Answers o
  | .finishFill f => f.exchangeOrderId.bytes ≠ []
  | _ => True

instance : ∀ e : ManagerEvent, Decidable e.Honest
  | .task (.result o) _ r _ => inferInstanceAs (Decidable (r.Answers o))
  | .finishFill f => inferInstanceAs (Decidable (f.exchangeOrderId.bytes ≠ []))
  | .task (.check _) _ _ _ | .task (.reserve _) _ _ _ | .task (.storeRefused _ _) _ _ _ | .task (.store _) _ _ _
  | .task (.register _) _ _ _ | .task (.lookup _) _ _ _ | .task (.storeRejected _) _ _ _
  | .task (.release _) _ _ _ | .task (.send _ _) _ _ _ => isTrue trivial
  | .processSignal _ _ _ | .arb _ | .onFill _ _ => isTrue trivial

def MarketEvent.managerEvent : MarketEvent → Option ManagerEvent
  | .code e => some e
  | .legMessage _ _ _ f now | .message _ f now => some (.onFill f now)
  | .noLegMessage _ _ _ | .noMessage _ => none
  | .finish _ f => some (.finishFill f)

namespace Market

def init (signalConfig : SignalConfig) (portfolioConfig : PortfolioConfig) (arbConfig : ArbConfig)
    (hasGateway : Exchange → Bool) : Market where
  om := .init signalConfig portfolioConfig arbConfig hasGateway

def step (m : Market) : MarketEvent → Option Market
  | .code e =>
    if ¬ e.isMessage ∧ e.Honest then
      (m.om.step e).map fun om => { m with
        om := om
        others := if m.om.arbEvent e = some .drawOrderId then
          storedOrderId m.om.arb.uuid.orderCounter :: m.others else m.others }
    else none
  | .legMessage g role o f now =>
    if (m.om.arb.Sent g role o ∧ o.orderId ∉ m.closed) ∧ f.exchangeOrderId.bytes = o.exchangeId then
      some { m with
        om := m.om.onFill f now
        closed := o.orderId :: m.closed
        fills := if f.isReject then m.fills else ⟨g, role, o, f.filledQty⟩ :: m.fills
        pending := (o, f) :: m.pending }
    else none
  | .noLegMessage g role o =>
    if m.om.arb.Sent g role o ∧ o.orderId ∉ m.closed then some { m with closed := o.orderId :: m.closed }
    else none
  | .message o f now =>
    if (m.om.Sent o ∧ o.orderId ∉ m.closedSingles) ∧ f.exchangeOrderId.bytes = o.exchangeId then
      some { m with
        om := m.om.onFill f now
        closedSingles := o.orderId :: m.closedSingles
        singleFills := if f.isReject then m.singleFills else (o, f.filledQty) :: m.singleFills
        pending := (o, f) :: m.pending }
    else none
  | .noMessage o =>
    if m.om.Sent o ∧ o.orderId ∉ m.closedSingles then
      some { m with closedSingles := o.orderId :: m.closedSingles }
    else none
  | .finish o f =>
    if (o, f) ∈ m.pending then some { m with om := m.om.finishFill f, pending := m.pending.erase (o, f) } else none

/-- A step `me` of the market from `m` to `m'`, with what it found. -/
inductive Steps (m : Market) : MarketEvent → Market → Prop
  | code {e om} : e.isMessage = false → e.Honest → m.om.step e = some om → Steps m (.code e)
      { m with
        om := om
        others := if m.om.arbEvent e = some .drawOrderId then
          storedOrderId m.om.arb.uuid.orderCounter :: m.others else m.others }
  | legMessage {g role o f now} : m.om.arb.Sent g role o → o.orderId ∉ m.closed →
      f.exchangeOrderId.bytes = o.exchangeId → Steps m (.legMessage g role o f now)
        { m with
          om := m.om.onFill f now
          closed := o.orderId :: m.closed
          fills := if f.isReject then m.fills else ⟨g, role, o, f.filledQty⟩ :: m.fills
          pending := (o, f) :: m.pending }
  | noLegMessage {g role o} : m.om.arb.Sent g role o → o.orderId ∉ m.closed →
      Steps m (.noLegMessage g role o) { m with closed := o.orderId :: m.closed }
  | message {o f now} : m.om.Sent o → o.orderId ∉ m.closedSingles →
      f.exchangeOrderId.bytes = o.exchangeId → Steps m (.message o f now)
        { m with
          om := m.om.onFill f now
          closedSingles := o.orderId :: m.closedSingles
          singleFills := if f.isReject then m.singleFills else (o, f.filledQty) :: m.singleFills
          pending := (o, f) :: m.pending }
  | noMessage {o} : m.om.Sent o → o.orderId ∉ m.closedSingles →
      Steps m (.noMessage o) { m with closedSingles := o.orderId :: m.closedSingles }
  | finish {o f} : (o, f) ∈ m.pending →
      Steps m (.finish o f) { m with om := m.om.finishFill f, pending := m.pending.erase (o, f) }

theorem steps_of_step {m m' : Market} {me : MarketEvent} (h : m.step me = some m') : m.Steps me m' := by
  cases me with
  | code e =>
    simp only [step] at h
    split at h
    · next hc =>
      obtain ⟨om, hom, rfl⟩ := Option.map_eq_some_iff.mp h
      exact .code (Bool.not_eq_true _ ▸ hc.1) hc.2 hom
    · cases h
  | legMessage g role o f now =>
    simp only [step] at h
    split at h <;> cases h
    next hc => exact .legMessage hc.1.1 hc.1.2 hc.2
  | noLegMessage g role o =>
    simp only [step] at h
    split at h <;> cases h
    next hc => exact .noLegMessage hc.1 hc.2
  | message o f now =>
    simp only [step] at h
    split at h <;> cases h
    next hc => exact .message hc.1.1 hc.1.2 hc.2
  | noMessage o =>
    simp only [step] at h
    split at h <;> cases h
    next hc => exact .noMessage hc.1 hc.2
  | finish o f =>
    simp only [step] at h
    split at h <;> cases h
    next hp => exact .finish hp

def world (m : Market) : World where
  arb := m.om.arb
  others := m.others
  closed := m.closed
  fills := m.fills

end Market

/-! ## The stages of an order -/

structure Order.Unsent (id : CStr 15) (o : Order) : Prop where
  orderId : o.orderId = id
  exchangeOrderId : o.exchangeOrderId = .empty
  quantity : 0 < o.signal.quantity

/-- `o'` is the stored order `o` after its send result. -/
structure Order.Answered (o o' : Order) : Prop where
  orderId : o'.orderId = o.orderId
  signal : o'.signal = o.signal
  named : o'.exchangeOrderId.bytes = o.exchangeId ∨ o'.exchangeOrderId = .empty ∧ o'.status = .REJECTED

inductive SingleView.Life (id : CStr 15) : SingleView → Prop where
  | undrawn : Life id ⟨[], none, []⟩
  | called {t : SingleTask} : t = .check t.order ∨ t = .reserve t.order → t.order.Unsent id → Life id ⟨[t], none, []⟩
  | storeRefused {o reason} : o.Unsent id → o.status = .REJECTED → Life id ⟨[.storeRefused o reason], none, []⟩
  | store {o} : o.Unsent id → o.status = .SENT → Life id ⟨[.store o], none, []⟩
  | stored {t : SingleTask} : t = .register t.order ∨ t = .lookup t.order ∨ t = .send t.order.signal.exchange t.order →
      t.order.Unsent id → t.order.status = .SENT → Life id ⟨[t], some t.order, []⟩
  | storeRejected {o o'} : o.Unsent id → o.status = .SENT → o'.Unsent id → o'.status = .REJECTED →
      o'.signal = o.signal → Life id ⟨[.storeRejected o'], some o, []⟩
  | release {o} : o.Unsent id → o.status = .REJECTED → Life id ⟨[.release o], some o, []⟩
  | refused {o} : o.Unsent id → o.status = .REJECTED → Life id ⟨[], some o, []⟩
  | waiting {o} : o.Unsent id → o.status = .SENT →
      Life id ⟨[.result o], some o, [.sendOrder o.signal.exchange o]⟩
  | answered {o o' l} : o.Unsent id → o.Answered o' → (∀ x ∈ l, ∃ price qty, x = .bookFill id o.signal price qty) →
      Life id ⟨[], some o', l ++ [.sendOrder o.signal.exchange o]⟩

section
variable {m : OrderManager} {id : CStr 15} {v v' : SingleView} {e : ManagerEvent}

theorem Order.exchangeId_ne_nil (o : Order) : o.exchangeId ≠ [] := by
  unfold Order.exchangeId
  split
  · exact exIdOf_ne_nil _
  · exact hlIdOf_ne_nil _

theorem answered_answeredBy {o : Order} {r : OrderResult} (h : r.Answers o) :
    o.Answered (o.answeredBy o.signal.exchange r) := by
  unfold OrderResult.Answers at h
  unfold Order.answeredBy
  cases hr : r.success with
  | true =>
    rw [hr, if_pos rfl] at h
    simp only [ite_true]
    split
    · exact ⟨rfl, rfl, .inl h⟩
    · exact ⟨rfl, rfl, .inl h⟩
  | false =>
    rw [hr, if_neg (by decide)] at h
    exact ⟨rfl, rfl, .inr ⟨CStr.ext h, rfl⟩⟩

theorem signal_answeredBy (o : Order) (exch : Exchange) (r : OrderResult) : (o.answeredBy exch r).signal = o.signal := by
  unfold Order.answeredBy
  simp only
  split
  · split <;> rfl
  · rfl

theorem filledBy_fields (o : Order) (f : Fill) : (o.filledBy f).orderId = o.orderId ∧
    (o.filledBy f).signal = o.signal ∧ (o.filledBy f).exchangeOrderId = o.exchangeOrderId ∧
      (o.filledBy f).status = .FILLED := by
  unfold Order.filledBy
  split <;> exact ⟨rfl, rfl, rfl, rfl⟩

theorem SingleView.Life.found (h : v.Life id) {f : Fill} {order : Order} (hl : v.order = some order)
    (hx : order.exchangeOrderId = f.exchangeOrderId) (hf : f.exchangeOrderId.bytes ≠ []) :
    ∃ o l, v = ⟨[], some order, l ++ [.sendOrder o.signal.exchange o]⟩ ∧ o.Unsent id ∧ o.Answered order ∧
      order.exchangeOrderId.bytes = o.exchangeId ∧ ∀ x ∈ l, ∃ price qty, x = .bookFill id o.signal price qty := by
  have hne : ∀ {o : Order}, o.exchangeOrderId = .empty → o ≠ order := by
    rintro o ho rfl
    rw [← hx, ho] at hf
    exact hf rfl
  cases h with
  | undrawn | called _ _ | storeRefused _ _ | store _ _ => cases hl
  | stored _ hu _ => exact absurd (Option.some.inj hl) (hne hu.exchangeOrderId)
  | storeRejected hu _ _ _ _ => exact absurd (Option.some.inj hl) (hne hu.exchangeOrderId)
  | release hu _ | refused hu _ | waiting hu _ => exact absurd (Option.some.inj hl) (hne hu.exchangeOrderId)
  | @answered o o' l hu ha hb =>
    obtain rfl := Option.some.inj hl
    rcases ha.named with hn | ⟨hn, -⟩
    · exact ⟨o, l, rfl, hu, ha, hn, hb⟩
    · exact absurd rfl (hne hn)

theorem SingleView.Life.tasks_eq (h : v.Life id) {t : SingleTask} (ht : t ∈ v.tasks) : v.tasks = [t] := by
  cases h with
  | undrawn | refused _ _ | answered _ _ _ => cases ht
  | called _ _ | stored _ _ _ | storeRefused _ _ | store _ _ | storeRejected _ _ _ _ _ | release _ _ | waiting _ _ =>
    rw [List.mem_singleton.mp ht]

theorem SingleView.Life.tasks_unsent (h : v.Life id) {t : SingleTask} (ht : t ∈ v.tasks) : t.order.Unsent id := by
  have htasks := h.tasks_eq ht
  cases h with
  | undrawn | refused _ _ | answered _ _ _ => cases htasks
  | called _ hu | stored _ hu _ => rw [← List.singleton_inj.mp htasks]; exact hu
  | storeRefused hu _ | store hu _ | release hu _ | waiting hu _ => rw [← List.singleton_inj.mp htasks]; exact hu
  | storeRejected _ _ hu _ _ => rw [← List.singleton_inj.mp htasks]; exact hu

/-! The view in which a task is -/

theorem SingleView.Life.of_release (h : v.Life id) {o : Order} (ht : .release o ∈ v.tasks) :
    v = ⟨[.release o], some o, []⟩ ∧ o.Unsent id ∧ o.status = .REJECTED := by
  have htasks := h.tasks_eq ht
  cases h with
  | release hu hst => cases List.singleton_inj.mp htasks; exact ⟨rfl, hu, hst⟩
  | called hc _ => rw [List.singleton_inj.mp htasks] at hc; rcases hc with hc | hc <;> cases hc
  | stored hc _ _ => rw [List.singleton_inj.mp htasks] at hc; rcases hc with hc | hc | hc <;> cases hc
  | _ => cases htasks

theorem SingleView.Life.of_send (h : v.Life id) {gw : Exchange} {o : Order} (ht : .send gw o ∈ v.tasks) :
    v = ⟨[.send o.signal.exchange o], some o, []⟩ ∧ gw = o.signal.exchange ∧ o.Unsent id ∧ o.status = .SENT := by
  have htasks := h.tasks_eq ht
  cases h with
  | called hc _ => rw [List.singleton_inj.mp htasks] at hc; rcases hc with hc | hc <;> cases hc
  | stored hc hu hst =>
    obtain rfl := List.singleton_inj.mp htasks
    rcases hc with hc | hc | hc
    · cases hc
    · cases hc
    · have hgw : gw = o.signal.exchange := (SingleTask.send.inj hc).1
      exact ⟨by rw [hgw]; rfl, hgw, hu, hst⟩
  | _ => cases htasks

theorem SingleView.Life.of_result (h : v.Life id) {o : Order} (ht : .result o ∈ v.tasks) :
    v = ⟨[.result o], some o, [.sendOrder o.signal.exchange o]⟩ ∧ o.Unsent id ∧ o.status = .SENT := by
  have htasks := h.tasks_eq ht
  cases h with
  | waiting hu hst => cases List.singleton_inj.mp htasks; exact ⟨rfl, hu, hst⟩
  | called hc _ => rw [List.singleton_inj.mp htasks] at hc; rcases hc with hc | hc <;> cases hc
  | stored hc _ _ => rw [List.singleton_inj.mp htasks] at hc; rcases hc with hc | hc | hc <;> cases hc
  | _ => cases htasks

theorem SingleView.Life.step (h : v.Life id) (hs : SingleStep m id v e v') (he : e.Honest)
    (hnew : storedOrderId m.arb.uuid.orderCounter = id → v = ⟨[], none, []⟩) : v'.Life id := by
  cases hs with
  | other _ => exact h
  | enter ha _ hid =>
    obtain rfl := hnew hid
    exact .called (.inl rfl) ⟨hid, rfl, ha.quantity⟩
  | @move t t' answers r now ht hm =>
    have hnext : ∀ {t₀ : SingleTask}, t ∈ [t₀] → [t₀].erase t = [] := by
      intro t₀ h₀
      rw [List.mem_singleton.mp h₀, List.erase_cons_head]
    cases h with
    | undrawn | refused _ _ | answered _ _ _ => cases ht
    | @called t₀ h₀ hu =>
      -- the call has not stored its order yet
      simp only [hnext ht]
      obtain rfl := List.mem_singleton.mp ht
      cases hm with
      | checked o => exact .called (.inr rfl) hu
      | refused reason _ => exact .storeRefused ⟨hu.orderId, hu.exchangeOrderId, hu.quantity⟩ rfl
      | reserved o now => exact .store ⟨hu.orderId, hu.exchangeOrderId, hu.quantity⟩ rfl
      | registered o | found o | missing o => rcases h₀ with h₀ | h₀ <;> cases h₀
    | @stored t₀ h₀ hu hst =>
      simp only [hnext ht]
      obtain rfl := List.mem_singleton.mp ht
      cases hm with
      | checked o | reserved o now => rcases h₀ with h₀ | h₀ | h₀ <;> cases h₀
      | refused reason hc => rcases hc with hc | hc <;> rw [hc] at h₀ <;> rcases h₀ with h₀ | h₀ | h₀ <;> cases h₀
      | registered o => exact .stored (.inr (.inl rfl)) hu hst
      | found o => exact .stored (.inr (.inr rfl)) hu hst
      | missing o => exact .storeRejected hu hst ⟨hu.orderId, hu.exchangeOrderId, hu.quantity⟩ rfl rfl
    | storeRefused _ _ | store _ _ | storeRejected _ _ _ _ _ | release _ _ | waiting _ _ =>
      obtain rfl := List.mem_singleton.mp ht
      cases hm with
      | refused reason hc => rcases hc with hc | hc <;> cases hc
  | @store t o next answers r now ht hm =>
    cases h with
    | undrawn | refused _ _ | answered _ _ _ => cases ht
    | @called t₀ h₀ hu =>
      obtain rfl := List.mem_singleton.mp ht
      cases hm <;> rcases h₀ with h₀ | h₀ <;> cases h₀
    | @storeRefused o₀ reason hu hst =>
      obtain rfl := List.mem_singleton.mp ht
      cases hm
      simp only [List.erase_cons_head]
      exact .refused hu hst
    | @store o₀ hu hst =>
      obtain rfl := List.mem_singleton.mp ht
      cases hm
      simp only [List.erase_cons_head]
      exact .stored (.inl rfl) hu hst
    | @storeRejected o₁ o₂ _ _ hu hst _ =>
      obtain rfl := List.mem_singleton.mp ht
      cases hm
      simp only [List.erase_cons_head]
      exact .release hu hst
    | @stored t₀ h₀ hu hst =>
      obtain rfl := List.mem_singleton.mp ht
      cases hm <;> rcases h₀ with h₀ | h₀ | h₀ <;> cases h₀
    | release _ _ | waiting _ _ =>
      obtain rfl := List.mem_singleton.mp ht
      cases hm
  | @release o answers r now ht =>
    obtain ⟨rfl, hu, hst⟩ := h.of_release ht
    simp only [List.erase_cons_head]
    exact .refused hu hst
  | @send gw o answers r now ht =>
    obtain ⟨rfl, rfl, hu, hst⟩ := h.of_send ht
    simp only [List.erase_cons_head]
    exact .waiting hu hst
  | resultIdle ht hn =>
    obtain ⟨rfl, -, -⟩ := h.of_result ht
    cases hn
  | @result o answers r now order ht hl =>
    obtain ⟨rfl, hu, hst⟩ := h.of_result ht
    obtain rfl := Option.some.inj hl
    simp only [List.erase_cons_head]
    exact .answered (l := []) hu (answered_answeredBy he) (fun x hx => by cases hx)
  | @rejected f order hf hl hr =>
    obtain ⟨o, l, rfl, hu, ha, hn, hb⟩ := h.found hl (OrderManager.lookup_of_findOrder hf).2 he
    exact .answered hu ⟨ha.orderId, ha.signal, .inl hn⟩ hb
  | @filled f order hf hl hr =>
    obtain ⟨o, l, rfl, hu, ha, hn, hb⟩ := h.found hl (OrderManager.lookup_of_findOrder hf).2 he
    obtain ⟨h₁, h₂, h₃, -⟩ := filledBy_fields order f
    refine .answered (l := _ :: l) hu ⟨h₁.trans ha.orderId, h₂.trans ha.signal, .inl (h₃ ▸ hn)⟩ ?_
    intro x hx
    rcases List.mem_cons.mp hx with rfl | hx
    · exact ⟨_, _, by rw [ha.signal]⟩
    · exact hb x hx

end

end OrderExecution
