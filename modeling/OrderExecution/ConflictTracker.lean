import OrderExecution.MarketSteps
import OrderExecution.SingleCalls

/-!
# The conflict register and the order store

An order in flight is recorded twice, in `orders_` and in the register of the
conflict resolver. `process_single_leg` registers it before its exchange id is
known, and a reject message and a missing gateway change `orders_` alone.
-/

namespace OrderExecution

open ConflictResolver SignalReceiver Machine

namespace OrderManager

/-- Every registered order is active in the register exactly while it is in
flight in `orders_`, and has the same exchange id in both. -/
def TrackerAgrees (m : OrderManager) : Prop :=
  ∀ y, ∀ e ∈ m.resolver.entriesOf y, ∃ o, m.orders.lookup e.orderId = some o ∧
    (isActive e.status = true ↔ isInFlight o.status = true) ∧ e.exchangeOrderId = o.exchangeOrderId

/-- A call that changes both records, or neither: an order that passes the checks
has an id of its own and a gateway, a send result brings no exchange id and does
not revive an order, and no reject finds an order in flight. -/
def Informs (m : OrderManager) : CallEvent → Prop
  | .process s receiveNs _ _ answers =>
    ((validate m.signalConfig s receiveNs).valid = true →
        m.orders.lookup (storedOrderId m.arb.uuid.orderCounter) = none) ∧
      (m.Passes s receiveNs answers → m.arb.hasGateway s.exchange = true)
  | .sendResult _ o r => r.exchangeOrderId.isEmpty = true ∧
      (r.success = true → ∀ order ∈ m.orders.lookup o.orderId, isInFlight order.status = true)
  | .message f _ => f.isReject = true → ∀ x ∈ m.findOrder f.exchangeOrderId, isInFlight x.2.status = false

instance (m : OrderManager) : ∀ e, Decidable (m.Informs e)
  | .process s receiveNs _ _ answers => inferInstanceAs (Decidable (((validate m.signalConfig s receiveNs).valid = true →
        m.orders.lookup (storedOrderId m.arb.uuid.orderCounter) = none) ∧
      (m.Passes s receiveNs answers → m.arb.hasGateway s.exchange = true)))
  | .sendResult _ o r => inferInstanceAs (Decidable (r.exchangeOrderId.isEmpty = true ∧
      (r.success = true → ∀ order ∈ m.orders.lookup o.orderId, isInFlight order.status = true)))
  | .message f _ => inferInstanceAs (Decidable (f.isReject = true →
      ∀ x ∈ m.findOrder f.exchangeOrderId, isInFlight x.2.status = false))

end OrderManager

/-- The register as it stands between calls: each order has one entry, under its
symbol and without an exchange id. -/
structure ConflictResolver.Tracks (r : ConflictResolver) (os : Orders) : Prop where
  unnamed : r.Unnamed
  distinct : ∀ y, ((r.entriesOf y).map (·.orderId)).Nodup
  known : ∀ y, ∀ e ∈ r.entriesOf y, ∃ o, os.lookup e.orderId = some o ∧ o.signal.symbol = y ∧
    isActive e.status = isInFlight o.status ∧ e.exchangeOrderId = o.exchangeOrderId

namespace ConflictResolver

section
variable {r r' : ConflictResolver} {os : Orders} {id : CStr 15} {o o' : Order}

theorem tracks_init (strategy : ConflictStrategy) (os : Orders) : Tracks { strategy := strategy } os where
  unnamed := unnamed_init strategy
  distinct := fun _ => List.nodup_nil
  known := fun _ _ he => absurd he List.not_mem_nil

theorem Tracks.of_entries_eq (h : Tracks r os) (he : ∀ y, r'.entriesOf y = r.entriesOf y) : Tracks r' os where
  unnamed := fun y e hm => h.unnamed y e (he y ▸ hm)
  distinct := fun y => he y ▸ h.distinct y
  known := fun y e hm => h.known y e (he y ▸ hm)

theorem Tracks.orderId_ne (h : Tracks r os) (hnone : os.lookup id = none) {y : CStr 15} {e : InFlightEntry}
    (he : e ∈ r.entriesOf y) : e.orderId ≠ id := by
  intro hid
  obtain ⟨o, ho, -⟩ := h.known y e he
  rw [hid, hnone] at ho
  cases ho

theorem Tracks.add (h : Tracks r os) (hnone : os.lookup id = none) (o : Order) : Tracks r (os.insert id o) where
  unnamed := h.unnamed
  distinct := h.distinct
  known := by
    intro y e he
    rw [AList.lookup_insert_ne (h.orderId_ne hnone he)]
    exact h.known y e he

theorem Tracks.register (h : Tracks r os) (hnone : os.lookup o.orderId = none)
    (hname : o.exchangeOrderId.isEmpty = true) :
    Tracks (r.registerOrder o) (os.insert o.orderId o) where
  unnamed := h.unnamed.registerOrder hname
  distinct := by
    intro y
    rw [entriesOf_registerOrder]
    split
    · rw [List.map_append, List.nodup_append']
      refine ⟨h.distinct y, List.nodup_singleton _, ?_⟩
      intro i hi hi'
      obtain ⟨e, he, rfl⟩ := List.mem_map.mp hi
      exact h.orderId_ne hnone he (List.mem_singleton.mp hi')
    · exact h.distinct y
  known := by
    intro y e he
    have old : e ∈ r.entriesOf y → ∃ o', (os.insert o.orderId o).lookup e.orderId = some o' ∧ o'.signal.symbol = y ∧
        isActive e.status = isInFlight o'.status ∧ e.exchangeOrderId = o'.exchangeOrderId := by
      intro he
      rw [AList.lookup_insert_ne (h.orderId_ne hnone he)]
      exact h.known y e he
    rw [entriesOf_registerOrder] at he
    split at he
    · next hy =>
      rcases List.mem_append.mp he with he | he
      · exact old he
      · obtain rfl := List.mem_singleton.mp he
        refine ⟨o, AList.lookup_insert .., hy.symm, ?_, rfl⟩
        rw [← isActive_eq]
        rfl
    · exact old he

theorem Tracks.named (h : Tracks r os) {y : CStr 15} {e : InFlightEntry} (he : e ∈ r.entriesOf y)
    (hx : e.exchangeOrderId = o.exchangeOrderId)
    (hname : o'.exchangeOrderId = o.exchangeOrderId ∨ o'.exchangeOrderId.isEmpty = true) :
    e.exchangeOrderId = o'.exchangeOrderId := by
  rcases hname with hn | hn
  · rw [hn, hx]
  · have hempty := h.unnamed y e he
    unfold CStr.isEmpty at hempty hn
    exact CStr.ext ((List.isEmpty_iff.mp hempty).trans (List.isEmpty_iff.mp hn).symm)

theorem Tracks.replace (h : Tracks r os) (ho : os.lookup id = some o) (hsymbol : o'.signal.symbol = o.signal.symbol)
    (hname : o'.exchangeOrderId = o.exchangeOrderId ∨ o'.exchangeOrderId.isEmpty = true)
    (hstatus : isInFlight o'.status = isInFlight o.status) :
    Tracks r (os.insert id o') where
  unnamed := h.unnamed
  distinct := h.distinct
  known := by
    intro y e he
    obtain ⟨o₁, ho₁, hy, hs, hx⟩ := h.known y e he
    by_cases hid : e.orderId = id
    · rw [hid, ho, Option.some.injEq] at ho₁
      subst ho₁
      rw [hid]
      exact ⟨o', AList.lookup_insert .., hsymbol.trans hy, hs.trans hstatus.symm, h.named he hx hname⟩
    · rw [AList.lookup_insert_ne hid]
      exact ⟨o₁, ho₁, hy, hs, hx⟩

theorem Tracks.update (h : Tracks r os) (ho : os.lookup id = some o) (hsymbol : o'.signal.symbol = o.signal.symbol)
    (hname : o'.exchangeOrderId = o.exchangeOrderId ∨ o'.exchangeOrderId.isEmpty = true) {status : OrderStatus}
    (hstatus : isActive status = isInFlight o'.status) : Tracks (r.updateStatus id status) (os.insert id o') where
  unnamed := h.unnamed.updateStatus id status
  distinct := by
    intro y
    rw [orderIds_updateStatus]
    exact h.distinct y
  known := by
    intro y e he
    have hone : ∀ y, ∀ e ∈ r.entriesOf y, e.orderId = id → y = o.signal.symbol := by
      intro y e he hid
      obtain ⟨o₁, ho₁, hy, -⟩ := h.known y e he
      rw [hid, ho, Option.some.injEq] at ho₁
      rw [← hy, ← ho₁]
    by_cases hid : e.orderId = id
    · have hst : e.status = status := status_of_mem_updateStatus hone h.distinct he hid
      -- the entry before the update has the same ids
      have hold : ∃ e₀ ∈ r.entriesOf y, e₀.orderId = id ∧ e₀.exchangeOrderId = e.exchangeOrderId := by
        rcases mem_updateStatus he with he₀ | ⟨e₀, he₀, -, rfl⟩
        · exact ⟨e, he₀, hid, rfl⟩
        · exact ⟨e₀, he₀, hid, rfl⟩
      obtain ⟨e₀, he₀, hid₀, hx₀⟩ := hold
      obtain ⟨o₁, ho₁, hy, -, hx⟩ := h.known y e₀ he₀
      rw [hid₀, ho, Option.some.injEq] at ho₁
      subst ho₁
      rw [hid, hst]
      exact ⟨o', AList.lookup_insert .., hsymbol.trans hy, hstatus, hx₀.symm.trans (h.named he₀ hx hname)⟩
    · rw [AList.lookup_insert_ne hid]
      rcases mem_updateStatus he with he₀ | ⟨e₀, he₀, hid₀, rfl⟩
      · exact h.known y e he₀
      · exact absurd hid₀ hid

end

end ConflictResolver

namespace OrderManager

section
variable {m m' : OrderManager}

theorem agrees_of_tracks (h : m.resolver.Tracks m.orders) : m.TrackerAgrees := by
  intro y e he
  obtain ⟨o, ho, -, hs, hx⟩ := h.known y e he
  exact ⟨o, ho, by rw [hs], hx⟩

theorem tracks_process {s : Signal} {receiveNs now sentNow : Int} {answers : List (Option CancelResult)}
    (h : m.resolver.Tracks m.orders) (hi : m.Informs (.process s receiveNs now sentNow answers)) :
    (m.processCall s receiveNs now sentNow answers).resolver.Tracks
      (m.processCall s receiveNs now sentNow answers).orders := by
  obtain ⟨hnone, hgateway⟩ := hi
  have hchecked : (m.resolver.check m.arb.hasGateway s answers).1.Tracks m.orders :=
    h.of_entries_eq (h.unnamed.entriesOf_check m.arb.hasGateway s answers)
  have hp := m.processCall_spec s receiveNs now sentNow answers
  generalize m.processCall s receiveNs now sentNow answers = m' at hp
  cases hp with
  | invalid r hv => exact h
  | refused reason r hv => exact hchecked.add (hnone hv) _
  | stranded r hpass hg => rw [hgateway hpass] at hg; cases hg
  | sent r hpass hg =>
    have hname : (m.sentOrder s now sentNow).exchangeOrderId.isEmpty = true := rfl
    exact hchecked.register (o := m.sentOrder s now sentNow) (hnone hpass.valid) hname

theorem answeredBy_name (o : Order) (exch : Exchange) (r : OrderResult) :
    (o.answeredBy exch r).exchangeOrderId = r.exchangeOrderId := by
  unfold Order.answeredBy
  simp only
  split
  · split <;> rfl
  · rfl

theorem isInFlight_answeredBy (o : Order) (exch : Exchange) (r : OrderResult) :
    isInFlight (o.answeredBy exch r).status = r.success := by
  unfold Order.answeredBy
  cases r.success with
  | false => rfl
  | true =>
    simp only [ite_true]
    cases getExchangeType exch <;> cases r.hasTxHash <;> rfl

theorem tracks_sendResult {gw : Exchange} {o : Order} {r : OrderResult} (h : m.resolver.Tracks m.orders)
    (hi : m.Informs (.sendResult gw o r)) :
    (m.resultCall gw o r).resolver.Tracks (m.resultCall gw o r).orders := by
  obtain ⟨hname, hlive⟩ := hi
  unfold resultCall sendResult
  have hlook : ((m.drop (.send gw o)).record (.sendOrder gw o)).orders.lookup o.orderId = m.orders.lookup o.orderId :=
    rfl
  rw [hlook]
  cases hl : m.orders.lookup o.orderId with
  | none => exact h
  | some order =>
    have hflight := isInFlight_answeredBy order o.signal.exchange r
    have hsym : (order.answeredBy o.signal.exchange r).signal.symbol = order.signal.symbol := by
      rw [signal_answeredBy]
    have hempty : (order.answeredBy o.signal.exchange r).exchangeOrderId.isEmpty = true := by
      rw [answeredBy_name]; exact hname
    simp only
    split
    · next hr =>
      refine h.replace hl hsym (.inr hempty) ?_
      rw [hflight, hr, hlive hr order hl]
    · next hr =>
      refine h.update hl hsym (.inr hempty) ?_
      rw [hflight, Bool.eq_false_iff.mpr hr]
      rfl

theorem tracks_message {f : Fill} {now : Int} (h : m.resolver.Tracks m.orders) (hi : m.Informs (.message f now)) :
    (m.messageCall f now).resolver.Tracks (m.messageCall f now).orders := by
  have hfind : (m.onFill f now).findOrder f.exchangeOrderId = m.findOrder f.exchangeOrderId := rfl
  unfold messageCall finishFill
  rw [hfind]
  cases hf : m.findOrder f.exchangeOrderId with
  | none => exact h
  | some x =>
    obtain ⟨id, order⟩ := x
    have hl := (lookup_of_findOrder hf).1
    simp only
    split
    · next hr =>
      exact h.replace hl rfl (.inl rfl) (hi hr _ hf).symm
    · obtain ⟨-, hsignal, hname, hstatus⟩ := filledBy_fields order f
      refine h.update hl (by rw [hsignal]) (.inl hname) ?_
      rw [hstatus]
      rfl

theorem tracks_call {e : CallEvent} (h : m.resolver.Tracks m.orders) (hi : m.Informs e) (hs : m.call e = some m') :
    m'.resolver.Tracks m'.orders := by
  cases e with
  | process s receiveNs now sentNow answers =>
    simp only [call] at hs
    split at hs
    · cases hs
    · obtain rfl := Option.some.inj hs
      exact tracks_process h hi
  | sendResult gw o r =>
    simp only [call] at hs
    split at hs
    · obtain rfl := Option.some.inj hs
      exact tracks_sendResult h hi
    · cases hs
  | message f now =>
    obtain rfl := Option.some.inj hs
    exact tracks_message h hi

end

end OrderManager

open OrderManager

/-- In every run whose calls change both records or neither the two records agree
after every call. -/
theorem tracker_agrees (signalConfig : SignalConfig) (portfolioConfig : PortfolioConfig) (arbConfig : ArbConfig)
    (hasGateway : Exchange → Bool) (uuid : UuidGenerator) (es : List CallEvent)
    (h : Along call Informs (fresh signalConfig portfolioConfig arbConfig hasGateway uuid) es) :
    Always call TrackerAgrees (fresh signalConfig portfolioConfig arbConfig hasGateway uuid) es := by
  have hinv := inv_always (I := fun m => m.resolver.Tracks m.orders) (fun _ _ _ hm hi hs => tracks_call hm hi hs) h
    (tracks_init .CANCEL_AND_REPLACE ∅)
  exact hinv.mono fun m hm => agrees_of_tracks hm

namespace Sample

def failing : List CallEvent :=
  [.process single 1 1 1 [], .sendResult .BINANCE singleSent { success := false, status := .REJECTED }]

theorem tracker_agrees_failing : Always call TrackerAgrees (fresh {} {} {} (fun _ => true) {}) failing :=
  tracker_agrees {} {} {} (fun _ => true) {} failing (by decide +kernel)

def singleReject : Fill := { exchangeOrderId := taken.exchangeOrderId, filledQty := 0, fillPrice := 0 }

def rejecting : List CallEvent :=
  [.process single 1 1 1 [], .sendResult .BINANCE singleSent taken, .message singleReject 2]

/-- The rejected order stays active in the register, where it never had an
exchange id. -/
theorem not_tracker_agrees : ¬ ∀ (signalConfig : SignalConfig) (portfolioConfig : PortfolioConfig)
    (arbConfig : ArbConfig) (hasGateway : Exchange → Bool) (es : List CallEvent),
    Always call TrackerAgrees (fresh signalConfig portfolioConfig arbConfig hasGateway {}) es := by
  intro h
  let m₀ := fresh {} {} {} (fun _ => true) {}
  let m := (run call m₀ rejecting).getD m₀
  have hrun : run call m₀ rejecting = some m := by
    obtain ⟨m', hm'⟩ := Option.isSome_iff_exists.mp (show (run call m₀ rejecting).isSome by decide +kernel)
    simp only [m, hm', Option.getD_some]
  have hagrees : m.TrackerAgrees := always_iff.mp (h {} {} {} (fun _ => true) rejecting) _ [] m
    (List.append_nil _).symm hrun
  obtain ⟨o, ho, hs, hx⟩ := hagrees single.symbol singleSent.entry (by decide +kernel)
  have hstatus : (m.orders.lookup singleSent.entry.orderId).map (·.status) = some .REJECTED := by decide +kernel
  rw [ho, Option.map_some, Option.some.injEq] at hstatus
  rw [hstatus] at hs
  exact absurd (hs.mp (by decide)) (by decide)

end Sample

end OrderExecution
