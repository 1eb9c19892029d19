import OrderExecution.Quiescence
import OrderExecution.SingleFill

/-!
# The history of a single-leg order

An order in `orders_` only goes forward: it is stored as `SENT` or `REJECTED`,
is taken or refused by its exchange, and then filled or rejected. A record that
is terminal is never written again, so what `wait_for_completion` waits for is
final.
-/

namespace OrderExecution

open ArbCoordinator Machine SignalReceiver

/-- The status of an order that its exchange took. -/
def Order.takenStatus (o : Order) : OrderStatus :=
  if getExchangeType o.signal.exchange = .DEX then .TX_PENDING else .ACKNOWLEDGED

/-- What one step can make of the record of an order. -/
inductive Order.Next : Option Order → Option Order → Prop where
  | same (r) : Next r r
  | stored {o : Order} : o.status = .SENT ∨ o.status = .REJECTED → Next none (some o)
  | refused {o o' : Order} : o.status = .SENT → o'.orderId = o.orderId → o'.signal = o.signal →
      o'.status = .REJECTED → Next (some o) (some o')
  | taken {o o' : Order} : o.status = .SENT → o'.orderId = o.orderId → o'.signal = o.signal →
      o'.status = o.takenStatus → Next (some o) (some o')
  | closed {o o' : Order} : o.status = o.takenStatus → o'.orderId = o.orderId → o'.signal = o.signal →
      o'.status = .FILLED ∨ o'.status = .REJECTED → Next (some o) (some o')

theorem takenStatus_not_terminal (o : Order) : isTerminal o.takenStatus = false := by
  unfold Order.takenStatus
  split <;> rfl

theorem Order.Next.terminal {o : Order} {r : Option Order} (h : Order.Next (some o) r)
    (ht : isTerminal o.status = true) : r = some o := by
  cases h with
  | same => rfl
  | refused hs | taken hs => rw [hs] at ht; cases ht
  | closed hs => rw [hs, takenStatus_not_terminal] at ht; cases ht

/-- The record of an order before its send result, and after it was taken. -/
inductive Market.Stage (m : Market) (id : CStr 15) (order : Order) : Prop where
  | unnamed : order.exchangeOrderId = .empty → order.status = .SENT ∨ order.status = .REJECTED → Stage m id order
  | named {o : Order} : m.om.Sent o → o.orderId = id → order.exchangeOrderId.bytes = o.exchangeId →
      order.status = order.takenStatus ∨ (order.status = .FILLED ∨ order.status = .REJECTED) ∧ Market.Over o m →
      Stage m id order

namespace Market

structure Staged (m : Market) : Prop where
  orderly : m.Orderly
  messaged : ∀ o, MessagedOnce o m
  stage : ∀ id order, m.om.orders.lookup id = some order → m.Stage id order

theorem staged_init (signalConfig : SignalConfig) (portfolioConfig : PortfolioConfig) (arbConfig : ArbConfig)
    (hasGateway : Exchange → Bool) : (init signalConfig portfolioConfig arbConfig hasGateway).Staged where
  orderly := orderly_init ..
  messaged := fun _ hid => by cases hid
  stage := fun _ _ hl => by cases hl

section
variable {m m' : Market} {me : MarketEvent} {id : CStr 15}

theorem Stage.step {order : Order} (h : m.Stage id order) (ho : m.Orderly) (hs : m.step me = some m') :
    m'.Stage id order := by
  cases h with
  | unnamed he hst => exact .unnamed he hst
  | named hsent hid hx hst =>
    exact .named (Sent.step hs hsent) hid hx (hst.imp_right fun ⟨ht, hover⟩ => ⟨ht, hover.step ho hs⟩)

theorem takenStatus_congr {o o' : Order} (h : o'.signal = o.signal) : o'.takenStatus = o.takenStatus := by
  unfold Order.takenStatus
  rw [h]

theorem answeredBy_fields (o : Order) (exch : Exchange) (r : OrderResult) :
    (o.answeredBy exch r).orderId = o.orderId ∧ (o.answeredBy exch r).exchangeOrderId = r.exchangeOrderId := by
  unfold Order.answeredBy
  simp only
  split
  · split <;> exact ⟨rfl, rfl⟩
  · exact ⟨rfl, rfl⟩

theorem status_answeredBy (o : Order) (r : OrderResult) : (o.answeredBy o.signal.exchange r).status =
    if r.success then o.takenStatus else .REJECTED := by
  unfold Order.answeredBy Order.takenStatus
  simp only
  split
  · split <;> rfl
  · rfl

/-- What a task stores, and over which record. -/
theorem stored_of_life {v : SingleView} (h : v.Life id) {t : SingleTask} {o : Order} {next : Option SingleTask}
    (ht : t ∈ v.tasks) (hs : t.Stores o next) : o.Unsent id ∧
      ((v.order = none ∧ (o.status = .SENT ∨ o.status = .REJECTED)) ∨
        ∃ o', v.order = some o' ∧ o'.Unsent id ∧ o'.status = .SENT ∧ o.signal = o'.signal ∧ o.status = .REJECTED) := by
  have htasks := h.tasks_eq ht
  have hcalled : ∀ {t' : SingleTask}, t = t' → ¬ (t' = .check t'.order ∨ t' = .reserve t'.order) := by
    rintro t' rfl hc
    cases hs <;> rcases hc with hc | hc <;> cases hc
  have hstored : ∀ {t' : SingleTask}, t = t' →
      ¬ (t' = .register t'.order ∨ t' = .lookup t'.order ∨ t' = .send t'.order.signal.exchange t'.order) := by
    rintro t' rfl hc
    cases hs <;> rcases hc with hc | hc | hc <;> cases hc
  cases h with
  | undrawn | refused _ _ | answered _ _ _ => cases ht
  | called hc _ => exact absurd hc (hcalled (List.singleton_inj.mp htasks).symm)
  | stored hc _ _ => exact absurd hc (hstored (List.singleton_inj.mp htasks).symm)
  | storeRefused hu hst =>
    cases List.singleton_inj.mp htasks
    cases hs
    exact ⟨hu, .inl ⟨rfl, .inr hst⟩⟩
  | store hu hst =>
    cases List.singleton_inj.mp htasks
    cases hs
    exact ⟨hu, .inl ⟨rfl, .inl hst⟩⟩
  | storeRejected hu hst hu' hst' hsig =>
    cases List.singleton_inj.mp htasks
    cases hs
    exact ⟨hu', .inr ⟨_, rfl, hu, hst, hsig, hst'⟩⟩
  | release _ _ | waiting _ _ =>
    cases List.singleton_inj.mp htasks
    cases hs

/-- The record that a callback finds was taken, and is closed by it. -/
theorem Staged.finish (h : m.Staged) {o order order' : Order} {f : Fill}
    (hs : m.step (.finish o f) = some m') (hp : (o, f) ∈ m.pending) (hid : o.orderId = id) (hsent : m.om.Sent o)
    (hl : m.om.orders.lookup id = some order) (hx : order.exchangeOrderId = f.exchangeOrderId)
    (hsame : order'.orderId = order.orderId ∧ order'.signal = order.signal ∧
      order'.exchangeOrderId = order.exchangeOrderId)
    (hst : order'.status = .FILLED ∨ order'.status = .REJECTED) :
    Order.Next (some order) (some order') ∧ m'.Stage id order' := by
  have hfx : order.exchangeOrderId.bytes = o.exchangeId := by rw [hx]; exact (h.orderly.pending _ hp).1
  have hopen : order.status = order.takenStatus := by
    cases h.stage id order hl with
    | unnamed he _ =>
      rw [he] at hfx
      exact absurd hfx.symm o.exchangeId_ne_nil
    | @named o₁ hsent₁ hid₁ _ hst₁ =>
      obtain rfl := h.orderly.sent_inj hsent hsent₁ (hid.trans hid₁.symm)
      rcases hst₁ with hst₁ | ⟨-, hover⟩
      · exact hst₁
      · have hnone : (o, f) ∈ m.callbacks o := List.mem_filter.mpr ⟨hp, by simp⟩
        rw [hover.callbacks] at hnone
        cases hnone
  refine ⟨.closed hopen hsame.1 hsame.2.1 hst, .named (Sent.step hs hsent) hid ?_ (.inr ⟨hst, ?_⟩)⟩
  · rw [hsame.2.2]; exact hfx
  · exact (h.messaged o).over h.orderly hsent hs

/-- A step moves the record of an order forward, and leaves it in a stage. -/
theorem Staged.record_step (h : m.Staged) (hs : m.step me = some m') (id : CStr 15) :
    Order.Next (m.om.orders.lookup id) (m'.om.orders.lookup id) ∧
      ∀ order, m'.om.orders.lookup id = some order → m'.Stage id order := by
  have hkeep : m'.om.orders.lookup id = m.om.orders.lookup id →
      Order.Next (m.om.orders.lookup id) (m'.om.orders.lookup id) ∧
        ∀ order, m'.om.orders.lookup id = some order → m'.Stage id order := by
    intro he
    rw [he]
    exact ⟨.same _, fun order hl => (h.stage id order hl).step h.orderly hs⟩
  rcases single_step hs id with hv | ⟨e, he, hstep⟩
  · exact hkeep (congrArg SingleView.order hv)
  · have hlife := h.orderly.life id
    have hbefore : (m.om.single id).order = m.om.orders.lookup id := rfl
    have hafter : (m'.om.single id).order = m'.om.orders.lookup id := rfl
    rw [← hbefore] at hkeep ⊢
    rw [← hafter] at hkeep ⊢
    generalize hv' : m'.om.single id = v' at hstep hkeep
    cases hstep with
    | other _ | enter _ _ _ | move _ _ | release _ | send _ | resultIdle _ _ => exact hkeep rfl
    | store ht hst =>
      obtain ⟨hu, hcase⟩ := stored_of_life hlife ht hst
      rcases hcase with ⟨hnone, hstatus⟩ | ⟨o', hl, hu', hst', hsig, hrej⟩
      · rw [hnone]
        exact ⟨.stored hstatus, fun order ho => Option.some.inj ho ▸ .unnamed hu.exchangeOrderId hstatus⟩
      · rw [hl]
        exact ⟨.refused hst' (hu.orderId.trans hu'.orderId.symm) hsig hrej,
          fun order ho => Option.some.inj ho ▸ .unnamed hu.exchangeOrderId (.inr hrej)⟩
    | @result o answers r now order ht hl =>
      obtain ⟨hv, hu, hst⟩ := hlife.of_result ht
      obtain rfl : o = order := by
        rw [hv] at hl
        exact Option.some.inj hl
      have hanswers : r.Answers o := h.orderly.honest hs he
      obtain ⟨hid, hx⟩ := answeredBy_fields o o.signal.exchange r
      have hsig := signal_answeredBy o o.signal.exchange r
      have hstatus := status_answeredBy o r
      rw [hl]
      unfold OrderResult.Answers at hanswers
      cases hr : r.success with
      | true =>
        rw [hr, if_pos rfl] at hanswers hstatus
        refine ⟨.taken hst hid hsig hstatus, fun order' ho => ?_⟩
        obtain rfl := Option.some.inj ho
        have hsent : m.om.Sent o := OrderManager.sent_single.mpr (by rw [hu.orderId, hv]; exact List.mem_singleton_self _)
        refine .named (Sent.step hs hsent) hu.orderId (by rw [hx]; exact hanswers) (.inl ?_)
        rw [hstatus, takenStatus_congr hsig]
      | false =>
        rw [hr, if_neg (by decide)] at hanswers hstatus
        refine ⟨.refused hst hid hsig hstatus, fun order' ho => ?_⟩
        obtain rfl := Option.some.inj ho
        exact .unnamed (by rw [hx]; exact CStr.ext hanswers) (.inr hstatus)
    | @rejected f order hf hl hr =>
      obtain ⟨o, rfl, hp, hid, hsent⟩ := finish_of_managerEvent h.orderly hs he hf
      obtain ⟨hnext, hstage⟩ : Order.Next (some order) (some { order with status := .REJECTED }) ∧ _ :=
        h.finish hs hp hid hsent hl (OrderManager.lookup_of_findOrder hf).2 ⟨rfl, rfl, rfl⟩ (.inr rfl)
      rw [hl]
      exact ⟨hnext, fun order' ho => Option.some.inj ho ▸ hstage⟩
    | @filled f order hf hl hr =>
      obtain ⟨o, rfl, hp, hid, hsent⟩ := finish_of_managerEvent h.orderly hs he hf
      obtain ⟨hid', hsig, hx, hst⟩ := filledBy_fields order f
      obtain ⟨hnext, hstage⟩ := h.finish hs hp hid hsent hl (OrderManager.lookup_of_findOrder hf).2
        ⟨hid', hsig, hx⟩ (.inl hst)
      rw [hl]
      exact ⟨hnext, fun order' ho => Option.some.inj ho ▸ hstage⟩

theorem Staged.step (h : m.Staged) (hn : m.om.arb.uuid.orderCounter < 10 ^ 11) (hs : m.step me = some m') :
    m'.Staged where
  orderly := h.orderly.step hn hs
  messaged := fun o => (h.messaged o).step h.orderly hn hs
  stage := fun id => (h.record_step hs id).2

theorem Staged.terminal_run (h : m.Staged) {es : List MarketEvent}
    (hids : Along Market.step (fun m _ => m.om.arb.uuid.orderCounter < 10 ^ 11) m es)
    (hr : run Market.step m es = some m') {o : Order} (hl : m.om.orders.lookup id = some o)
    (ht : isTerminal o.status = true) : m'.om.orders.lookup id = some o :=
  (inv_along (I := fun m => m.Staged ∧ m.om.orders.lookup id = some o)
    (fun t e t' hi hn hs => by
      obtain ⟨hrec, hl⟩ := hi
      have hnext := (hrec.record_step hs id).1
      rw [hl] at hnext
      exact ⟨hrec.step hn hs, hnext.terminal ht⟩) hids ⟨h, hl⟩ hr).2

/-- Without tasks and new signals no task begins. -/
theorem tasks_step (hs : m.step me = some m') (hsig : me.isSignal = false) (ht : m.om.tasks = []) :
    m'.om.tasks = [] := by
  rcases om_step hs with ⟨-, hom⟩ | ⟨e, he, hom⟩
  · rw [hom]; exact ht
  · refine List.eq_nil_iff_forall_not_mem.mpr fun t' ht' => ?_
    rcases OrderManager.task_origin hom ht' with ⟨t, hmem, -⟩ | ⟨receiveNs, now, rfl, -⟩
    · rw [ht] at hmem; cases hmem
    · cases steps_of_step hs with
      | code _ _ _ => cases he; cases hsig
      | _ => cases he

theorem lookup_none_step (hs : m.step me = some m') (ht : m.om.tasks = []) (hl : m.om.orders.lookup id = none) :
    m'.om.orders.lookup id = none := by
  have htasks : (m.om.single id).tasks = [] := by rw [OrderManager.single, ht]; rfl
  have hbefore : (m.om.single id).order = none := hl
  show (m'.om.single id).order = none
  rcases single_step hs id with hv | ⟨e, he, hstep⟩
  · rw [hv]; exact hbefore
  · generalize m'.om.single id = v' at hstep
    cases hstep with
    | other _ | enter _ _ _ | move _ _ | release _ | send _ | resultIdle _ _ => exact hbefore
    | store hm _ | result hm _ => rw [htasks] at hm; cases hm
    | rejected _ hl' _ | filled _ hl' _ => rw [hbefore] at hl'; cases hl'

end

end Market

/-- `all_done` of `wait_for_completion` -/
def OrderManager.allDone (m : OrderManager) : Bool :=
  m.orders.entries.all fun e => isTerminal e.2.status || e.2.status == .UNWINDING

theorem Market.Staged.status_cases {m : Market} (h : m.Staged) {id : CStr 15} {o : Order}
    (hl : m.om.orders.lookup id = some o) :
    (o.status = .SENT ∨ o.status = o.takenStatus) ∨ o.status = .FILLED ∨ o.status = .REJECTED := by
  cases h.stage id o hl with
  | unnamed _ hst => exact hst.imp .inl .inr
  | named _ _ _ hst => exact hst.imp .inr And.left

/-- A terminal order is `FILLED` or `REJECTED`. -/
theorem Market.Staged.closed {m : Market} (h : m.Staged) {id : CStr 15} {o : Order}
    (hl : m.om.orders.lookup id = some o) (ht : isTerminal o.status = true) :
    o.status = .FILLED ∨ o.status = .REJECTED := by
  refine (h.status_cases hl).resolve_left ?_
  rintro (hst | hst)
  · rw [hst] at ht; cases ht
  · rw [hst, takenStatus_not_terminal] at ht; cases ht

theorem Market.Staged.terminal_of_allDone {m : Market} (h : m.Staged) (hd : m.om.allDone = true) {id : CStr 15}
    {o : Order} (hl : m.om.orders.lookup id = some o) : isTerminal o.status = true := by
  have hdone := List.all_eq_true.mp hd ⟨id, o⟩ (AList.mem_lookup_iff.mp hl)
  simp only [Bool.or_eq_true, beq_iff_eq] at hdone
  rcases hdone with ht | hu
  · exact ht
  · have hcases := h.status_cases hl
    rw [hu] at hcases
    rcases hcases with (hst | hst) | hst | hst
    · cases hst
    · unfold Order.takenStatus at hst
      split at hst <;> cases hst
    · cases hst
    · cases hst

section
variable (signalConfig : SignalConfig) (portfolioConfig : PortfolioConfig) (arbConfig : ArbConfig)
  (hasGateway : Exchange → Bool)

theorem staged_run {es : List MarketEvent} {m : Market}
    (hids : Along Market.step (fun m _ => m.om.arb.uuid.orderCounter < 10 ^ 11)
      (.init signalConfig portfolioConfig arbConfig hasGateway) es)
    (hr : run Market.step (.init signalConfig portfolioConfig arbConfig hasGateway) es = some m) : m.Staged :=
  inv_along (fun _ _ _ h hn hs => Market.Staged.step h hn hs) hids (Market.staged_init ..) hr

theorem order_history (es : List MarketEvent)
    (hids : Along Market.step (fun m _ => m.om.arb.uuid.orderCounter < 10 ^ 11)
      (.init signalConfig portfolioConfig arbConfig hasGateway) es) :
    (∀ es₁ e es₂ m₁ m₂, es = es₁ ++ e :: es₂ →
      run Market.step (.init signalConfig portfolioConfig arbConfig hasGateway) es₁ = some m₁ →
        m₁.step e = some m₂ → ∀ id, Order.Next (m₁.om.orders.lookup id) (m₂.om.orders.lookup id)) ∧
    ∀ es₁ es₂ m₁ m₂, es = es₁ ++ es₂ →
      run Market.step (.init signalConfig portfolioConfig arbConfig hasGateway) es₁ = some m₁ →
        run Market.step m₁ es₂ = some m₂ → ∀ id o, m₁.om.orders.lookup id = some o →
          isTerminal o.status = true → m₂.om.orders.lookup id = some o := by
  constructor
  · intro es₁ e es₂ m₁ m₂ he h₁ hs id
    subst he
    exact ((staged_run _ _ _ _ (along_append.mp hids).1 h₁).record_step hs id).1
  · intro es₁ es₂ m₁ m₂ he h₁ h₂ id o hl ht
    subst he
    obtain ⟨hids₁, hids₂⟩ := along_append.mp hids
    exact (staged_run _ _ _ _ hids₁ h₁).terminal_run (hids₂ m₁ h₁) h₂ hl ht

/-- Once no call or dispatch thread is left and `wait_for_completion` finds all
orders done, only a new signal changes `orders_`. -/
theorem completion_is_final {es₁ es₂ : List MarketEvent} {m₁ m₂ : Market}
    (hids : Along Market.step (fun m _ => m.om.arb.uuid.orderCounter < 10 ^ 11)
      (.init signalConfig portfolioConfig arbConfig hasGateway) (es₁ ++ es₂))
    (h₁ : run Market.step (.init signalConfig portfolioConfig arbConfig hasGateway) es₁ = some m₁)
    (htasks : m₁.om.tasks = []) (hdone : m₁.om.allDone = true)
    (h₂ : run Market.step m₁ es₂ = some m₂) (hsig : ∀ e ∈ es₂, e.isSignal = false) :
    ∀ id, m₂.om.orders.lookup id = m₁.om.orders.lookup id := by
  obtain ⟨hids₁, hids₂⟩ := along_append.mp hids
  have hrec := staged_run _ _ _ _ hids₁ h₁
  intro id
  cases hl : m₁.om.orders.lookup id with
  | some o => exact hrec.terminal_run (hids₂ m₁ h₁) h₂ hl (hrec.terminal_of_allDone hdone hl)
  | none =>
    exact (inv_along (C := fun _ e => e.isSignal = false)
      (I := fun m => m.om.tasks = [] ∧ m.om.orders.lookup id = none)
      (fun t e t' hi he hs => ⟨Market.tasks_step hs he hi.1, Market.lookup_none_step hs hi.1 hi.2⟩)
      (along_of_mem (fun e he _ => hsig e he) m₁) ⟨htasks, hl⟩ h₂).2

end

namespace Sample

/-- A single-leg order is sent and filled, and then one leg of a pair comes. -/
def filledBesideLeg : List MarketEvent :=
  sending ++ [task (.result singleSent) taken, .finish singleSent singleFill, .code (.processSignal legged 3 3)]
where
  legged : Signal := { single with signalId := storedSignalId 202, groupId := .copy 15 (lit "G"), hasGroupId := true }

/-- The assembly deadline of the pair. -/
def legExpiring : List MarketEvent := [.code (.arb (.worker (.deadline (.copy 15 (lit "G"))) {} 4))]

end Sample

/-- The order is FILLED, and stays as it is beside the pair's deadline. -/
theorem order_history_filling : ∃ m₁ m₂ o, run Market.step Sample.market Sample.filledBesideLeg = some m₁ ∧
    run Market.step m₁ Sample.legExpiring = some m₂ ∧ o.status = .FILLED ∧
      m₂.om.orders.lookup (storedOrderId 1) = some o := by
  obtain ⟨m₁, h₁, hrest⟩ : ∃ m₁, run Market.step Sample.market Sample.filledBesideLeg = some m₁ ∧
      some (decide ((run Market.step m₁ Sample.legExpiring).isSome ∧
        (m₁.om.orders.lookup (storedOrderId 1)).map (·.status) = some .FILLED)) = some true :=
    Option.bind_eq_some_iff.mp (show (run Market.step Sample.market Sample.filledBesideLeg).bind (fun m₁ =>
      some (decide ((run Market.step m₁ Sample.legExpiring).isSome ∧
        (m₁.om.orders.lookup (storedOrderId 1)).map (·.status) = some .FILLED))) = some true by decide +kernel)
  obtain ⟨hsome, hstatus⟩ := of_decide_eq_true (Option.some.inj hrest)
  obtain ⟨m₂, h₂⟩ := Option.isSome_iff_exists.mp hsome
  obtain ⟨o, ho, hfilled⟩ := Option.map_eq_some_iff.mp hstatus
  exact ⟨m₁, m₂, o, h₁, h₂, hfilled, (order_history {} {} {} (fun _ => true)
    (Sample.filledBesideLeg ++ Sample.legExpiring) (by decide +kernel)).2 _ _ m₁ m₂ rfl h₁ h₂ _ o ho
      (by rw [hfilled]; rfl)⟩

theorem completion_is_final_filling : ∃ m₁ m₂, run Market.step Sample.market Sample.filledBesideLeg = some m₁ ∧
    run Market.step m₁ Sample.legExpiring = some m₂ ∧ ∀ id, m₂.om.orders.lookup id = m₁.om.orders.lookup id := by
  obtain ⟨m₁, h₁, hrest⟩ : ∃ m₁, run Market.step Sample.market Sample.filledBesideLeg = some m₁ ∧
      some (decide (m₁.om.tasks = [] ∧ m₁.om.allDone = true ∧ (run Market.step m₁ Sample.legExpiring).isSome)) =
        some true :=
    Option.bind_eq_some_iff.mp (show (run Market.step Sample.market Sample.filledBesideLeg).bind (fun m₁ =>
      some (decide (m₁.om.tasks = [] ∧ m₁.om.allDone = true ∧ (run Market.step m₁ Sample.legExpiring).isSome))) =
        some true by decide +kernel)
  obtain ⟨htasks, hdone, hsome⟩ := of_decide_eq_true (Option.some.inj hrest)
  obtain ⟨m₂, h₂⟩ := Option.isSome_iff_exists.mp hsome
  exact ⟨m₁, m₂, h₁, h₂, completion_is_final {} {} {} (fun _ => true) (by decide +kernel) h₁ htasks hdone h₂
    (by decide +kernel)⟩

end OrderExecution
