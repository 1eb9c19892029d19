import OrderExecution.Market

/-!
# What a step of the market does

A step of the manager is at most one step of its coordinator, and the
coordinator's part of the market makes the steps of a `World`. In an orderly
market an id belongs to one order, whoever drew it, and every order is in a
stage of its life.
-/

namespace OrderExecution

open ArbCoordinator Machine SignalReceiver

/-! ## The coordinator in the manager -/

namespace OrderManager

section
variable {m m' : OrderManager} {e : ManagerEvent}

@[simp] theorem arb_record (x : ManagerEffect) : (m.record x).arb = m.arb := rfl
@[simp] theorem arb_setOrder (id : CStr 15) (o : Order) : (m.setOrder id o).arb = m.arb := rfl

theorem arb_advance (t : SingleTask) (answers : List (Option CancelResult)) (r : OrderResult) (now : Int) :
    (m.arbEvent (.task t answers r now) = none ∧ (m.advance answers r now t).1.arb = m.arb) ∨
      ∃ a, m.arbEvent (.task t answers r now) = some a ∧ m.arb.step a = some (m.advance answers r now t).1.arb := by
  cases t with
  | reserve o => exact .inr ⟨_, rfl, rfl⟩
  | release o => exact .inr ⟨_, rfl, rfl⟩
  | lookup o => exact .inl ⟨rfl, by simp only [advance]; split <;> rfl⟩
  | result o =>
    simp only [arbEvent, advance, sendResult]
    cases hl : m.orders.lookup o.orderId with
    | none => simp
    | some order =>
      cases hr : r.success with
      | true => simp
      | false => exact .inr ⟨.portfolio (.releaseMargin o.signal), by simp, rfl⟩
  | _ => exact .inl ⟨rfl, rfl⟩

theorem arb_step (h : m.step e = some m') :
    (m.arbEvent e = none ∧ m'.arb = m.arb) ∨ ∃ a, m.arbEvent e = some a ∧ m.arb.step a = some m'.arb := by
  cases e with
  | processSignal s receiveNs now =>
    cases h
    simp only [arbEvent, processSignal]
    cases hv : (validate m.signalConfig s receiveNs).valid with
    | false => simp
    | true =>
      cases hg : s.hasGroupId with
      | true => exact .inr ⟨_, rfl, rfl⟩
      | false => exact .inr ⟨_, rfl, rfl⟩
  | task t answers r now =>
    simp only [step] at h
    split at h
    · cases h
      exact arb_advance (m := m.drop t) t answers r now
    · cases h
  | arb a =>
    simp only [step] at h
    split at h
    · obtain ⟨c, hc, rfl⟩ := Option.map_eq_some_iff.mp h
      exact .inr ⟨a, rfl, hc⟩
    · cases h
  | onFill f now => cases h; exact .inr ⟨_, rfl, rfl⟩
  | finishFill f =>
    cases h
    simp only [arbEvent, finishFill]
    cases m.findOrder f.exchangeOrderId with
    | none => exact .inl ⟨rfl, rfl⟩
    | some x =>
      cases hr : f.isReject with
      | true => exact .inr ⟨_, rfl, rfl⟩
      | false => exact .inr ⟨_, rfl, rfl⟩

/-- What every call on the guard keeps is kept by every run of the manager. -/
theorem portfolio_run {I : PortfolioGuard → Prop} (hI : ∀ g op, I g → I (g.apply op)) {es : List ManagerEvent}
    (h : Machine.run step m es = some m') (hi : I m.arb.portfolio) : I m'.arb.portfolio := by
  refine Machine.inv_run (I := fun m : OrderManager => I m.arb.portfolio) ?_ hi h
  intro m e m' hi hs
  rcases arb_step hs with ⟨-, harb⟩ | ⟨a, -, ha⟩
  · rw [harb]; exact hi
  · rw [ArbCoordinator.portfolio_step ha]
    exact PortfolioGuard.applyAll_inv hI hi _

theorem isMessage_arbEvent {a : ArbEvent} (h : m.step e = some m') (ha : m.arbEvent e = some a)
    (he : ∀ f now, e ≠ .onFill f now) : a.isMessage = false := by
  cases e with
  | processSignal s receiveNs now =>
    simp only [arbEvent] at ha
    split at ha
    · cases ha; split <;> rfl
    · cases ha
  | task t answers r now =>
    cases t with
    | reserve o | release o => cases ha; rfl
    | result o =>
      simp only [arbEvent] at ha
      split at ha <;> cases ha
      rfl
    | _ => cases ha
  | arb a' =>
    cases ha
    simp only [step] at h
    split at h
    · next hown => cases a <;> first | rfl | cases hown
    · cases h
  | onFill f now => exact absurd rfl (he f now)
  | finishFill f =>
    obtain ⟨x, -, rfl⟩ := Option.map_eq_some_iff.mp ha
    rfl

theorem arbEvent_addLeg {s : Signal} {now : Int} (h : m.step e = some m') (ha : m.arbEvent e = some (.addLeg s now)) :
    ∃ receiveNs, e = .processSignal s receiveNs now ∧ Accepted m.signalConfig s receiveNs ∧ s.hasGroupId = true := by
  cases e with
  | processSignal s' receiveNs now' =>
    simp only [arbEvent] at ha
    split at ha
    · next hv =>
      cases hg : s'.hasGroupId <;> rw [hg] at ha <;> cases ha
      exact ⟨receiveNs, rfl, validate_valid_iff.mp hv, hg⟩
    · cases ha
  | task t answers r now' =>
    cases t with
    | result o' => simp only [arbEvent] at ha; split at ha <;> cases ha
    | _ => cases ha
  | arb a =>
    cases ha
    simp only [step] at h
    cases h
  | onFill f now' => cases ha
  | finishFill f =>
    obtain ⟨x, -, hx⟩ := Option.map_eq_some_iff.mp ha
    cases hx

theorem arbEvent_portfolio {op : GuardOp} (h : m.step e = some m') (ha : m.arbEvent e = some (.portfolio op)) :
    (∃ o ∈ m.tasks.map SingleTask.order, op = .checkAndReserve o.signal ∨ op = .releaseMargin o.signal) ∨
      ∃ f i o, e = .finishFill f ∧ m.findOrder f.exchangeOrderId = some (i, o) ∧
        op = if f.isReject then .releaseMargin o.signal else .onFill o.signal f.fillPrice f.filledQty := by
  have hmem : ∀ {t answers r now}, e = .task t answers r now → t.order ∈ m.tasks.map SingleTask.order := by
    rintro t answers r now rfl
    simp only [step] at h
    split at h
    · next hm => exact List.mem_map_of_mem hm
    · cases h
  cases e with
  | processSignal s receiveNs now =>
    simp only [arbEvent] at ha
    split at ha
    · split at ha <;> cases ha
    · cases ha
  | task t answers r now =>
    cases t with
    | reserve o => cases ha; exact .inl ⟨o, hmem rfl, .inl rfl⟩
    | release o => cases ha; exact .inl ⟨o, hmem rfl, .inr rfl⟩
    | result o =>
      simp only [arbEvent] at ha
      split at ha <;> cases ha
      exact .inl ⟨o, hmem rfl, .inr rfl⟩
    | _ => cases ha
  | arb a =>
    cases ha
    simp only [step] at h
    cases h
  | onFill f now => cases ha
  | finishFill f =>
    obtain ⟨⟨i, o⟩, hf, hx⟩ := Option.map_eq_some_iff.mp ha
    exact .inr ⟨f, i, o, rfl, hf, (ArbEvent.portfolio.inj hx).symm⟩

theorem sent_single {o : Order} : m.Sent o ↔ .sendOrder o.signal.exchange o ∈ (m.single o.orderId).log := by
  simp [Sent, single, ManagerEffect.orderId]

theorem task_origin (h : m.step e = some m') {t' : SingleTask} (ht' : t' ∈ m'.tasks) :
    (∃ t ∈ m.tasks, t.order.orderId = t'.order.orderId ∧ t.order.signal = t'.order.signal) ∨
      ∃ receiveNs now, e = .processSignal t'.order.signal receiveNs now ∧ t'.order.signal.hasGroupId = false ∧
        t'.order.orderId = storedOrderId m.arb.uuid.orderCounter := by
  have hv := mem_tasks_single ht' rfl
  have hstep := single_step h t'.order.orderId
  have old : ∀ {t}, t ∈ (m.single t'.order.orderId).tasks → t.order.signal = t'.order.signal →
      ∃ t ∈ m.tasks, t.order.orderId = t'.order.orderId ∧ t.order.signal = t'.order.signal := by
    intro t ht hs
    exact ⟨t, List.mem_of_mem_filter ht, by simpa using (List.mem_filter.mp ht).2, hs⟩
  generalize m'.single t'.order.orderId = v' at hv hstep
  cases hstep with
  | other _ => exact .inl (old hv rfl)
  | @enter s receiveNs now ha hg hid =>
    rcases List.mem_cons.mp hv with rfl | hv
    · exact .inr ⟨receiveNs, now, rfl, hg, rfl⟩
    · exact .inl (old hv rfl)
  | @move t _ _ _ _ ht hm =>
    rcases List.mem_cons.mp hv with rfl | hv
    · refine .inl (old ht ?_)
      cases hm <;> rfl
    · exact .inl (old (List.mem_of_mem_erase hv) rfl)
  | @store t o₀ next _ _ _ ht hm =>
    have hnext : ∀ t₁ ∈ next, t₁.order = t.order := by
      cases hm <;> simp [SingleTask.order]
    rcases List.mem_append.mp hv with hv | hv
    · exact .inl (old ht (by rw [hnext _ (Option.mem_toList.mp hv)]))
    · exact .inl (old (List.mem_of_mem_erase hv) rfl)
  | @send gw o₀ _ _ _ ht =>
    rcases List.mem_cons.mp hv with rfl | hv
    · exact .inl (old ht rfl)
    · exact .inl (old (List.mem_of_mem_erase hv) rfl)
  | release _ | resultIdle _ _ | result _ _ => exact .inl (old (List.mem_of_mem_erase hv) rfl)
  | rejected _ _ _ | filled _ _ _ => exact .inl (old hv rfl)

end

end OrderManager

/-! ## The log of an order -/

section
variable {m : OrderManager} {id : CStr 15} {v v' : SingleView} {e : ManagerEvent}

theorem SingleStep.log_mono (h : SingleStep m id v e v') {x : ManagerEffect} (hx : x ∈ v.log) : x ∈ v'.log := by
  cases h with
  | send _ => exact List.mem_cons_of_mem _ hx
  | filled _ _ _ => exact List.mem_cons_of_mem _ hx
  | _ => exact hx

theorem OrderManager.sent_mono {m' : OrderManager} (h : m.step e = some m') {o : Order} (hs : m.Sent o) :
    m'.Sent o :=
  sent_single.mpr ((single_step h o.orderId).log_mono (sent_single.mp hs))

theorem SingleView.Life.sent (h : v.Life id) {o : Order} (hs : .sendOrder o.signal.exchange o ∈ v.log) :
    o.Unsent id ∧ ((v = ⟨[.result o], some o, [.sendOrder o.signal.exchange o]⟩ ∧ o.status = .SENT) ∨
      ∃ o' l, v = ⟨[], some o', l ++ [.sendOrder o.signal.exchange o]⟩ ∧ o.Answered o' ∧
        ∀ x ∈ l, ∃ price qty, x = .bookFill id o.signal price qty) := by
  cases h with
  | @waiting o₀ hu hst =>
    obtain ⟨-, rfl⟩ := ManagerEffect.sendOrder.inj (List.mem_singleton.mp hs)
    exact ⟨hu, .inl ⟨rfl, hst⟩⟩
  | @answered o₀ o' l hu ha hb =>
    rcases List.mem_append.mp hs with hm | hm
    · obtain ⟨price, qty, he⟩ := hb _ hm
      cases he
    · obtain ⟨-, rfl⟩ := ManagerEffect.sendOrder.inj (List.mem_singleton.mp hm)
      exact ⟨hu, .inr ⟨o', l, rfl, ha, hb⟩⟩
  | _ => cases hs

end

/-! ## The market -/

def Market.arbEvent (m : Market) (me : MarketEvent) : Option ArbEvent := me.managerEvent.bind m.om.arbEvent

namespace Market

section
variable {m m' : Market} {me : MarketEvent}

theorem om_step (h : m.step me = some m') :
    (me.managerEvent = none ∧ m'.om = m.om) ∨ ∃ e, me.managerEvent = some e ∧ m.om.step e = some m'.om := by
  cases steps_of_step h with
  | code _ _ hom => exact .inr ⟨_, rfl, hom⟩
  | legMessage _ _ _ | message _ _ _ | finish _ => exact .inr ⟨_, rfl, rfl⟩
  | noLegMessage _ _ | noMessage _ _ => exact .inl ⟨rfl, rfl⟩

theorem others_step (h : m.step me = some m') : m'.others =
    if m.arbEvent me = some .drawOrderId then storedOrderId m.om.arb.uuid.orderCounter :: m.others
    else m.others := by
  cases steps_of_step h with
  | code _ _ _ | legMessage _ _ _ | message _ _ _ | noLegMessage _ _ | noMessage _ _ => rfl
  | finish _ =>
    simp only [arbEvent, MarketEvent.managerEvent, Option.bind_some, OrderManager.arbEvent, Option.map_eq_some_iff,
      reduceCtorEq, and_false, exists_false, ite_false]

/-- Every id belongs to one order, every order is in a stage of its life, and
every callback is about an order that was sent. -/
structure Orderly (m : Market) : Prop where
  tagged : Tagged m.om.arb m.others
  life : ∀ id, (m.om.single id).Life id
  drawn : ∀ id, id ∉ m.others → m.om.single id = ⟨[], none, []⟩
  pending : ∀ x ∈ m.pending, x.2.exchangeOrderId.bytes = x.1.exchangeId ∧
    (m.om.Sent x.1 ∨ ∃ g role, m.om.arb.Sent g role x.1)

theorem orderly_init (signalConfig : SignalConfig) (portfolioConfig : PortfolioConfig) (arbConfig : ArbConfig)
    (hasGateway : Exchange → Bool) : (init signalConfig portfolioConfig arbConfig hasGateway).Orderly where
  tagged := tagged_init arbConfig (.init portfolioConfig) hasGateway
  life := fun _ => .undrawn
  drawn := fun _ _ => rfl
  pending := fun _ hx => by cases hx

theorem Orderly.sent_others (h : m.Orderly) {o : Order} (hs : m.om.Sent o) : o.orderId ∈ m.others := by
  by_contra hn
  have := OrderManager.sent_single.mp hs
  rw [h.drawn _ hn] at this
  cases this

theorem Orderly.honest (h : m.Orderly) (hs : m.step me = some m') {e : ManagerEvent}
    (he : me.managerEvent = some e) : e.Honest := by
  cases steps_of_step hs with
  | code _ hh _ => cases he; exact hh
  | legMessage _ _ _ | message _ _ _ => cases he; trivial
  | noLegMessage _ _ | noMessage _ _ => cases he
  | @finish o f hp =>
    cases he
    show f.exchangeOrderId.bytes ≠ []
    rw [(h.pending _ hp).1]
    exact o.exchangeId_ne_nil

theorem pending_step (h : m.step me = some m') {x : Order × Fill} (hx : x ∈ m'.pending) :
    x ∈ m.pending ∨ x.2.exchangeOrderId.bytes = x.1.exchangeId ∧
      (m.om.Sent x.1 ∨ ∃ g role, m.om.arb.Sent g role x.1) := by
  cases steps_of_step h with
  | code _ _ _ | noLegMessage _ _ | noMessage _ _ => exact .inl hx
  | @legMessage g role o f now hsent _ hid =>
    rcases List.mem_cons.mp hx with rfl | hx
    · exact .inr ⟨hid, .inr ⟨g, role, hsent⟩⟩
    · exact .inl hx
  | message hsent _ hid =>
    rcases List.mem_cons.mp hx with rfl | hx
    · exact .inr ⟨hid, .inl hsent⟩
    · exact .inl hx
  | finish _ => exact .inl (List.mem_of_mem_erase hx)

theorem arb_step (h : m.step me = some m') :
    (m.arbEvent me = none ∧ m'.om.arb = m.om.arb) ∨
      ∃ a, m.arbEvent me = some a ∧ m.om.arb.step a = some m'.om.arb := by
  rcases om_step h with ⟨he, ho⟩ | ⟨e, he, ho⟩
  · exact .inl ⟨by rw [arbEvent, he, Option.bind_none], by rw [ho]⟩
  · have := OrderManager.arb_step ho
    rwa [arbEvent, he, Option.bind_some]

theorem Orderly.step (h : m.Orderly) (hn : m.om.arb.uuid.orderCounter < 10 ^ 11) (hs : m.step me = some m') :
    m'.Orderly := by
  have hothers := others_step hs
  have htagged : Tagged m'.om.arb m'.others := by
    rcases arb_step hs with ⟨ha, harb⟩ | ⟨a, ha, hstep⟩
    · rw [hothers, ha, if_neg (by simp), harb]
      exact h.tagged
    · rw [hothers, ha]
      simpa using h.tagged.step hn hstep
  have hview : ∀ id, m'.om.single id = m.om.single id ∨ ∃ e, me.managerEvent = some e ∧
      SingleStep m.om id (m.om.single id) e (m'.om.single id) := by
    intro id
    rcases om_step hs with ⟨-, ho⟩ | ⟨e, he, ho⟩
    · exact .inl (by rw [ho])
    · exact .inr ⟨e, he, OrderManager.single_step ho id⟩
  have hfresh : storedOrderId m.om.arb.uuid.orderCounter ∉ m.others := fun hm =>
    (h.tagged.othersDrawn _ hm).ne_stored hn rfl
  refine ⟨htagged, fun id => ?_, fun id hid => ?_, fun x hx => ?_⟩
  · rcases hview id with he | ⟨e, he, hstep⟩
    · rw [he]; exact h.life id
    · exact (h.life id).step hstep (h.honest hs he) fun hnew => h.drawn id (hnew ▸ hfresh)
  · have hold : id ∉ m.others := by
      intro hm
      rw [hothers] at hid
      split at hid
      · exact hid (List.mem_cons_of_mem _ hm)
      · exact hid hm
    have hempty := h.drawn id hold
    rcases hview id with he | ⟨e, he, hstep⟩
    · rw [he]; exact hempty
    · rw [hempty] at hstep
      generalize m'.om.single id = v' at hstep ⊢
      cases hstep with
      | other _ => rfl
      | enter ha hg hnew =>
        have : m.arbEvent me = some .drawOrderId := by
          rw [arbEvent, he, Option.bind_some, OrderManager.arbEvent, if_pos (validate_valid_iff.mpr ha), hg]
          rfl
        rw [hothers, if_pos this, hnew] at hid
        exact absurd (List.mem_cons_self ..) hid
      | move ht _ | store ht _ | release ht | send ht | resultIdle ht _ | result ht _ => cases ht
      | rejected _ hl _ | filled _ hl _ => cases hl
  · have hold : x.2.exchangeOrderId.bytes = x.1.exchangeId ∧
        (m.om.Sent x.1 ∨ ∃ g role, m.om.arb.Sent g role x.1) :=
      (pending_step hs hx).elim (h.pending x) id
    refine ⟨hold.1, hold.2.imp ?_ ?_⟩
    · intro hsent
      rcases om_step hs with ⟨-, ho⟩ | ⟨e, -, ho⟩
      · rw [ho]; exact hsent
      · exact OrderManager.sent_mono ho hsent
    · rintro ⟨g, role, y, hy, hsend⟩
      rcases arb_step hs with ⟨-, harb⟩ | ⟨a, -, hstep⟩
      · exact ⟨g, role, y, harb ▸ hy, hsend⟩
      · exact ⟨g, role, y, log_mono h.tagged.keyed hstep hy, hsend⟩

/-- The coordinator's part of a step is a step of its world. -/
theorem Orderly.world_step (h : m.Orderly) (hs : m.step me = some m') :
    (m.arbEvent me = none ∧ m'.world = m.world) ∨
      ∃ we, we.arbEvent = m.arbEvent me ∧ m.world.step we = some m'.world := by
  -- what the coordinator's own code does needs no order of a gateway
  have hcode : ∀ a, m.arbEvent me = some a → a.isMessage = false → m.om.arb.step a = some m'.om.arb →
      m'.closed = m.closed → m'.fills = m.fills → ∃ we, we.arbEvent = m.arbEvent me ∧ m.world.step we = some m'.world := by
    intro a ha hm hstep hcl hfl
    refine ⟨.code a, ha.symm, ?_⟩
    simp only [World.step, hm, Bool.false_eq_true, ite_false, world, hstep, Option.map_some, others_step hs, ha,
      Option.some.injEq, hcl, hfl]
  cases steps_of_step hs with
  | @code e om hmsg _ hom =>
    rcases OrderManager.arb_step hom with ⟨ha, harb⟩ | ⟨a, ha, hstep⟩
    · refine .inl ⟨ha, ?_⟩
      simp only [world, harb]
      rw [if_neg (by rw [show m.om.arbEvent e = none from ha]; simp)]
    · refine .inr (hcode a ha (OrderManager.isMessage_arbEvent hom ha ?_) hstep rfl rfl)
      rintro f now rfl
      cases hmsg
  | @legMessage g role o f now hsent hopen hx =>
    refine .inr ⟨.message g role o f.fillPrice f.filledQty f.isReject now, ?_, ?_⟩
    · simp [WorldEvent.arbEvent, arbEvent, MarketEvent.managerEvent, OrderManager.arbEvent, hx]
    · refine (if_pos (show m.world.arb.Sent g role o ∧ o.orderId ∉ m.world.closed from ⟨hsent, hopen⟩)).trans ?_
      simp only [world, OrderManager.onFill, hx]
      rfl
  | @noLegMessage g role o hsent hopen =>
    exact .inr ⟨.noMessage g role o, rfl,
      if_pos (show m.world.arb.Sent g role o ∧ o.orderId ∉ m.world.closed from ⟨hsent, hopen⟩)⟩
  | @message o f now hsent _ hx =>
    have hid : o.orderId ∈ m.world.others := h.sent_others hsent
    replace hx : f.exchangeOrderId.bytes = exchangeIdOf o.signal.isCexLeg o.orderId := hx.trans o.exchangeId_eq
    refine .inr ⟨.otherMessage o.signal.isCexLeg o.orderId f.fillPrice f.filledQty f.isReject now, ?_, ?_⟩
    · simp [WorldEvent.arbEvent, arbEvent, MarketEvent.managerEvent, OrderManager.arbEvent, hx]
    · refine (if_pos hid).trans ?_
      simp only [world, OrderManager.onFill, hx]
      rfl
  | noMessage _ _ => exact .inl ⟨rfl, rfl⟩
  | @finish o f _ =>
    rcases OrderManager.arb_step (m := m.om) (e := .finishFill f) rfl with ⟨ha, harb⟩ | ⟨a, ha, hstep⟩
    · refine .inl ⟨ha, ?_⟩
      simp only [world, harb]
    · exact .inr (hcode a ha (OrderManager.isMessage_arbEvent rfl ha (fun _ _ he => by cases he)) hstep rfl rfl)

end

/-! ## Which order a callback finds -/

section
variable {m : Market} {id : CStr 15}

theorem Orderly.not_arbSent (h : m.Orderly) {o : Order} (hid : o.orderId ∈ m.others) (g : CStr 15)
    (role : LegRole) : ¬ m.om.arb.Sent g role o := fun hs =>
  h.tagged.apart g role o.orderId (World.sent_uses hs) hid

theorem Orderly.others_of_order (h : m.Orderly) {order : Order} (hl : m.om.orders.lookup id = some order) :
    id ∈ m.others := by
  by_contra hn
  have : (m.om.single id).order = some order := hl
  rw [h.drawn id hn] at this
  cases this

theorem Orderly.taken (h : m.Orderly) {order : Order} (hl : m.om.orders.lookup id = some order)
    (hx : order.exchangeOrderId.bytes ≠ []) : ∃ o l,
      m.om.single id = ⟨[], some order, l ++ [.sendOrder o.signal.exchange o]⟩ ∧ o.Unsent id ∧ o.Answered order ∧
        order.exchangeOrderId.bytes = o.exchangeId ∧ ∀ x ∈ l, ∃ price qty, x = .bookFill id o.signal price qty :=
  (h.life id).found (f := { exchangeOrderId := order.exchangeOrderId }) hl rfl hx

theorem exchangeId_inj {o o' : Order} (h : o.exchangeId = o'.exchangeId) : o.orderId = o'.orderId := by
  rw [Order.exchangeId_eq, Order.exchangeId_eq] at h
  exact (exchangeIdOf_inj h).2

theorem Orderly.findOrder_self (h : m.Orderly) {order : Order} (hl : m.om.orders.lookup id = some order)
    (hx : order.exchangeOrderId.bytes ≠ []) : m.om.findOrder order.exchangeOrderId = some (id, order) := by
  have hmem : ⟨id, order⟩ ∈ m.om.orders.entries := AList.mem_lookup_iff.mp hl
  have hsome : (m.om.findOrder order.exchangeOrderId).isSome := by
    rw [OrderManager.findOrder, Option.isSome_map]
    exact List.find?_isSome.mpr ⟨_, hmem, by simp⟩
  obtain ⟨⟨i, o'⟩, hf⟩ := Option.isSome_iff_exists.mp hsome
  obtain ⟨hl', hx'⟩ := OrderManager.lookup_of_findOrder hf
  obtain ⟨o₁, -, -, hu₁, -, hn₁, -⟩ := h.taken hl hx
  obtain ⟨o₂, -, -, hu₂, -, hn₂, -⟩ := h.taken hl' (hx' ▸ hx)
  have hi : i = id := by
    rw [← hu₁.orderId, ← hu₂.orderId]
    exact exchangeId_inj (by rw [← hn₁, ← hn₂, hx'])
  subst hi
  rw [hl, Option.some.injEq] at hl'
  rw [hf, hl']

theorem Orderly.callback_finds (h : m.Orderly) {o order : Order} {f : Fill} (hp : (o, f) ∈ m.pending)
    (hf : m.om.findOrder f.exchangeOrderId = some (id, order)) : ∃ l,
      m.om.single id = ⟨[], some order, l ++ [.sendOrder o.signal.exchange o]⟩ ∧ o.Unsent id ∧ o.Answered order ∧
        ∀ x ∈ l, ∃ price qty, x = .bookFill id o.signal price qty := by
  obtain ⟨hl, hx⟩ := OrderManager.lookup_of_findOrder hf
  obtain ⟨hfx, hsent⟩ := h.pending _ hp
  have hx' : order.exchangeOrderId.bytes = o.exchangeId := by rw [hx]; exact hfx
  obtain ⟨o₁, l, hv, hu, ha, hn, hb⟩ := h.taken hl (hx' ▸ o.exchangeId_ne_nil)
  have hid : o.orderId = id := (exchangeId_inj (hx'.symm.trans hn)).trans hu.orderId
  rcases hsent with hsent | ⟨g, role, hsent⟩
  · have hmem := OrderManager.sent_single.mp hsent
    rw [hid, hv] at hmem
    rcases List.mem_append.mp hmem with hm | hm
    · obtain ⟨price, qty, he⟩ := hb _ hm
      cases he
    · obtain ⟨-, rfl⟩ := ManagerEffect.sendOrder.inj (List.mem_singleton.mp hm)
      exact ⟨l, hv, hu, ha, hb⟩
  · exact absurd hsent (h.not_arbSent (hid ▸ h.others_of_order hl) g role)

end

/-! ## Steps of an order in the market -/

section
variable {m m' : Market} {me : MarketEvent} {o : Order} {id : CStr 15}

theorem Sent.step (hs : m.step me = some m') (h : m.om.Sent o) : m'.om.Sent o := by
  rcases om_step hs with ⟨-, hom⟩ | ⟨e, -, hom⟩
  · rw [hom]; exact h
  · exact OrderManager.sent_mono hom h

theorem single_step (hs : m.step me = some m') (id : CStr 15) : m'.om.single id = m.om.single id ∨
    ∃ e, me.managerEvent = some e ∧ SingleStep m.om id (m.om.single id) e (m'.om.single id) := by
  rcases om_step hs with ⟨-, hom⟩ | ⟨e, he, hom⟩
  · exact .inl (by rw [hom])
  · exact .inr ⟨e, he, OrderManager.single_step hom id⟩

theorem Orderly.not_fresh (h : m.Orderly) (hn : m.om.arb.uuid.orderCounter < 10 ^ 11) (hid : id ∈ m.others) :
    storedOrderId m.om.arb.uuid.orderCounter ≠ id := fun he =>
  (h.tagged.othersDrawn id hid).ne_stored hn he.symm

theorem Orderly.pending_not_fresh (h : m.Orderly) (hn : m.om.arb.uuid.orderCounter < 10 ^ 11) {x : Order × Fill}
    (hx : x ∈ m.pending) : x.1.orderId ≠ storedOrderId m.om.arb.uuid.orderCounter := by
  rcases (h.pending x hx).2 with hsent | ⟨g, role, hsent⟩
  · exact (h.tagged.othersDrawn _ (h.sent_others hsent)).ne_stored hn
  · exact (h.tagged.drawn g role _ (World.sent_uses hsent)).ne_stored hn

/-- The callback that a look-up of the manager belongs to. -/
theorem finish_of_managerEvent (h : m.Orderly) (hs : m.step me = some m') {f : Fill} {order : Order}
    (he : me.managerEvent = some (.finishFill f)) (hf : m.om.findOrder f.exchangeOrderId = some (id, order)) :
    ∃ o, me = .finish o f ∧ (o, f) ∈ m.pending ∧ o.orderId = id ∧ m.om.Sent o := by
  cases steps_of_step hs with
  | code hmsg _ _ => cases he; cases hmsg
  | @finish o _ hp =>
    cases he
    obtain ⟨l, hv, hu, -⟩ := h.callback_finds hp hf
    refine ⟨o, rfl, hp, hu.orderId, OrderManager.sent_single.mpr ?_⟩
    rw [hu.orderId, hv]
    simp
  | _ => cases he

/-- Without a task, an order changes only by the look-up of its message. -/
theorem view_step (h : m.Orderly) (hn : m.om.arb.uuid.orderCounter < 10 ^ 11) (hs : m.step me = some m')
    (hid : id ∈ m.others) (ht : (m.om.single id).tasks = []) : m'.om.single id = m.om.single id ∨
      ∃ o f order, me = .finish o f ∧ (o, f) ∈ m.pending ∧ o.orderId = id ∧ m.om.Sent o ∧
        (m.om.single id).order = some order ∧ m'.om.single id =
          if f.isReject then { m.om.single id with order := some { order with status := .REJECTED } }
          else { m.om.single id with
            order := some (order.filledBy f),
            log := .bookFill id order.signal f.fillPrice f.filledQty :: (m.om.single id).log } := by
  rcases single_step hs id with hv | ⟨e, he, hstep⟩
  · exact .inl hv
  · generalize m'.om.single id = v' at hstep
    cases hstep with
    | other _ => exact .inl rfl
    | enter _ _ hnew => exact absurd hnew (h.not_fresh hn hid)
    | move hm _ | store hm _ | release hm | send hm | resultIdle hm _ | result hm _ => rw [ht] at hm; cases hm
    | rejected hf hl hr =>
      obtain ⟨o, rfl, hp, hid, hsent⟩ := finish_of_managerEvent h hs he hf
      exact .inr ⟨o, _, _, rfl, hp, hid, hsent, hl, by rw [if_pos hr]⟩
    | filled hf hl hr =>
      obtain ⟨o, rfl, hp, hid, hsent⟩ := finish_of_managerEvent h hs he hf
      exact .inr ⟨o, _, _, rfl, hp, hid, hsent, hl, by rw [if_neg (by simp [hr])]⟩

theorem Orderly.sent_inj (h : m.Orderly) {o o' : Order} (hs : m.om.Sent o) (hs' : m.om.Sent o')
    (hid : o.orderId = o'.orderId) : o = o' := by
  have hm := OrderManager.sent_single.mp hs
  have hm' := OrderManager.sent_single.mp hs'
  rw [← hid] at hm'
  rcases ((h.life _).sent hm).2 with ⟨hv, -⟩ | ⟨order, l, hv, -, hb⟩
  · rw [hv] at hm'
    exact (ManagerEffect.sendOrder.inj (List.mem_singleton.mp hm')).2.symm
  · rw [hv] at hm'
    rcases List.mem_append.mp hm' with hm' | hm'
    · obtain ⟨price, qty, he⟩ := hb _ hm'
      cases he
    · exact (ManagerEffect.sendOrder.inj (List.mem_singleton.mp hm')).2.symm

end

end Market

namespace Sample

def single : Signal :=
  { signalId := storedSignalId 201, symbol := .copy 15 (lit "ETH"), side := .BUY, exchange := .BINANCE,
    quantity := 1, price := 100 }

def singleOrder : Order := { orderId := storedOrderId 1, signal := single, createdAtNs := 1 }

def singleSent : Order := { singleOrder with status := .SENT, sentAtNs := 1 }

def taken : OrderResult :=
  { success := true, exchangeOrderId := .copy 31 (exIdOf (storedOrderId 1)), status := .ACKNOWLEDGED }

def singleFill : Fill :=
  { exchangeOrderId := .copy 31 (exIdOf (storedOrderId 1)), filledQty := 1, fillPrice := 100, isFinal := true }

def market : Market := .init {} {} {} fun _ => true

def task (t : SingleTask) (r : OrderResult) : MarketEvent := .code (.task t [] r 1)

def sending : List MarketEvent :=
  [.code (.processSignal single 1 1), task (.check singleOrder) {}, task (.reserve singleOrder) {},
   task (.store singleSent) {}, task (.register singleSent) {}, task (.lookup singleSent) {},
   task (.send .BINANCE singleSent) {}, .message singleSent singleFill 2]

end Sample

end OrderExecution
