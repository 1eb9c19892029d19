import OrderExecution.MarketSteps

/-!
# Opposite live orders

An order is registered without an exchange id, and the conflict check cancels
only entries that have one: every check lets its signal proceed, whatever
stands against it. No symbol has live orders on both sides in a run whose
checks meet no live order of the other side, and no other call that is still on
its way to register one.
-/

namespace OrderExecution

open Machine ConflictResolver

/-- The call has passed the conflict check, and has stored no order yet. -/
def SingleTask.admitted : SingleTask → Bool
  | .reserve _ | .store _ => true
  | _ => false

/-- The call has passed the conflict check, and is not known to the resolver. -/
def SingleTask.unregistered : SingleTask → Bool
  | .reserve _ | .store _ | .register _ => true
  | _ => false

/-- No symbol has orders in flight on both sides. -/
def NoOppositeLive (m : Market) : Prop :=
  ∀ x ∈ m.om.orders.entries, ∀ y ∈ m.om.orders.entries, isInFlight x.2.status = true → isInFlight y.2.status = true →
    x.2.signal.symbol = y.2.signal.symbol → x.2.signal.side = y.2.signal.side

instance (m : Market) : Decidable (NoOppositeLive m) := inferInstanceAs (Decidable (∀ _ ∈ _, _))

/-- The orders that stand against a checked signal are no longer in flight, and
no other call for its symbol is between its check and its registration on the
other side. -/
def CheckClear (m : Market) : MarketEvent → Prop
  | .code (.task (.check o) _ _ _) =>
    (∀ e ∈ m.om.resolver.entriesOf o.signal.symbol, e.conflicts o.signal = true →
      ∀ order ∈ m.om.orders.lookup e.orderId, isInFlight order.status = false) ∧
    ∀ t ∈ m.om.tasks, t.unregistered = true → t.order.signal.symbol = o.signal.symbol →
      t.order.signal.side = o.signal.side
  | _ => True

instance (m : Market) : ∀ me, Decidable (CheckClear m me)
  | .code (.task (.check o) _ _ _) => inferInstanceAs (Decidable ((∀ e ∈ m.om.resolver.entriesOf o.signal.symbol,
      e.conflicts o.signal = true → ∀ order ∈ m.om.orders.lookup e.orderId, isInFlight order.status = false) ∧
      ∀ t ∈ m.om.tasks, t.unregistered = true → t.order.signal.symbol = o.signal.symbol →
        t.order.signal.side = o.signal.side))
  | .code (.task (.reserve _) _ _ _) | .code (.task (.storeRefused _ _) _ _ _) | .code (.task (.store _) _ _ _)
  | .code (.task (.register _) _ _ _) | .code (.task (.lookup _) _ _ _) | .code (.task (.storeRejected _) _ _ _)
  | .code (.task (.release _) _ _ _) | .code (.task (.send _ _) _ _ _) | .code (.task (.result _) _ _ _)
  | .code (.processSignal _ _ _) | .code (.arb _) | .code (.onFill _ _) | .code (.finishFill _)
  | .legMessage _ _ _ _ _ | .noLegMessage _ _ _ | .message _ _ _ | .noMessage _ | .finish _ _ => isTrue trivial

/-! ## The resolver -/

/-- The resolver of the manager: no entry has an exchange id, and nothing is
rejected for a conflict alone. -/
structure OrderManager.Lenient (m : OrderManager) : Prop where
  unnamed : m.resolver.Unnamed
  strategy : m.resolver.strategy = .CANCEL_AND_REPLACE

section
variable {m m' : OrderManager} {e : ManagerEvent}

theorem OrderManager.Lenient.check (h : m.Lenient) (s : Signal) (answers : List (Option CancelResult)) :
    (m.resolver.check m.arb.hasGateway s answers).2 = {} ∧
      ∀ y, (m.resolver.check m.arb.hasGateway s answers).1.entriesOf y = m.resolver.entriesOf y :=
  h.unnamed.check (by rw [h.strategy]; decide) m.arb.hasGateway s answers

theorem strategy_check (c : ConflictResolver) (hasGateway : Exchange → Bool) (s : Signal)
    (answers : List (Option CancelResult)) : (c.check hasGateway s answers).1.strategy = c.strategy := by
  unfold ConflictResolver.check
  split
  · rfl
  · split
    · rfl
    · split <;> rfl

theorem strategy_updateStatus (c : ConflictResolver) (id : CStr 15) (status : OrderStatus) :
    (c.updateStatus id status).strategy = c.strategy := by
  rcases c.updateStatus_cases id status with h | ⟨symbol, entries, -, h⟩ <;> rw [h]

/-- What a step does to the resolver: it changes the status of an entry only
together with an order that is no longer in flight. -/
theorem resolver_step (h : m.step e = some m') (hl : m.Lenient) :
    ((∀ y, m'.resolver.entriesOf y = m.resolver.entriesOf y) ∧ m'.resolver.strategy = m.resolver.strategy) ∨
    (∃ o answers r now, e = .task (.register o) answers r now ∧ .register o ∈ m.tasks ∧
      m'.resolver = m.resolver.registerOrder o) ∨
    ∃ id status order, m'.resolver = m.resolver.updateStatus id status ∧ m'.orders.lookup id = some order ∧
      isInFlight order.status = false := by
  cases e with
  | processSignal s receiveNs now =>
    cases h
    left
    simp only [OrderManager.processSignal]
    split
    · exact ⟨fun _ => rfl, rfl⟩
    · split <;> exact ⟨fun _ => rfl, rfl⟩
  | task t answers r now =>
    simp only [OrderManager.step] at h
    split at h
    · next hm =>
      cases h
      cases t with
      | check o => exact .inl ⟨(hl.check o.signal answers).2, strategy_check ..⟩
      | register o => exact .inr (.inl ⟨o, answers, r, now, rfl, hm, rfl⟩)
      | lookup o =>
        left
        simp only [OrderManager.advance]
        split <;> exact ⟨fun _ => rfl, rfl⟩
      | result o =>
        -- only a failed send tells the resolver, of an order that is `REJECTED` now
        simp only [OrderManager.advance, OrderManager.sendResult]
        split
        · exact .inl ⟨fun _ => rfl, rfl⟩
        · next order _ =>
          cases hr : r.success with
          | true => exact .inl ⟨fun _ => rfl, rfl⟩
          | false =>
            refine .inr (.inr ⟨o.orderId, .REJECTED, order.answeredBy o.signal.exchange r, rfl, ?_, ?_⟩)
            · exact AList.lookup_insert _
            · unfold Order.answeredBy
              rw [hr]
              rfl
      | _ => exact .inl ⟨fun _ => rfl, rfl⟩
    · cases h
  | arb a =>
    simp only [OrderManager.step] at h
    split at h
    · obtain ⟨c, -, rfl⟩ := Option.map_eq_some_iff.mp h
      exact .inl ⟨fun _ => rfl, rfl⟩
    · cases h
  | onFill f now => cases h; exact .inl ⟨fun _ => rfl, rfl⟩
  | finishFill f =>
    cases h
    simp only [OrderManager.finishFill]
    split
    · exact .inl ⟨fun _ => rfl, rfl⟩
    · next id order _ =>
      split
      · exact .inl ⟨fun _ => rfl, rfl⟩
      · refine .inr (.inr ⟨id, .FILLED, order.filledBy f, rfl, AList.lookup_insert _, ?_⟩)
        rw [(filledBy_fields order f).2.2.2]
        rfl

/-- While what is registered has no exchange id the resolver stays lenient. -/
theorem OrderManager.Lenient.step (hl : m.Lenient)
    (hnew : ∀ o, .register o ∈ m.tasks → o.exchangeOrderId.isEmpty = true) (h : m.step e = some m') : m'.Lenient := by
  rcases resolver_step h hl with ⟨hsame, hst⟩ | ⟨o, -, -, -, -, ht, hr⟩ | ⟨i, status, -, hr, -⟩
  · exact ⟨fun y e he => hl.unnamed y e (hsame y ▸ he), hst.trans hl.strategy⟩
  · refine ⟨?_, by rw [hr]; exact hl.strategy⟩
    rw [hr]
    exact hl.unnamed.registerOrder (hnew o ht)
  · refine ⟨?_, ?_⟩
    · rw [hr]; exact hl.unnamed.updateStatus i status
    · rw [hr, strategy_updateStatus]; exact hl.strategy

end

/-! ## Live orders -/

/-- The signal is that of an order in flight, or of a call that is about to
store one. -/
def Market.Holds (m : Market) (s : Signal) : Prop :=
  (∃ id o, m.om.orders.lookup id = some o ∧ isInFlight o.status = true ∧ o.signal = s) ∨
    ∃ t ∈ m.om.tasks, t.admitted = true ∧ t.order.signal = s

/-- The resolver knows the order `o` of the id as one in flight. -/
def Market.Registered (m : Market) (id : CStr 15) (o : Order) : Prop :=
  ∃ e ∈ m.om.resolver.entriesOf o.signal.symbol, e.orderId = id ∧ e.side = o.signal.side ∧ isActive e.status = true

/-- Every order in flight is known to the resolver or about to be, and live
signals of one symbol are on one side. -/
structure Market.OneSided (m : Market) : Prop where
  orderly : m.Orderly
  lenient : m.om.Lenient
  registered : ∀ id o, (m.om.single id).order = some o → isInFlight o.status = true →
    (m.om.single id).tasks = [.register o] ∨ m.Registered id o
  agree : ∀ a b, m.Holds a → m.Holds b → a.symbol = b.symbol → a.side = b.side

section
variable {m m' : Market} {me : MarketEvent} {id : CStr 15} {v : SingleView}

theorem SingleView.Life.store_inFlight (h : v.Life id) {t : SingleTask} {o : Order} {next : Option SingleTask}
    (ht : t ∈ v.tasks) (hs : t.Stores o next) (hf : isInFlight o.status = true) :
    t = .store o ∧ next = some (.register o) := by
  have htasks := h.tasks_eq ht
  cases hs with
  | sent o => exact ⟨rfl, rfl⟩
  | refused o reason =>
    cases h with
    | storeRefused _ hst =>
      cases List.singleton_inj.mp htasks
      rw [hst] at hf
      cases hf
    | called hc _ => rw [List.singleton_inj.mp htasks] at hc; rcases hc with hc | hc <;> cases hc
    | stored hc _ _ => rw [List.singleton_inj.mp htasks] at hc; rcases hc with hc | hc | hc <;> cases hc
    | _ => cases htasks
  | rejected o =>
    cases h with
    | storeRejected _ _ _ hst _ =>
      cases List.singleton_inj.mp htasks
      rw [hst] at hf
      cases hf
    | called hc _ => rw [List.singleton_inj.mp htasks] at hc; rcases hc with hc | hc <;> cases hc
    | stored hc _ _ => rw [List.singleton_inj.mp htasks] at hc; rcases hc with hc | hc | hc <;> cases hc
    | _ => cases htasks

theorem SingleStep.inFlight {om : OrderManager} {e : ManagerEvent} {v' : SingleView} {o : Order}
    (h : SingleStep om id v e v') (hlife : v.Life id) (hnew : storedOrderId om.arb.uuid.orderCounter = id → v.order = none)
    (hl : v'.order = some o) (hf : isInFlight o.status = true) :
    (∃ o', v.order = some o' ∧ isInFlight o'.status = true ∧ o'.signal = o.signal ∧
      (v.tasks = [.register o'] → o' = o ∧ (v'.tasks = [.register o] ∨ ∃ answers r now, e = .task (.register o) answers r now))) ∨
    .store o ∈ v.tasks ∧ v'.tasks = [.register o] := by
  cases h with
  | other _ => exact .inl ⟨o, hl, hf, rfl, fun ht => ⟨rfl, .inl ht⟩⟩
  | enter _ _ hid => rw [hnew hid] at hl; cases hl
  | @move t t' answers r now ht hm =>
    refine .inl ⟨o, hl, hf, rfl, fun htasks => ⟨rfl, .inr ⟨answers, r, now, ?_⟩⟩⟩
    rw [htasks] at ht
    rw [List.mem_singleton.mp ht]
  | store ht hs =>
    obtain rfl := Option.some.inj hl
    obtain ⟨rfl, rfl⟩ := hlife.store_inFlight ht hs hf
    refine .inr ⟨ht, ?_⟩
    simp [hlife.tasks_eq ht]
  | release ht | send ht =>
    refine .inl ⟨o, hl, hf, rfl, fun htasks => ?_⟩
    rw [htasks] at ht
    cases List.mem_singleton.mp ht
  | resultIdle _ hn => rw [hn] at hl; cases hl
  | @result o₀ answers r now order ht hl₀ =>
    obtain ⟨rfl, -, hst⟩ := hlife.of_result ht
    obtain rfl := Option.some.inj hl₀
    obtain rfl := Option.some.inj hl
    exact .inl ⟨o₀, rfl, by rw [hst]; rfl, (signal_answeredBy ..).symm, fun htasks => by cases htasks⟩
  | rejected _ _ _ => cases hl; cases hf
  | @filled f order _ _ _ =>
    cases hl
    rw [(filledBy_fields order f).2.2.2] at hf
    cases hf

theorem SingleStep.admitted {om : OrderManager} {e : ManagerEvent} {v' : SingleView} (h : SingleStep om id v e v')
    {t' : SingleTask} (ht' : t' ∈ v'.tasks) (ha : t'.admitted = true) :
    (∃ t ∈ v.tasks, t.admitted = true ∧ t.order.signal = t'.order.signal) ∨
      ∃ o answers r now, e = .task (.check o) answers r now ∧ t' = .reserve o := by
  have old : t' ∈ v.tasks → ∃ t ∈ v.tasks, t.admitted = true ∧ t.order.signal = t'.order.signal :=
    fun hm => ⟨t', hm, ha, rfl⟩
  cases h with
  | other _ | rejected _ _ _ | filled _ _ _ => exact .inl (old ht')
  | enter _ _ _ =>
    rcases List.mem_cons.mp ht' with rfl | hm
    · cases ha
    · exact .inl (old hm)
  | @move t _ answers r now ht hm =>
    rcases List.mem_cons.mp ht' with rfl | hm'
    · cases hm with
      | checked o => exact .inr ⟨o, answers, r, now, rfl, rfl⟩
      | reserved o now => exact .inl ⟨_, ht, rfl, rfl⟩
      | _ => cases ha
    · exact .inl (old (List.mem_of_mem_erase hm'))
  | @store t o next answers r now ht hs =>
    rcases List.mem_append.mp ht' with hm | hm
    · cases hs with
      | refused _ _ => cases Option.mem_toList.mp hm
      | sent _ | rejected _ =>
        cases Option.mem_toList.mp hm
        cases ha
    · exact .inl (old (List.mem_of_mem_erase hm))
  | send _ =>
    rcases List.mem_cons.mp ht' with rfl | hm
    · cases ha
    · exact .inl (old (List.mem_of_mem_erase hm))
  | release _ | resultIdle _ _ | result _ _ => exact .inl (old (List.mem_of_mem_erase ht'))

/-! ## One step -/

theorem Registered.step (h : m.Registered id o) {o' : Order} (hl : m.om.Lenient) (hs : m.step me = some m')
    (hsig : o.signal = o'.signal) (ho' : m'.om.orders.lookup id = some o') (hf : isInFlight o'.status = true) :
    m'.Registered id o' := by
  obtain ⟨e, he, hid, hside, hact⟩ := h
  rw [hsig] at he hside
  suffices e ∈ m'.om.resolver.entriesOf o'.signal.symbol from ⟨e, this, hid, hside, hact⟩
  rcases Market.om_step hs with ⟨-, hom⟩ | ⟨me', -, hom⟩
  · rw [hom]; exact he
  · rcases resolver_step hom hl with ⟨hsame, -⟩ | ⟨o₀, -, -, -, -, -, hr⟩ | ⟨id₀, status, order, hr, hlook, hdone⟩
    · rw [hsame]; exact he
    · rw [hr, entriesOf_registerOrder]
      split
      · exact List.mem_append_left _ he
      · exact he
    · rw [hr]
      refine mem_updateStatus_of_ne status ?_ he
      rintro rfl
      rw [hid, ho', Option.some.injEq] at hlook
      rw [hlook, hdone] at hf
      cases hf

theorem Market.OneSided.lenient_step (h : m.OneSided) (hs : m.step me = some m') : m'.om.Lenient := by
  rcases Market.om_step hs with ⟨-, hom⟩ | ⟨e, -, hom⟩
  · rw [hom]; exact h.lenient
  · refine h.lenient.step (fun o ht => ?_) hom
    have hu := (h.orderly.life _).tasks_unsent (OrderManager.mem_tasks_single ht rfl)
    have hx : o.exchangeOrderId = .empty := hu.exchangeOrderId
    rw [hx]
    rfl

theorem Market.OneSided.registered_step (h : m.OneSided) (hn : m.om.arb.uuid.orderCounter < 10 ^ 11)
    (hs : m.step me = some m') {o : Order} (hl : (m'.om.single id).order = some o) (hf : isInFlight o.status = true) :
    (m'.om.single id).tasks = [.register o] ∨ m'.Registered id o := by
  rcases Market.single_step hs id with hv | ⟨e, he, hstep⟩
  · rw [hv] at hl ⊢
    exact (h.registered id o hl hf).imp_right fun hr =>
      Registered.step hr h.lenient hs rfl (by rw [← hl, ← hv]; rfl) hf
  · have hnew : storedOrderId m.om.arb.uuid.orderCounter = id → (m.om.single id).order = none := by
      rintro rfl
      rw [h.orderly.drawn _ fun hm => h.orderly.not_fresh hn hm rfl]
    rcases hstep.inFlight (h.orderly.life id) hnew hl hf with ⟨o', hl', hf', hsig, hreg⟩ | ⟨-, ht⟩
    · rcases h.registered id o' hl' hf' with htasks | hr
      · obtain ⟨rfl, ht | ⟨answers, r, now, rfl⟩⟩ := hreg htasks
        · exact .inl ht
        · right
          have hid : o'.orderId = id :=
            ((h.orderly.life id).tasks_unsent (t := .register o') (by rw [htasks]; simp)).orderId
          rcases Market.om_step hs with ⟨hnone, -⟩ | ⟨e', he', hom⟩
          · rw [he] at hnone; cases hnone
          · cases he.symm.trans he'
            simp only [OrderManager.step] at hom
            split at hom
            · have hr : m'.om.resolver = m.om.resolver.registerOrder o' := by
                rw [← Option.some.inj hom]
                rfl
              refine ⟨o'.entry, ?_, hid, rfl, by rw [isActive_eq]; exact hf'⟩
              rw [hr, entriesOf_registerOrder, if_pos rfl]
              exact List.mem_append_right _ (List.mem_singleton_self _)
            · cases hom
      · exact .inr (Registered.step hr h.lenient hs hsig hl hf)
    · exact .inl ht

/-- Whoever holds a side after a step held it before, or has just passed the
conflict check. -/
theorem Market.OneSided.holds_origin (h : m.OneSided) (hn : m.om.arb.uuid.orderCounter < 10 ^ 11)
    (hs : m.step me = some m') {s : Signal} (hh : m'.Holds s) :
    m.Holds s ∨ ∃ o answers r now, me = .code (.task (.check o) answers r now) ∧ o.signal = s := by
  rcases hh with ⟨id, o, hl, hf, rfl⟩ | ⟨t, ht, ha, rfl⟩
  · left
    rcases Market.single_step hs id with hv | ⟨e, he, hstep⟩
    · exact .inl ⟨id, o, (congrArg SingleView.order hv).symm.trans hl, hf, rfl⟩
    · have hnew : storedOrderId m.om.arb.uuid.orderCounter = id → (m.om.single id).order = none := by
        rintro rfl
        rw [h.orderly.drawn _ fun hm => h.orderly.not_fresh hn hm rfl]
      rcases hstep.inFlight (h.orderly.life id) hnew hl hf with ⟨o', hl', hf', hsig, -⟩ | ⟨ht, -⟩
      · exact .inl ⟨id, o', hl', hf', hsig⟩
      · exact .inr ⟨_, List.mem_of_mem_filter ht, rfl, rfl⟩
  · have hv := OrderManager.mem_tasks_single ht rfl
    rcases Market.single_step hs t.order.orderId with hv' | ⟨e, he, hstep⟩
    · rw [hv'] at hv
      exact .inl (.inr ⟨t, List.mem_of_mem_filter hv, ha, rfl⟩)
    · rcases hstep.admitted hv ha with ⟨t₀, ht₀, ha₀, hsig⟩ | ⟨o, answers, r, now, rfl, rfl⟩
      · exact .inl (.inr ⟨t₀, List.mem_of_mem_filter ht₀, ha₀, hsig⟩)
      · cases me <;> cases he
        exact .inr ⟨o, answers, r, now, rfl, rfl⟩

theorem Market.OneSided.check_agrees (h : m.OneSided) {o : Order} {answers : List (Option CancelResult)}
    {r : OrderResult} {now : Int} (hc : CheckClear m (.code (.task (.check o) answers r now))) {s : Signal}
    (hh : m.Holds s) (hsym : s.symbol = o.signal.symbol) : s.side = o.signal.side := by
  obtain ⟨hentries, htasks⟩ := hc
  rcases hh with ⟨id, o₁, hl, hf, rfl⟩ | ⟨t, ht, ha, rfl⟩
  · rcases h.registered id o₁ hl hf with hreg | ⟨e, he, hid, hside, hact⟩
    · have hmem : .register o₁ ∈ (m.om.single id).tasks := by rw [hreg]; exact List.mem_singleton_self _
      exact htasks _ (List.mem_of_mem_filter hmem) rfl hsym
    · by_contra hne
      rw [hsym] at he
      have hconf : e.conflicts o.signal = true := by
        simp [InFlightEntry.conflicts, hside, hne, hact]
      have := hentries e he hconf o₁ (by rw [hid]; exact hl)
      rw [this] at hf
      cases hf
  · refine htasks t ht ?_ hsym
    cases t <;> first | rfl | cases ha

theorem Market.OneSided.step (h : m.OneSided) (hn : m.om.arb.uuid.orderCounter < 10 ^ 11) (hc : CheckClear m me)
    (hs : m.step me = some m') : m'.OneSided where
  orderly := h.orderly.step hn hs
  lenient := h.lenient_step hs
  registered := fun _ _ hl hf => h.registered_step hn hs hl hf
  agree := by
    intro a b ha hb hsym
    rcases h.holds_origin hn hs ha with ha | ⟨o, answers, r, now, rfl, rfl⟩
    · rcases h.holds_origin hn hs hb with hb | ⟨o, answers, r, now, rfl, rfl⟩
      · exact h.agree a b ha hb hsym
      · exact h.check_agrees hc ha hsym
    · rcases h.holds_origin hn hs hb with hb | ⟨o', answers', r', now', he, rfl⟩
      · exact (h.check_agrees hc hb hsym.symm).symm
      · cases he
        rfl

theorem oneSided_init (signalConfig : SignalConfig) (portfolioConfig : PortfolioConfig) (arbConfig : ArbConfig)
    (hasGateway : Exchange → Bool) : (Market.init signalConfig portfolioConfig arbConfig hasGateway).OneSided where
  orderly := Market.orderly_init ..
  lenient := ⟨unnamed_init _, rfl⟩
  registered := fun _ _ hl => by cases hl
  agree := by
    rintro a b (⟨id, o, hl, -⟩ | ⟨t, ht, -⟩) _ _
    · cases hl
    · cases ht

theorem Market.OneSided.noOppositeLive (h : m.OneSided) : NoOppositeLive m := by
  intro x hx y hy hfx hfy
  exact h.agree _ _ (.inl ⟨x.1, x.2, AList.mem_lookup_iff.mpr hx, hfx, rfl⟩)
    (.inl ⟨y.1, y.2, AList.mem_lookup_iff.mpr hy, hfy, rfl⟩)

end

/-- In every run whose checks are clear, no symbol has live orders on both
sides in any state. -/
theorem no_opposite_live (signalConfig : SignalConfig) (portfolioConfig : PortfolioConfig) (arbConfig : ArbConfig)
    (hasGateway : Exchange → Bool) (es : List MarketEvent)
    (hids : Along Market.step (fun m _ => m.om.arb.uuid.orderCounter < 10 ^ 11)
      (.init signalConfig portfolioConfig arbConfig hasGateway) es)
    (hclear : Along Market.step CheckClear (.init signalConfig portfolioConfig arbConfig hasGateway) es) :
    Always Market.step NoOppositeLive (.init signalConfig portfolioConfig arbConfig hasGateway) es :=
  Always.mono (fun _ hm => hm.noOppositeLive)
    (inv_always (I := Market.OneSided) (fun _ _ _ hi hc hs => hi.step hc.1 hc.2 hs) (hids.and hclear)
      (oneSided_init ..))

namespace Sample

def opposite : Signal := { single with signalId := storedSignalId 202, side := .SELL }

def oppositeOrder : Order := { orderId := storedOrderId 2, signal := opposite, createdAtNs := 1 }

def oppositeSent : Order := { oppositeOrder with status := .SENT, sentAtNs := 1 }

/-- The opposite signal comes, and its order is stored. -/
def storing : List MarketEvent :=
  [.code (.processSignal opposite 1 1), task (.check oppositeOrder) {}, task (.reserve oppositeOrder) {},
   task (.store oppositeSent) {}]

end Sample

theorem no_opposite_live_filled :
    Always Market.step NoOppositeLive Sample.market
      (Sample.sending ++ [Sample.task (.result Sample.singleSent) Sample.taken,
        .finish Sample.singleSent Sample.singleFill] ++ Sample.storing) :=
  no_opposite_live {} {} {} (fun _ => true) _ (by decide +kernel) (by decide +kernel)

/-- The opposite signal comes while the first order is at its gateway. -/
theorem not_no_opposite_live :
    ¬ ∀ (signalConfig : SignalConfig) (portfolioConfig : PortfolioConfig) (arbConfig : ArbConfig)
      (hasGateway : Exchange → Bool) (es : List MarketEvent),
      Along Market.step (fun m _ => m.om.arb.uuid.orderCounter < 10 ^ 11)
        (.init signalConfig portfolioConfig arbConfig hasGateway) es →
      Always Market.step NoOppositeLive (.init signalConfig portfolioConfig arbConfig hasGateway) es := by
  intro h
  let es := Sample.sending ++ Sample.storing
  have halways := h {} {} {} (fun _ => true) es (by decide +kernel)
  obtain ⟨m, hm, hn⟩ : ∃ m, run Market.step Sample.market es = some m ∧
      some (decide (NoOppositeLive m)) = some false :=
    Option.bind_eq_some_iff.mp (show (run Market.step Sample.market es).bind
      (fun m => some (decide (NoOppositeLive m))) = some false by decide +kernel)
  exact of_decide_eq_false (Option.some.inj hn) (always_iff.mp halways es [] m (List.append_nil _).symm hm)

end OrderExecution
