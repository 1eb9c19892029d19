import OrderExecution.MarketSteps
import OrderExecution.ArbLegs

/-!
# Orders and their gateways

An order belongs to the gateway of its own exchange. `dispatch_pair` looks its
gateways up after it has released the lock, through the pair and not through
its copies of the orders.
-/

namespace OrderExecution

open ArbCoordinator Machine

/-! ## What is sent, and what is about to be -/

def ArbEffect.Routed : ArbEffect → Prop
  | .sendOrder _ _ gw o => gw = o.signal.exchange
  | .dispatched _ | .startUnwind _ | .bookFill _ _ _ _ => True

instance : ∀ x : ArbEffect, Decidable x.Routed
  | .sendOrder _ _ gw o => inferInstanceAs (Decidable (gw = o.signal.exchange))
  | .dispatched _ | .startUnwind _ | .bookFill _ _ _ _ => isTrue trivial

def ManagerEffect.Routed : ManagerEffect → Prop
  | .sendOrder gw o => gw = o.signal.exchange
  | .processed _ | .bookFill _ _ _ _ => True

instance : ∀ x : ManagerEffect, Decidable x.Routed
  | .sendOrder gw o => inferInstanceAs (Decidable (gw = o.signal.exchange))
  | .processed _ | .bookFill _ _ _ _ => isTrue trivial

/-- The gateways a call has found are those of its orders. -/
def DispatchCall.Routed : DispatchCall → Prop
  | .sendCex _ gw₁ gw₂ o₁ o₂ => (∀ x ∈ gw₁, x = o₁.signal.exchange) ∧ ∀ x ∈ gw₂, x = o₂.signal.exchange
  | .sendDex _ gw o => ∀ x ∈ gw, x = o.signal.exchange
  | .enter _ | .lookup _ _ _ | .startMonitor _ => True

def Worker.Routed : Worker → Prop
  | .unwindSend _ gw o => gw = o.signal.exchange
  | .deadline _ | .sendResult _ _ | .riskWindow _ | .unwindResult _ => True

def SingleTask.Routed : SingleTask → Prop
  | .send gw o => gw = o.signal.exchange
  | _ => True

structure View.Routed (v : View) : Prop where
  log : ∀ x ∈ v.log, x.Routed
  calls : ∀ d ∈ v.calls, d.Routed
  workers : ∀ w ∈ v.workers, w.Routed

structure SingleView.Routed (v : SingleView) : Prop where
  log : ∀ x ∈ v.log, x.Routed
  tasks : ∀ t ∈ v.tasks, t.Routed

/-- Every order given to a gateway was given to that of its exchange. -/
def OrderManager.Routed (m : OrderManager) : Prop := (∀ x ∈ m.arb.log, x.Routed) ∧ ∀ x ∈ m.log, x.Routed

instance (m : OrderManager) : Decidable m.Routed := inferInstanceAs (Decidable (_ ∧ _))

/-- Where the gateways of a dispatch are looked up, the legs of the pair name the
exchanges of the orders that were copied, or ones without a gateway. -/
def SameExchanges (c : ArbCoordinator) : ArbEvent → Prop
  | .dispatch (.lookup g cexOrder dexOrder) _ => ∀ p ∈ c.pairs.lookup g,
      (c.hasGateway p.cexLeg.signal.exchange = true → p.cexLeg.signal.exchange = cexOrder.signal.exchange) ∧
        (c.hasGateway p.dexLeg.signal.exchange = true → p.dexLeg.signal.exchange = dexOrder.signal.exchange)
  | _ => True

instance (c : ArbCoordinator) : ∀ e, Decidable (SameExchanges c e)
  | .dispatch (.lookup g cexOrder dexOrder) _ => inferInstanceAs (Decidable (∀ p ∈ c.pairs.lookup g,
      (c.hasGateway p.cexLeg.signal.exchange = true → p.cexLeg.signal.exchange = cexOrder.signal.exchange) ∧
        (c.hasGateway p.dexLeg.signal.exchange = true → p.dexLeg.signal.exchange = dexOrder.signal.exchange)))
  | .dispatch (.enter _) _ | .dispatch (.sendCex _ _ _ _ _) _ | .dispatch (.sendDex _ _ _) _ => isTrue trivial
  | .dispatch (.startMonitor _) _ | .addLeg _ _ | .worker _ _ _ | .onFill _ _ _ _ _ => isTrue trivial
  | .portfolio _ | .drawOrderId => isTrue trivial

/-! ## Steps -/

section
variable {c c' : ArbCoordinator} {g : CStr 15} {v v' : View} {e : ArbEvent}

theorem eq_of_findGateway {exch x : Exchange} (h : x ∈ c.findGateway exch) : c.hasGateway exch = true ∧ x = exch := by
  unfold findGateway at h
  split at h
  · next hg => exact ⟨hg, (Option.some.inj h).symm⟩
  · cases h

namespace View.Routed

theorem setPair (h : v.Routed) (p : Option ArbPair) : View.Routed { v with pair := p } := ⟨h.log, h.calls, h.workers⟩

theorem record (h : v.Routed) (x : ArbEffect) (hx : x.Routed) : View.Routed { v with log := x :: v.log } :=
  ⟨fun y hy => (List.mem_cons.mp hy).elim (fun he => he ▸ hx) (h.log y), h.calls, h.workers⟩

theorem spawn (h : v.Routed) (w : Worker) (hw : w.Routed) : View.Routed { v with workers := w :: v.workers } :=
  ⟨h.log, h.calls, fun w' hw' => (List.mem_cons.mp hw').elim (fun he => he ▸ hw) (h.workers w')⟩

theorem join (h : v.Routed) (w : Worker) : View.Routed { v with workers := v.workers.erase w } :=
  ⟨h.log, h.calls, fun w' hw' => h.workers w' (List.mem_of_mem_erase hw')⟩

theorem goesOn (h : v.Routed) (d d' : DispatchCall) (hd : d'.Routed) :
    View.Routed { v with calls := d' :: v.calls.erase d } :=
  ⟨h.log, fun d₀ h₀ => (List.mem_cons.mp h₀).elim (fun he => he ▸ hd) fun h₀ => h.calls d₀ (List.mem_of_mem_erase h₀),
    h.workers⟩

theorem returns (h : v.Routed) (d : DispatchCall) : View.Routed { v with calls := v.calls.erase d } :=
  ⟨h.log, fun d₀ h₀ => h.calls d₀ (List.mem_of_mem_erase h₀), h.workers⟩

theorem unwind (h : v.Routed) (c : ArbCoordinator) (g : CStr 15) (p : ArbPair) (now : Int) :
    (v.unwind c g p now).Routed := by
  have hlog : View.Routed { v with log := .startUnwind g :: v.log } := h.record _ trivial
  unfold View.unwind
  split
  · exact hlog.spawn _ rfl
  · exact hlog

theorem reject (h : v.Routed) (c : ArbCoordinator) (g : CStr 15) (p : ArbPair) (b : Bool) (now : Int) :
    (v.reject c g p b now).Routed := by
  unfold View.reject
  split
  · exact (h.unwind c g p now).setPair _
  · exact h.setPair _

theorem send (h : v.Routed) {b : Bool} {gw : Option Exchange} {o : Order} (hgw : ∀ x ∈ gw, x = o.signal.exchange) :
    (v.send g b gw o).Routed := by
  cases gw with
  | none => exact h
  | some x =>
    exact (h.record (.sendOrder g (if b then .cexLeg else .dexLeg) x o) (hgw x rfl)).spawn _ trivial

theorem step (h : v.Routed) (hs : PairStep c g v e v') (hc : v.pair = c.pairs.lookup g) (he : SameExchanges c e) :
    v'.Routed := by
  cases hs with
  | other _ => exact h
  | addLeg _ _ =>
    refine ⟨h.log, fun d hd => ?_, fun w hw => ?_⟩
    · simp only at hd
      split at hd
      · exact (List.mem_cons.mp hd).elim (fun he => he ▸ trivial) (h.calls d)
      · exact h.calls d hd
    · simp only at hw
      split at hw
      · exact (List.mem_cons.mp hw).elim (fun he => he ▸ trivial) (h.workers w)
      · exact h.workers w hw
  | enterReturns _ _ => exact h.returns _
  | enterRefused _ _ _ _ => exact (h.returns _).setPair _
  | enterDispatches _ _ _ _ => exact ((h.goesOn _ (.lookup g _ _) trivial).record (.dispatched g) trivial).setPair _
  | lookupFails _ _ => exact h.returns _
  | @lookup now o₁ o₂ p _ hp =>
    obtain ⟨h₁, h₂⟩ := he p (hc ▸ hp)
    refine h.goesOn _ (.sendCex g _ _ _ _) ⟨fun x hx => ?_, fun x hx => ?_⟩
    · obtain ⟨hg, rfl⟩ := eq_of_findGateway hx
      exact h₁ hg
    · obtain ⟨hg, rfl⟩ := eq_of_findGateway hx
      exact h₂ hg
  | @sendCex now gw₁ gw₂ o₁ o₂ hm =>
    obtain ⟨h₁, h₂⟩ := h.calls _ hm
    have hsent := (h.goesOn (.sendCex g gw₁ gw₂ o₁ o₂) (.sendDex g gw₂ o₂) h₂).send (g := g) (b := true) h₁
    cases gw₁ <;> exact hsent
  | @sendDex now gw o hm =>
    have hsent := (h.goesOn (.sendDex g gw o) (.startMonitor g) trivial).send (g := g) (b := false) (h.calls _ hm)
    cases gw <;> exact hsent
  | startMonitor _ => exact (h.returns _).spawn (.riskWindow g) trivial
  | deadlineIdle _ _ | sendResultIdle _ _ | riskIdle _ _ | unwindResultIdle _ _ => exact h.join _
  | deadline _ _ _ _ | sendSucceeded _ _ _ _ | riskDex _ _ _ | unwindResult _ _ => exact (h.join _).setPair _
  | sendFailed _ _ _ _ => exact (h.join _).reject ..
  | riskCex _ _ _ => exact ((h.join _).unwind ..).setPair _
  | unwindSend hm => exact ((h.join _).spawn (.unwindResult g) trivial).record (.sendOrder g .unwind _ _) (h.workers _ hm)
  | legRejected _ _ => exact h.reject ..
  | firstFill _ _ _ | lateFill _ _ _ _ => exact h.setPair _
  | secondFill _ _ _ => exact ((h.record (.bookFill g _ _ _) trivial).record (.bookFill g _ _ _) trivial).setPair _

end View.Routed

end

section
variable {m m' : OrderManager} {id : CStr 15} {v v' : SingleView} {e : ManagerEvent}

theorem SingleTask.Routed.moves {t t' : SingleTask} (h : t.Moves t') : t'.Routed := by
  cases h with
  | found o => rfl
  | _ => trivial

theorem SingleTask.Routed.stores {t t' : SingleTask} {o : Order} (h : t.Stores o (some t')) : t'.Routed := by
  cases h <;> trivial

theorem SingleView.Routed.step (h : v.Routed) (hs : SingleStep m id v e v') : v'.Routed := by
  have erased : ∀ (t : SingleTask), ∀ t' ∈ v.tasks.erase t, t'.Routed := fun t t' ht' =>
    h.tasks t' (List.mem_of_mem_erase ht')
  have next : ∀ (t : SingleTask) {t₀ : SingleTask}, t₀.Routed → ∀ t' ∈ t₀ :: v.tasks.erase t, t'.Routed := by
    intro t t₀ ht₀ t' ht'
    rcases List.mem_cons.mp ht' with rfl | ht'
    · exact ht₀
    · exact erased t t' ht'
  cases hs with
  | other _ => exact h
  | enter _ _ _ => exact ⟨h.log, fun t ht => (List.mem_cons.mp ht).elim (fun he => he ▸ trivial) (h.tasks t)⟩
  | move _ hm => exact ⟨h.log, next _ (SingleTask.Routed.moves hm)⟩
  | @store t o t' _ _ _ _ hm =>
    cases t' with
    | none => exact ⟨h.log, erased _⟩
    | some t' => exact ⟨h.log, next _ (SingleTask.Routed.stores hm)⟩
  | release _ | resultIdle _ _ => exact ⟨h.log, erased _⟩
  | result _ _ => exact ⟨h.log, erased _⟩
  | send hm =>
    refine ⟨fun x hx => ?_, next _ trivial⟩
    rcases List.mem_cons.mp hx with rfl | hx
    · exact h.tasks _ hm
    · exact h.log x hx
  | rejected _ _ _ => exact ⟨h.log, h.tasks⟩
  | filled _ _ _ => exact ⟨fun x hx => (List.mem_cons.mp hx).elim (fun he => he ▸ trivial) (h.log x), h.tasks⟩

/-- What was sent, and what is about to be, is routed. -/
structure OrderManager.AllRouted (m : OrderManager) : Prop where
  keyed : m.arb.Keyed
  pairs : ∀ g, (m.arb.view g).Routed
  singles : ∀ id, (m.single id).Routed

theorem OrderManager.AllRouted.step (h : m.AllRouted) (he : ∀ a ∈ m.arbEvent e, SameExchanges m.arb a)
    (hs : m.step e = some m') : m'.AllRouted where
  keyed := by
    rcases OrderManager.arb_step hs with ⟨-, harb⟩ | ⟨a, -, hstep⟩
    · exact harb ▸ h.keyed
    · exact h.keyed.step hstep
  pairs := by
    intro g
    rcases OrderManager.arb_step hs with ⟨-, harb⟩ | ⟨a, ha, hstep⟩
    · exact harb ▸ h.pairs g
    · exact (h.pairs g).step (step_view h.keyed hstep g) rfl (he a ha)
  singles := fun id => (h.singles id).step (OrderManager.single_step hs id)

theorem OrderManager.AllRouted.routed (h : m.AllRouted) : m.Routed := by
  refine ⟨fun x hx => (h.pairs x.groupId).log x (List.mem_filter.mpr ⟨hx, by simp⟩), fun x hx => ?_⟩
  cases x with
  | sendOrder gw o => exact (h.singles o.orderId).log _ (List.mem_filter.mpr ⟨hx, by simp [ManagerEffect.orderId]⟩)
  | processed r | bookFill id s price qty => trivial

theorem allRouted_init (signalConfig : SignalConfig) (portfolioConfig : PortfolioConfig) (arbConfig : ArbConfig)
    (hasGateway : Exchange → Bool) : (OrderManager.init signalConfig portfolioConfig arbConfig hasGateway).AllRouted where
  keyed := keyed_init arbConfig (.init portfolioConfig) hasGateway
  pairs := by
    intro g
    constructor
    · intro x hx
      cases hx
    · intro d hd
      cases hd
    · intro w hw
      cases hw
  singles := by
    intro id
    constructor
    · intro x hx
      cases hx
    · intro t ht
      cases ht

end

/-- In every run whose dispatches find the exchanges they copied, every order is
given to the gateway of its exchange. -/
theorem orders_routed (signalConfig : SignalConfig) (portfolioConfig : PortfolioConfig) (arbConfig : ArbConfig)
    (hasGateway : Exchange → Bool) (es : List ManagerEvent)
    (hsame : Along OrderManager.step (fun m e => ∀ a ∈ m.arbEvent e, SameExchanges m.arb a)
      (.init signalConfig portfolioConfig arbConfig hasGateway) es) :
    Always OrderManager.step OrderManager.Routed (.init signalConfig portfolioConfig arbConfig hasGateway) es := by
  exact Always.mono (fun _ h => OrderManager.AllRouted.routed h)
    (inv_always (I := OrderManager.AllRouted) (fun _ _ _ hi hc hs => hi.step hc hs) hsame (allRouted_init ..))

namespace Sample

def copying : List ManagerEvent :=
  [.processSignal cexSignal 1 1, .processSignal dexSignal 1 1, .arb (.dispatch (.enter groupId) 2)]

def handing (cexGateway : Exchange) : List ManagerEvent :=
  [.arb (.dispatch (.lookup groupId cexOrder dexOrder) 2),
   .arb (.dispatch (.sendCex groupId (some cexGateway) (some .HYPERLIQUID) cexOrder dexOrder) 2)]

end Sample

theorem orders_routed_dispatch : Always OrderManager.step OrderManager.Routed (.init {} {} {} fun _ => true)
    (Sample.copying ++ Sample.handing .BINANCE) :=
  orders_routed {} {} {} (fun _ => true) _ (by decide +kernel)

/-- A leg for the other CEX comes between the copies and the look-ups. -/
theorem not_orders_routed :
    ¬ ∀ (signalConfig : SignalConfig) (portfolioConfig : PortfolioConfig) (arbConfig : ArbConfig)
      (hasGateway : Exchange → Bool) (es : List ManagerEvent),
      Always OrderManager.step OrderManager.Routed (.init signalConfig portfolioConfig arbConfig hasGateway) es := by
  intro h
  let es := Sample.copying ++ .processSignal Sample.bybitSignal 2 2 :: Sample.handing .BYBIT
  obtain ⟨m, hm, hn⟩ : ∃ m, run OrderManager.step (.init {} {} {} fun _ => true) es = some m ∧
      some (decide m.Routed) = some false :=
    Option.bind_eq_some_iff.mp (show (run OrderManager.step (.init {} {} {} fun _ => true) es).bind
      (fun m => some (decide m.Routed)) = some false by decide +kernel)
  exact of_decide_eq_false (Option.some.inj hn)
    (always_iff.mp (h {} {} {} (fun _ => true) es) es [] m (List.append_nil _).symm hm)

end OrderExecution
