import OrderExecution.ArbDispatch
import OrderExecution.Routing

/-!
# What the manager hands to the gateways

A handover is an order, the gateway it is given to, and the part of the manager
that waits for the result. As long as the ids do not run over their field, no
order is handed over twice, and each goes to a gateway of its own kind, a CEX or
a DEX.
-/

namespace OrderExecution

open ArbCoordinator Machine

/-- Who calls `send_order`: `process_single_leg`, or the coordinator for an order
of a pair. -/
inductive Sender where
  | single
  | pair (groupId : CStr 15) (role : LegRole)
  deriving DecidableEq

structure Handover where
  sender : Sender
  gateway : Exchange
  order : Order
  deriving DecidableEq

/-- The calls of `send_order` in a step. -/
def ManagerEvent.handed : ManagerEvent → List Handover
  | .task (.send gw o) _ _ _ => [⟨.single, gw, o⟩]
  | .arb (.dispatch (.sendCex g gw _ o _) _) => gw.toList.map fun gw => ⟨.pair g .cexLeg, gw, o⟩
  | .arb (.dispatch (.sendDex g gw o) _) => gw.toList.map fun gw => ⟨.pair g .dexLeg, gw, o⟩
  | .arb (.worker (.unwindSend g gw o) _ _) => [⟨.pair g .unwind, gw, o⟩]
  | _ => []

def OrderManager.SentBy (m : OrderManager) (sender : Sender) (o : Order) : Prop :=
  match sender with
  | .single => m.Sent o
  | .pair g role => m.arb.Sent g role o

/-- The gateway is of the kind the order is for. -/
def Handover.Fits (x : Handover) : Prop := getExchangeType x.gateway = getExchangeType x.order.signal.exchange

/-- Where a handover comes from. -/
inductive OrderManager.Hands (m : OrderManager) : ManagerEvent → Handover → Prop where
  | single {gw o answers r now} : .send gw o ∈ m.tasks →
      Hands m (.task (.send gw o) answers r now) ⟨.single, gw, o⟩
  | cexLeg {g gw gw₂ o₁ o₂ now} : .sendCex g (some gw) gw₂ o₁ o₂ ∈ m.arb.calls →
      Hands m (.arb (.dispatch (.sendCex g (some gw) gw₂ o₁ o₂) now)) ⟨.pair g .cexLeg, gw, o₁⟩
  | dexLeg {g gw o now} : .sendDex g (some gw) o ∈ m.arb.calls →
      Hands m (.arb (.dispatch (.sendDex g (some gw) o) now)) ⟨.pair g .dexLeg, gw, o⟩
  | unwind {g gw o r now} : .unwindSend g gw o ∈ m.arb.workers →
      Hands m (.arb (.worker (.unwindSend g gw o) r now)) ⟨.pair g .unwind, gw, o⟩

theorem OrderManager.hands_of_step {m om : OrderManager} {e : ManagerEvent} {x : Handover} (hs : m.step e = some om)
    (hx : x ∈ e.handed) : m.Hands e x := by
  cases e with
  | task t answers r now =>
    simp only [OrderManager.step] at hs
    split at hs
    · next ht =>
      cases t with
      | send gw o =>
        obtain rfl := List.mem_singleton.mp hx
        exact .single ht
      | _ => cases hx
    · cases hs
  | arb a =>
    simp only [OrderManager.step] at hs
    split at hs
    · obtain ⟨c, hc, -⟩ := Option.map_eq_some_iff.mp hs
      cases a with
      | dispatch d now =>
        simp only [ArbCoordinator.step] at hc
        split at hc
        · next hd =>
          cases d with
          | sendCex g gw gw₂ o₁ o₂ =>
            obtain ⟨gw', hgw, rfl⟩ := List.mem_map.mp hx
            obtain rfl := Option.mem_toList.mp hgw
            exact .cexLeg hd
          | sendDex g gw o =>
            obtain ⟨gw', hgw, rfl⟩ := List.mem_map.mp hx
            obtain rfl := Option.mem_toList.mp hgw
            exact .dexLeg hd
          | _ => cases hx
        · cases hc
      | worker w r now =>
        simp only [ArbCoordinator.step] at hc
        split at hc
        · next hw =>
          cases w with
          | unwindSend g gw o =>
            obtain rfl := List.mem_singleton.mp hx
            exact .unwind hw
          | _ => cases hx
        · cases hc
      | _ => cases hx
    · cases hs
  | _ => cases hx

/-! ## The orders of a pair -/

/-- What a call has found, and the orders it holds, are of the right kinds. -/
def DispatchCall.Placed : DispatchCall → Prop
  | .lookup _ o₁ o₂ => o₁.signal.isCexLeg = true ∧ o₂.signal.isCexLeg = false
  | .sendCex _ gw₁ gw₂ o₁ o₂ => (o₁.signal.isCexLeg = true ∧ ∀ x ∈ gw₁, getExchangeType x = .CEX) ∧
      o₂.signal.isCexLeg = false ∧ ∀ x ∈ gw₂, getExchangeType x = .DEX
  | .sendDex _ gw o => o.signal.isCexLeg = false ∧ ∀ x ∈ gw, getExchangeType x = .DEX
  | .enter _ | .startMonitor _ => True

def Worker.Placed : Worker → Prop
  | .unwindSend _ gw o => gw = o.signal.exchange
  | .deadline _ | .sendResult _ _ | .riskWindow _ | .unwindResult _ => True

/-- Each order of the pair is handed over once at most, and to the right kind of
gateway. -/
structure View.HandedOnce (g : CStr 15) (v : View) : Prop where
  stage : ∃ s, v.Stage g s
  unwinds : (v.unwindOrders.map Order.orderId).Nodup
  paired : v.calls ≠ [] → ∃ p, v.pair = some p ∧ p.bothLegsPresent = true
  typed : ∀ p b, v.pair = some p → p.hasLeg b = true → (p.leg b).signal.isCexLeg = b
  calls : ∀ d ∈ v.calls, d.Placed
  workers : ∀ w ∈ v.workers, w.Placed

section
variable {c c' : ArbCoordinator} {g : CStr 15} {v v' : View} {e : ArbEvent} {p : ArbPair}

theorem View.unwindOrders_join {w : Worker} (hw : w.unwindOrder = none) :
    View.unwindOrders { v with workers := v.workers.erase w } = v.unwindOrders := by
  simp only [View.unwindOrders, filterMap_erase_of_none hw]

theorem View.unwindOrders_unwind (c : ArbCoordinator) (g : CStr 15) (p : ArbPair) (now : Int) :
    (v.unwind c g p now).unwindOrders = v.unwindOrders ∨
      (v.unwind c g p now).unwindOrders = c.unwindOrder p now :: v.unwindOrders := by
  unfold View.unwind
  split
  · exact .inr rfl
  · exact .inl rfl

theorem View.unwindOrders_reject (c : ArbCoordinator) (g : CStr 15) (p : ArbPair) (b : Bool) (now : Int) :
    (v.reject c g p b now).unwindOrders = v.unwindOrders ∨ p.RejectUnwinds b ∧
      (v.reject c g p b now).unwindOrders = c.unwindOrder p now :: v.unwindOrders := by
  unfold View.reject
  split
  · next hr => exact (v.unwindOrders_unwind c g p now).imp_right fun hu => ⟨hr, hu⟩
  · exact .inl rfl

/-- A step starts one unwind at most, whose order has an id of its own. -/
theorem PairStep.unwindOrders (h : PairStep c g v e v') (hc : v.pair = c.pairs.lookup g) :
    v'.unwindOrders.Perm v.unwindOrders ∨
      c.draws e = true ∧ ∃ p now, v'.unwindOrders.Perm (c.unwindOrder p now :: v.unwindOrders) := by
  cases h with
  | addLeg _ _ =>
    left
    simp only [View.unwindOrders]
    split <;> exact .refl _
  | sendCex _ | sendDex _ => exact .inl (.of_eq (View.unwindOrders_send ..))
  | startMonitor _ | enterDispatches _ _ _ _ => exact .inl (.refl _)
  | deadlineIdle _ _ | deadline _ _ _ _ | sendResultIdle _ _ | sendSucceeded _ _ _ _ | riskIdle _ _ | riskDex _ _ _
  | unwindResultIdle _ _ | unwindResult _ _ => exact .inl (.of_eq (View.unwindOrders_join rfl))
  | @sendFailed b r now p h₀ h₁ hl hr =>
    have hjoin := View.unwindOrders_join (v := v) (w := .sendResult g b) rfl
    rcases View.unwindOrders_reject (v := { v with workers := v.workers.erase (.sendResult g b) }) c g
      (p.identified b r) b now with hu | ⟨hru, hu⟩
    · exact .inl (.of_eq (hu.trans hjoin))
    · rw [rejectUnwinds_identified] at hru
      exact .inr ⟨by simp [draws, ← hc, h₁, hl, hr, hru], _, _, .of_eq (hu.trans (by rw [hjoin]))⟩
  | @riskCex r now p h₀ h₁ h₂ =>
    have hjoin := View.unwindOrders_join (v := v) (w := .riskWindow g) rfl
    rcases View.unwindOrders_unwind (v := { v with workers := v.workers.erase (.riskWindow g) }) c g p now with hu | hu
    · exact .inl (.of_eq (hu.trans hjoin))
    · exact .inr ⟨by simp [draws, ← hc, h₁, h₂], p, now, .of_eq (hu.trans (by rw [hjoin]))⟩
  | @unwindSend gw o r now h₀ =>
    -- the order leaves the thread for the log
    have hperm := (List.perm_cons_erase h₀).filterMap Worker.unwindOrder
    rw [List.filterMap_cons_some (by rfl)] at hperm
    simp only [View.unwindOrders]
    rw [List.filterMap_cons_none (by rfl), List.filterMap_cons_some (by rfl)]
    exact .inl (List.perm_middle.trans ((hperm.append_right _).symm))
  | @legRejected x price qty now p b h₀ h₁ =>
    rcases v.unwindOrders_reject c g p b now with hu | ⟨hru, hu⟩
    · exact .inl (.of_eq hu)
    · exact .inr ⟨by simp [draws, h₀, hru], p, now, .of_eq hu⟩
  | _ => exact .inl (.refl _)

/-- Both legs of a pair stay. -/
theorem PairStep.bothLegs (h : PairStep c g v e v') (hp : v.pair = some p) (hb : p.bothLegsPresent = true) :
    ∃ p', v'.pair = some p' ∧ p'.bothLegsPresent = true := by
  by_cases hadd : ∃ s now, e = .addLeg s now ∧ s.groupId = g
  · obtain ⟨s, now, rfl, hg⟩ := hadd
    cases h with
    | other ht => exact absurd (congrArg some hg) ht
    | @addLeg _ _ p' _ hp' =>
      refine ⟨p', rfl, ArbPair.bothLegsPresent_iff.mpr fun b => ?_⟩
      rw [hp, Option.getD_some] at hp'
      rw [hp']
      by_cases hbs : b = (c.newOrder s now).signal.isCexLeg
      · rw [hbs]
        exact hasLeg_withLeg ..
      · rw [hasLeg_withLeg_ne p _ hbs]
        exact ArbPair.bothLegsPresent_iff.mp hb b
  · simp only [not_exists, not_and] at hadd
    obtain ⟨p', hp', hs⟩ := h.legs_after hadd hp
    exact ⟨p', hp', hs.bothLegsPresent.trans hb⟩

theorem Signal.isCexLeg_iff {s : Signal} : s.isCexLeg = true ↔ getExchangeType s.exchange = .CEX := decide_eq_true_iff

theorem Signal.not_isCexLeg_iff {s : Signal} : s.isCexLeg = false ↔ getExchangeType s.exchange = .DEX := by
  unfold Signal.isCexLeg
  cases getExchangeType s.exchange <;> decide

theorem View.HandedOnce.calls_step (h : v.HandedOnce g) (hs : PairStep c g v e v') : ∀ d ∈ v'.calls, d.Placed := by
  have erased : ∀ d₀, ∀ d ∈ v.calls.erase d₀, d.Placed := fun d₀ d hd => h.calls d (List.mem_of_mem_erase hd)
  have next : ∀ d₀ (d₁ : DispatchCall), d₁.Placed → ∀ d ∈ d₁ :: v.calls.erase d₀, d.Placed := by
    intro d₀ d₁ h₁ d hd
    rcases List.mem_cons.mp hd with rfl | hd
    · exact h₁
    · exact erased d₀ d hd
  have legs : ∀ {p : ArbPair} {d : DispatchCall}, d ∈ v.calls → v.pair = some p →
      p.cexLeg.signal.isCexLeg = true ∧ p.dexLeg.signal.isCexLeg = false := by
    intro p d hd hp
    obtain ⟨q, hq, hboth⟩ := h.paired (List.ne_nil_of_mem hd)
    obtain rfl := Option.some.inj (hp.symm.trans hq)
    have hb := ArbPair.bothLegsPresent_iff.mp hboth
    exact ⟨h.typed p true hp (hb true), h.typed p false hp (hb false)⟩
  cases hs with
  | addLeg _ _ =>
    intro d hd
    simp only at hd
    split at hd
    · rcases List.mem_cons.mp hd with rfl | hd
      · trivial
      · exact h.calls d hd
    · exact h.calls d hd
  | enterReturns _ _ | enterRefused _ _ _ _ | lookupFails _ _ | startMonitor _ => exact erased _
  | enterDispatches hd hp _ _ =>
    have hkinds := legs hd hp
    exact next _ (.lookup g _ _) hkinds
  | @lookup now o₁ o₂ p hd hp =>
    obtain ⟨h₁, h₂⟩ := h.calls _ hd
    obtain ⟨hcex, hdex⟩ := legs hd hp
    refine next _ (.sendCex g _ _ o₁ o₂) ⟨⟨h₁, fun x hx => ?_⟩, h₂, fun x hx => ?_⟩
    · rw [(eq_of_findGateway hx).2]
      exact Signal.isCexLeg_iff.mp hcex
    · rw [(eq_of_findGateway hx).2]
      exact Signal.not_isCexLeg_iff.mp hdex
  | @sendCex now gw₁ gw₂ o₁ o₂ hd => exact next _ (.sendDex g gw₂ o₂) (h.calls _ hd).2
  | sendDex _ => exact next _ (.startMonitor g) trivial
  | sendFailed _ _ _ _ | legRejected _ _ =>
    intro d hd
    rw [View.calls_reject] at hd
    exact h.calls d hd
  | _ => exact h.calls

theorem View.HandedOnce.workers_step (h : v.HandedOnce g) (hs : PairStep c g v e v') : ∀ w ∈ v'.workers, w.Placed := by
  have erased : ∀ w₀, ∀ w ∈ v.workers.erase w₀, w.Placed := fun w₀ w hw => h.workers w (List.mem_of_mem_erase hw)
  have next : ∀ {l : List Worker} (w₁ : Worker), (∀ w ∈ l, w.Placed) → w₁.Placed → ∀ w ∈ w₁ :: l, w.Placed := by
    intro l w₁ hl h₁ w hw
    rcases List.mem_cons.mp hw with rfl | hw
    · exact h₁
    · exact hl w hw
  have unwinds : ∀ {u : View} (p : ArbPair) (now : Int), (∀ w ∈ u.workers, w.Placed) →
      ∀ w ∈ (u.unwind c g p now).workers, w.Placed := by
    intro u p now hu
    unfold View.unwind
    split
    · exact next (.unwindSend g _ _) hu rfl
    · exact hu
  have rejects : ∀ {u : View} (p : ArbPair) (b : Bool) (now : Int), (∀ w ∈ u.workers, w.Placed) →
      ∀ w ∈ (u.reject c g p b now).workers, w.Placed := by
    intro u p b now hu
    unfold View.reject
    split
    · exact unwinds p now hu
    · exact hu
  cases hs with
  | addLeg _ _ =>
    intro w hw
    simp only at hw
    split at hw
    · exact next (.deadline g) h.workers trivial w hw
    · exact h.workers w hw
  | @sendCex now gw₁ gw₂ o₁ o₂ _ =>
    cases gw₁ with
    | none => exact h.workers
    | some x => exact next (.sendResult g true) h.workers trivial
  | @sendDex now gw o _ =>
    cases gw with
    | none => exact h.workers
    | some x => exact next (.sendResult g false) h.workers trivial
  | startMonitor _ => exact next (.riskWindow g) h.workers trivial
  | deadlineIdle _ _ | deadline _ _ _ _ | sendResultIdle _ _ | sendSucceeded _ _ _ _ | riskIdle _ _ | riskDex _ _ _
  | unwindResultIdle _ _ | unwindResult _ _ => exact erased _
  | sendFailed _ _ _ _ => exact rejects _ _ _ (erased _)
  | riskCex _ _ _ => exact unwinds _ _ (erased _)
  | unwindSend _ => exact next (.unwindResult g) (erased _) trivial
  | legRejected _ _ => exact rejects _ _ _ h.workers
  | _ => exact h.workers

theorem View.HandedOnce.paired_step (h : v.HandedOnce g) (hs : PairStep c g v e v') (hn : v'.calls ≠ []) :
    ∃ p, v'.pair = some p ∧ p.bothLegsPresent = true := by
  by_cases hv : v.calls = []
  · cases hs with
    | @addLeg _ _ p _ _ =>
      refine ⟨p, rfl, ?_⟩
      by_contra hb
      simp only [if_neg hb] at hn
      exact hn hv
    | enterReturns hd _ | enterRefused hd _ _ _ | enterDispatches hd _ _ _ | lookupFails hd _ | lookup hd _
    | sendCex hd | sendDex hd | startMonitor hd =>
      rw [hv] at hd
      cases hd
    | sendFailed _ _ _ _ | legRejected _ _ =>
      rw [View.calls_reject] at hn
      exact absurd hv hn
    | _ => exact absurd hv hn
  · obtain ⟨p, hp, hb⟩ := h.paired hv
    exact hs.bothLegs hp hb

theorem View.HandedOnce.step (h : v.HandedOnce g) (hs : PairStep c g v e v') (hc : v.pair = c.pairs.lookup g)
    (hfresh : c.draws e = true → ∀ o ∈ v.unwindOrders, o.orderId ≠ storedOrderId c.uuid.orderCounter) :
    v'.HandedOnce g where
  stage := by
    obtain ⟨s, hv⟩ := h.stage
    rcases hs.stage hv with hv' | ⟨-, now, p, -, -, -, -, -, -, hv'⟩
    · exact ⟨s, hv'⟩
    · exact ⟨_, hv'⟩
  unwinds := by
    rcases hs.unwindOrders hc with hperm | ⟨hd, p, now, hperm⟩
    · exact (hperm.map _).nodup_iff.mpr h.unwinds
    · refine (hperm.map _).nodup_iff.mpr (List.nodup_cons.mpr ⟨fun hm => ?_, h.unwinds⟩)
      obtain ⟨o, ho, hid⟩ := List.mem_map.mp hm
      exact hfresh hd o ho (hid.trans (orderId_unwindOrder c p now))
  paired := h.paired_step hs
  typed := by
    intro p' b hp' hb
    rcases hs.leg_origin hp' hb with ⟨p, hp, hb, -, hsig⟩ | ⟨s, now, -, -, hsb, -, hsig⟩
    · rw [hsig]
      exact h.typed p b hp hb
    · rw [hsig, hsb]
  calls := h.calls_step hs
  workers := h.workers_step hs

theorem View.orders_of_unwindOrders {o : Order} (ho : o ∈ v.unwindOrders) : (.unwind, o) ∈ v.orders := by
  rw [View.mem_unwindOrders] at ho
  rw [View.mem_orders]
  rcases ho with ⟨w, hw, hwo⟩ | ⟨x, hx, hxo⟩
  · cases w <;> cases hwo
    exact .inr (.inl ⟨_, hw, List.mem_singleton_self _⟩)
  · refine .inr (.inr ⟨x, hx, ?_⟩)
    cases x with
    | sendOrder g' role gw o' => cases role <;> cases hxo; exact List.mem_singleton_self _
    | _ => cases hxo

theorem View.mem_legSends {b : Bool} {gw : Exchange} {o : Order} (h : .sendOrder g (legRole b) gw o ∈ v.log) :
    .sendOrder g (legRole b) gw o ∈ v.legSends :=
  List.mem_filter.mpr ⟨h, by cases b <;> rfl⟩

theorem View.Stage.sending {s : Option (Order × Order)} {d : DispatchCall} (h : v.Stage g s) (hd : d ∈ v.ongoing) :
    ∃ o₁ o₂, Sending g o₁ o₂ [d] v.legSends := by
  cases h with
  | before _ hnone _ =>
    rw [hnone] at hd
    cases hd
  | @after o₁ o₂ _ _ hs =>
    rw [hs.eq_singleton hd] at hs
    exact ⟨o₁, o₂, hs⟩

end

/-! ## The market -/

section
variable {c : ArbCoordinator} {g : CStr 15} {role : LegRole} {o : Order}

theorem ArbCoordinator.sent_view : c.Sent g role o ↔ ∃ gw, .sendOrder g role gw o ∈ (c.view g).log := by
  constructor
  · rintro ⟨x, hx, hsend⟩
    cases x with
    | sendOrder g' role' gw o' =>
      obtain ⟨rfl, rfl, rfl⟩ := hsend
      exact ⟨gw, List.mem_filter.mpr ⟨hx, by simp [ArbEffect.groupId]⟩⟩
    | _ => exact hsend.elim
  · rintro ⟨gw, hx⟩
    exact ⟨_, List.mem_of_mem_filter hx, rfl, rfl, rfl⟩

end

/-- An orderly market whose coordinator hands every order over once at most. -/
structure Market.HandsOnce (m : Market) : Prop where
  orderly : m.Orderly
  pairs : ∀ g, (m.om.arb.view g).HandedOnce g

namespace Market

section
variable {m m' : Market} {me : MarketEvent}

theorem handsOnce_init (signalConfig : SignalConfig) (portfolioConfig : PortfolioConfig) (arbConfig : ArbConfig)
    (hasGateway : Exchange → Bool) : (init signalConfig portfolioConfig arbConfig hasGateway).HandsOnce where
  orderly := orderly_init ..
  pairs := by
    intro g
    refine ⟨⟨none, .before List.not_mem_nil rfl rfl⟩, List.nodup_nil, ?_, ?_, ?_, ?_⟩
    · intro hn
      exact absurd rfl hn
    · intro p b hp
      cases hp
    · intro d hd
      cases hd
    · intro w hw
      cases hw

theorem HandsOnce.step (h : m.HandsOnce) (hn : m.om.arb.uuid.orderCounter < 10 ^ 11) (hs : m.step me = some m') :
    m'.HandsOnce where
  orderly := h.orderly.step hn hs
  pairs := by
    intro g
    rcases arb_step hs with ⟨-, harb⟩ | ⟨a, -, hstep⟩
    · rw [harb]
      exact h.pairs g
    · refine (h.pairs g).step (step_view h.orderly.tagged.keyed hstep g) rfl fun _ o ho => ?_
      have hu : (m.om.arb.view g).Uses .unwind o.orderId := .inr ⟨o, View.orders_of_unwindOrders ho, rfl⟩
      exact (h.orderly.tagged.drawn g .unwind _ hu).ne_stored hn

end

section
variable {m : Market} {e : ManagerEvent} {om : OrderManager} {x : Handover} {sender sender' : Sender} {o o' : Order}

/-- The task that hands over a single-leg order found the gateway of its exchange. -/
theorem Orderly.send_stored (h : m.Orderly) {gw : Exchange} (ht : .send gw o ∈ m.om.tasks) :
    gw = o.signal.exchange ∧ m.om.single o.orderId = ⟨[.send gw o], some o, []⟩ := by
  have hmem : .send gw o ∈ (m.om.single o.orderId).tasks := OrderManager.mem_tasks_single ht rfl
  have hlife := h.life o.orderId
  generalize m.om.single o.orderId = v at hmem hlife
  cases hlife with
  | undrawn | refused _ _ | answered _ _ _ => cases hmem
  | @called t ht _ =>
    rw [← List.mem_singleton.mp hmem] at ht
    rcases ht with ht | ht <;> cases ht
  | @stored t ht _ _ =>
    obtain rfl := List.mem_singleton.mp hmem
    rcases ht with ht | ht | ht
    · cases ht
    · cases ht
    · injection ht with hgw
      exact ⟨hgw, rfl⟩
  | storeRefused _ _ | store _ _ | storeRejected _ _ _ _ _ | release _ _ | waiting _ _ =>
    cases List.mem_singleton.mp hmem

theorem HandsOnce.handed_fits (h : m.HandsOnce) (hs : m.om.step e = some om) (hx : x ∈ e.handed) : x.Fits := by
  cases OrderManager.hands_of_step hs hx with
  | single ht => exact congrArg getExchangeType (h.orderly.send_stored ht).1
  | @cexLeg g gw _ _ _ _ hd =>
    obtain ⟨⟨ho, hgw⟩, -⟩ := (h.pairs g).calls _ (mem_calls_view hd rfl)
    rw [Handover.Fits, Signal.isCexLeg_iff.mp ho]
    exact hgw gw rfl
  | @dexLeg g gw _ _ hd =>
    obtain ⟨ho, hgw⟩ := (h.pairs g).calls _ (mem_calls_view hd rfl)
    rw [Handover.Fits, Signal.not_isCexLeg_iff.mp ho]
    exact hgw gw rfl
  | @unwind g _ _ _ _ hw => exact congrArg getExchangeType ((h.pairs g).workers _ (mem_workers_view hw rfl))

/-- What is handed over was sent then. -/
theorem HandsOnce.handed_sent (h : m.HandsOnce) (hs : m.om.step e = some om) (hx : x ∈ e.handed) :
    om.SentBy x.sender x.order := by
  cases OrderManager.hands_of_step hs hx with
  | @single gw o answers r now ht =>
    obtain rfl := (h.orderly.send_stored ht).1
    simp only [OrderManager.step, if_pos ht, Option.some.injEq] at hs
    subst hs
    exact List.mem_cons_self ..
  | cexLeg hd =>
    simp only [OrderManager.step, ArbEvent.isOwn, ite_true, ArbCoordinator.step, if_pos hd, Option.map_some,
      Option.some.injEq] at hs
    subst hs
    exact ⟨_, List.mem_cons_self .., rfl, rfl, rfl⟩
  | dexLeg hd =>
    simp only [OrderManager.step, ArbEvent.isOwn, ite_true, ArbCoordinator.step, if_pos hd, Option.map_some,
      Option.some.injEq] at hs
    subst hs
    exact ⟨_, List.mem_cons_self .., rfl, rfl, rfl⟩
  | unwind hw =>
    simp only [OrderManager.step, ArbEvent.isOwn, ite_true, ArbCoordinator.step, if_pos hw, Option.map_some,
      Option.some.injEq] at hs
    subst hs
    exact ⟨_, List.mem_cons_self .., rfl, rfl, rfl⟩

/-- An order of a pair that is used for one role was not sent for that, if no
send of that role has its id. -/
theorem HandsOnce.not_sentBy_of_uses (h : m.HandsOnce) (g : CStr 15) (role : LegRole) {id : CStr 15}
    (hu : (m.om.arb.view g).Uses role id)
    (hnone : ∀ gw o, .sendOrder g role gw o ∈ (m.om.arb.view g).log → o.orderId ≠ id)
    (hs : m.om.SentBy sender o) : o.orderId ≠ id := by
  rintro rfl
  cases sender with
  | single => exact h.orderly.tagged.apart g role _ hu (h.orderly.sent_others hs)
  | pair g' role' =>
    obtain ⟨rfl, rfl⟩ := h.orderly.tagged.unique _ _ _ _ _ hu (World.sent_uses (c := m.om.arb) hs)
    obtain ⟨gw, hlog⟩ := ArbCoordinator.sent_view.mp hs
    exact hnone gw o hlog rfl

/-- What is handed over was not sent before. -/
theorem HandsOnce.handed_fresh (h : m.HandsOnce) (hs : m.om.step e = some om) (hx : x ∈ e.handed)
    (hsent : m.om.SentBy sender o) : o.orderId ≠ x.order.orderId := by
  cases OrderManager.hands_of_step hs hx with
  | @single gw o' answers r now ht =>
    have hv := (h.orderly.send_stored ht).2
    intro hid
    cases sender with
    | single =>
      have hlog := OrderManager.sent_single.mp hsent
      rw [hid, hv] at hlog
      cases hlog
    | pair g role =>
      refine h.orderly.not_arbSent ?_ g role hsent
      by_contra hn
      rw [hid] at hn
      rw [h.orderly.drawn _ hn] at hv
      cases hv
  | @cexLeg g gw gw₂ o₁ o₂ now hd =>
    have hmem := mem_calls_view (g := g) hd rfl
    refine h.not_sentBy_of_uses g .cexLeg
      (.inr ⟨o₁, View.mem_orders.mpr (.inl ⟨_, hmem, by simp [DispatchCall.orders]⟩), rfl⟩) ?_ hsent
    intro y q hq
    have hleg := View.mem_legSends (b := true) hq
    obtain ⟨s, hstage⟩ := (h.pairs g).stage
    obtain ⟨q₁, q₂, hsending⟩ := hstage.sending (View.mem_ongoing hmem rfl)
    generalize (m.om.arb.view g).legSends = r at hleg hsending
    cases hsending
    cases hleg
  | @dexLeg g gw o₂ now hd =>
    have hmem := mem_calls_view (g := g) hd rfl
    refine h.not_sentBy_of_uses g .dexLeg
      (.inr ⟨o₂, View.mem_orders.mpr (.inl ⟨_, hmem, by simp [DispatchCall.orders]⟩), rfl⟩) ?_ hsent
    intro y q hq
    have hleg := View.mem_legSends (b := false) hq
    obtain ⟨s, hstage⟩ := (h.pairs g).stage
    obtain ⟨q₁, q₂, hsending⟩ := hstage.sending (View.mem_ongoing hmem rfl)
    generalize (m.om.arb.view g).legSends = r at hleg hsending
    -- only the CEX leg was sent before
    cases hsending with
    | cexSent gw₁ gw₂ => cases gw₁ <;> simp [sendTo, legRole] at hleg
  | @unwind g gw o₁ r now hw =>
    have hmem := mem_workers_view (g := g) hw rfl
    have hworker : o₁ ∈ (m.om.arb.view g).workers.filterMap Worker.unwindOrder :=
      List.mem_filterMap.mpr ⟨_, hmem, rfl⟩
    refine h.not_sentBy_of_uses g .unwind
      (.inr ⟨o₁, View.orders_of_unwindOrders (List.mem_append_left _ hworker), rfl⟩) ?_ hsent
    intro y q hq hid
    have hnodup := (h.pairs g).unwinds
    rw [View.unwindOrders, List.map_append] at hnodup
    exact List.disjoint_of_nodup_append hnodup (List.mem_map_of_mem hworker)
      (List.mem_map.mpr ⟨q, List.mem_filterMap.mpr ⟨_, hq, rfl⟩, hid⟩)

end

end Market

end OrderExecution
