import OrderExecution.ArbStatus
import OrderExecution.LegFills

/-!
# The order that unwinds a pair

`start_unwind` copies the signal of the CEX leg, its quantity included, while
what is filled of the leg is what the last fill message said. The order flattens
the leg exactly when that message reported the whole quantity.
-/

namespace OrderExecution

open ArbCoordinator Machine

/-- The step from `c` to `c'` starts a thread that sends this order. -/
def Sends (c c' : ArbCoordinator) (g : CStr 15) (gateway : Exchange) (o : Order) : Prop :=
  c.workers.count (.unwindSend g gateway o) < c'.workers.count (.unwindSend g gateway o)

/-- The order takes back what is filled of the CEX leg. -/
structure Flattens (p : ArbPair) (gateway : Exchange) (o : Order) : Prop where
  gateway : gateway = p.cexLeg.signal.exchange
  exchange : o.signal.exchange = p.cexLeg.signal.exchange
  symbol : o.signal.symbol = p.cexLeg.signal.symbol
  side : o.signal.side = p.cexLeg.signal.side.opposite
  quantity : o.signal.quantity = p.cexLeg.filledQuantity
  net : p.cexLeg.filledQuantity * p.cexLeg.signal.side.sign + o.signal.quantity * o.signal.side.sign = 0

section
variable {c c' : ArbCoordinator} {g : CStr 15} {v : View} {p : ArbPair} {e : ArbEvent} {now : Int}

theorem flattens_unwindOrder_iff : Flattens p p.cexLeg.signal.exchange (c.unwindOrder p now) ↔
    p.cexLeg.filledQuantity = p.cexLeg.signal.quantity := by
  constructor
  · intro h
    exact h.quantity.symm
  · intro h
    refine ⟨rfl, rfl, rfl, rfl, h.symm, ?_⟩
    rw [h]
    simp only [unwindOrder, Side.sign_opposite]
    ring

theorem count_workers {w : Worker} (hw : w.groupId = g) : c.workers.count w = (c.view g).workers.count w := by
  rw [view, List.count_filter (by simpa using hw)]

theorem sends_iff_of_unwind (hv : (c'.view g).workers = (v.unwind c g p now).workers)
    (hw : ∀ gw o, v.workers.count (.unwindSend g gw o) = (c.view g).workers.count (.unwindSend g gw o))
    (gw : Exchange) (o : Order) : Sends c c' g gw o ↔
      c.hasGateway p.cexLeg.signal.exchange = true ∧ gw = p.cexLeg.signal.exchange ∧ o = c.unwindOrder p now := by
  unfold Sends
  rw [count_workers (g := g) rfl, count_workers (g := g) rfl, hv, ← hw gw o]
  unfold View.unwind
  cases hgw : c.hasGateway p.cexLeg.signal.exchange with
  | false => simp
  | true =>
    simp only [ite_true, true_and]
    by_cases he : gw = p.cexLeg.signal.exchange ∧ o = c.unwindOrder p now
    · rw [he.1, he.2, List.count_cons_self]
      exact iff_of_true (Nat.lt_succ_self _) ⟨rfl, rfl⟩
    · have hne : Worker.unwindSend g p.cexLeg.signal.exchange (c.unwindOrder p now) ≠ .unwindSend g gw o :=
        fun h => he (by cases h; exact ⟨rfl, rfl⟩)
      rw [List.count_cons_of_ne hne]
      exact iff_of_false (Nat.lt_irrefl _) he

theorem workers_riskWindow {r : OrderResult} (hk : c.Keyed)
    (h : c.step (.worker (.riskWindow g) r now) = some c') (hp : c.pairs.lookup g = some p)
    (hst : p.status = .CEX_FILLED) : (c'.view g).workers =
      (View.unwind { c.view g with workers := (c.view g).workers.erase (.riskWindow g) } c g p now).workers := by
  have hview := step_view hk h g
  have hpv : (c.view g).pair = some p := hp
  generalize c'.view g = v' at hview ⊢
  cases hview with
  | other ht => exact absurd rfl ht
  | riskIdle _ hidle => exact absurd hst (hidle p hpv).1
  | riskDex _ hq hdex =>
    rw [hpv] at hq
    cases hq
    rw [hst] at hdex
    cases hdex
  | riskCex _ hq _ =>
    rw [hpv] at hq
    cases hq
    rfl

theorem count_erase_unwindSend {w : Worker} (hw : ∀ gw o, w ≠ .unwindSend g gw o) (l : List Worker) (gw : Exchange)
    (o : Order) : (l.erase w).count (.unwindSend g gw o) = l.count (.unwindSend g gw o) :=
  List.count_erase_of_ne (hw gw o).symm

theorem workers_reject (hk : c.Keyed) (h : c.step e = some c')
    (hr : c.RejectOf g p false e) (hw : p.RejectUnwinds false) : ∃ (v : View) (now : Int),
      (∀ gw o, v.workers.count (.unwindSend g gw o) = (c.view g).workers.count (.unwindSend g gw o)) ∧
        (c'.view g).workers = (v.unwind c g p now).workers := by
  obtain ⟨r, now, rfl, -, -, hv⟩ | ⟨x, price, qty, now, rfl, -, hv⟩ := hr.view hk h
  · have hunw : (p.identified false r).RejectUnwinds false := (rejectUnwinds_identified ..).mpr hw
    refine ⟨{ c.view g with workers := (c.view g).workers.erase (.sendResult g false) }, now,
      count_erase_unwindSend (fun _ _ h => by cases h) _, ?_⟩
    rw [hv, View.reject, if_pos hunw]
    rfl
  · refine ⟨c.view g, now, fun _ _ => rfl, ?_⟩
    rw [hv, View.reject, if_pos hw]

/-- A step that runs `start_unwind` sends one order, where the exchange of the
CEX leg has a gateway. -/
theorem sends_iff (hk : c.Keyed) (h : c.step e = some c') (hs : StartsUnwind g c e)
    (hp : c.pairs.lookup g = some p) : ∃ now, ∀ gw o, Sends c c' g gw o ↔
      c.hasGateway p.cexLeg.signal.exchange = true ∧ gw = p.cexLeg.signal.exchange ∧ o = c.unwindOrder p now := by
  obtain ⟨p₀, hp₀, hcase⟩ := hs
  obtain rfl : p = p₀ := Option.some.inj (hp.symm.trans hp₀)
  obtain ⟨⟨r, now, rfl⟩, hst⟩ | ⟨hr, hw⟩ := hcase
  · exact ⟨now, sends_iff_of_unwind (workers_riskWindow hk h hp hst)
      (count_erase_unwindSend (fun _ _ h => by cases h) _)⟩
  · obtain ⟨v, now, hcount, hworkers⟩ := workers_reject hk h hr hw
    exact ⟨now, sends_iff_of_unwind hworkers hcount⟩

theorem sends_flatten_iff (hk : c.Keyed) (h : c.step e = some c') (hs : StartsUnwind g c e)
    (hp : c.pairs.lookup g = some p) :
    ((∃ gw o, Sends c c' g gw o) ∧ ∀ gw o, Sends c c' g gw o → Flattens p gw o) ↔
      c.hasGateway p.cexLeg.signal.exchange = true ∧ p.cexLeg.filledQuantity = p.cexLeg.signal.quantity := by
  obtain ⟨now, hsends⟩ := sends_iff hk h hs hp
  simp only [hsends]
  constructor
  · intro h
    obtain ⟨⟨gw, o, hgw, -⟩, hflat⟩ := h
    exact ⟨hgw, flattens_unwindOrder_iff.mp (hflat _ _ ⟨hgw, rfl, rfl⟩)⟩
  · intro h
    obtain ⟨hgw, hq⟩ := h
    refine ⟨⟨_, _, hgw, rfl, rfl⟩, fun gw o hsent => ?_⟩
    rw [hsent.2.1, hsent.2.2]
    exact flattens_unwindOrder_iff.mpr hq

theorem hasGateway_run {config : ArbConfig} {portfolio : PortfolioGuard} {hasGateway : Exchange → Bool}
    {es : List ArbEvent} (h : run step (init config portfolio hasGateway) es = some c) :
    c.hasGateway = hasGateway :=
  inv_run (I := fun c => c.hasGateway = hasGateway) (fun _ _ _ hc hs => (hasGateway_step hs).trans hc) rfl h

/-- Whenever `start_unwind` runs, an order goes out that flattens the CEX leg if
and only if the exchange has a gateway and the last fill message of the leg
reported the whole quantity. -/
theorem unwind_flattens_iff (config : ArbConfig) (portfolio : PortfolioGuard) (hasGateway : Exchange → Bool)
    {es : List ArbEvent} (hrun : run step (init config portfolio hasGateway) es = some c)
    (hp : c.pairs.lookup g = some p) (hs : StartsUnwind g c e) (h : c.step e = some c') :
    ((∃ gw o, Sends c c' g gw o) ∧ ∀ gw o, Sends c c' g gw o → Flattens p gw o) ↔
      hasGateway p.cexLeg.signal.exchange = true ∧
        (reported g true (init config portfolio hasGateway) (0, 0) es).2 = p.cexLeg.signal.quantity := by
  have hfilled := amounts_of_run hrun hp true
  rw [sends_flatten_iff (keyed_run hrun) h hs hp, hasGateway_run hrun, ← hfilled]
  rfl

end

namespace Sample

/-- Both orders are sent, and the CEX leg fills by this quantity. -/
def cexFilled (qty : ℚ) : List ArbEvent :=
  dispatch ++ acknowledged ++ [.onFill (exIdOf cexOrder.orderId) 100 qty false 4]

theorem window_closes (qty : ℚ) (h : (run step coordinator (cexFilled qty)).any fun c =>
    Worker.riskWindow groupId ∈ c.workers ∧ (c.pairs.lookup groupId).any fun p =>
      p.status = .CEX_FILLED ∧ p.cexLeg.signal = cexSignal ∧ p.cexLeg.filledQuantity = qty) :
    ∃ c c' p, run step coordinator (cexFilled qty) = some c ∧ c.pairs.lookup groupId = some p ∧
      StartsUnwind groupId c (.worker (.riskWindow groupId) {} 5) ∧
        c.step (.worker (.riskWindow groupId) {} 5) = some c' ∧ p.cexLeg.signal = cexSignal ∧
          p.cexLeg.filledQuantity = qty := by
  obtain ⟨c, hc, hcond⟩ := (Option.any_eq_true ..).mp h
  obtain ⟨hw, hpair⟩ := of_decide_eq_true hcond
  obtain ⟨p, hp, hcond⟩ := (Option.any_eq_true ..).mp hpair
  obtain ⟨hst, hsig, hq⟩ := of_decide_eq_true hcond
  exact ⟨c, _, p, hc, hp, ⟨p, hp, .inl ⟨⟨_, _, rfl⟩, hst⟩⟩, if_pos hw, hsig, hq⟩

theorem unwind_flattens_whole : ∃ c c' p, run step coordinator (cexFilled 1) = some c ∧
    c.pairs.lookup groupId = some p ∧ c.step (.worker (.riskWindow groupId) {} 5) = some c' ∧
      (∃ gw o, Sends c c' groupId gw o) ∧ ∀ gw o, Sends c c' groupId gw o → Flattens p gw o := by
  obtain ⟨c, c', p, hc, hp, hs, h, hsig, -⟩ := window_closes 1 (by decide +kernel)
  refine ⟨c, c', p, hc, hp, h, (unwind_flattens_iff {} (.init {}) (fun _ => true) hc hp hs h).mpr ⟨rfl, ?_⟩⟩
  rw [hsig]
  decide +kernel

/-- Half of the CEX leg fills, and the risk window closes. -/
theorem not_unwind_flattens : ¬ ∀ (config : ArbConfig) (portfolio : PortfolioGuard) (hasGateway : Exchange → Bool)
    (es : List ArbEvent) (c c' : ArbCoordinator) (g : CStr 15) (p : ArbPair) (e : ArbEvent),
      run step (init config portfolio hasGateway) es = some c → c.pairs.lookup g = some p →
        StartsUnwind g c e → c.step e = some c' → ∀ gw o, Sends c c' g gw o → Flattens p gw o := by
  intro h
  obtain ⟨c, c', p, hc, hp, hs, hstep, hsig, hq⟩ := window_closes (1 / 2) (by decide +kernel)
  have hflat := h {} (.init {}) (fun _ => true) _ c c' groupId p _ hc hp hs hstep
  have hk := keyed_run (show run step (init {} (.init {}) fun _ => true) _ = some c from hc)
  obtain ⟨now, hsends⟩ := sends_iff hk hstep hs hp
  have hgw : c.hasGateway p.cexLeg.signal.exchange = true := by rw [hasGateway_run hc]
  have hquantity := (hflat _ _ ((hsends _ _).mpr ⟨hgw, rfl, rfl⟩)).quantity
  rw [hq, show (c.unwindOrder p now).signal.quantity = p.cexLeg.signal.quantity from rfl, hsig] at hquantity
  exact absurd hquantity (by decide +kernel)

end Sample

end OrderExecution
