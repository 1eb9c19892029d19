import OrderExecution.GuardFrames
import OrderExecution.MarketSteps
import OrderExecution.SingleCalls

/-!
# Fills of a single order, one after another

Each message writes its own quantity and price over those of the one before,
and makes the order `FILLED`; the used margin under the key is that of the last
message. Only the position adds up.
-/

namespace OrderExecution

open FlatHashMap Machine

namespace PortfolioGuard

/-- No free slot of the position table has a stale value. -/
structure Posted (g : PortfolioGuard) : Prop where
  wf : g.Wf
  fresh : FlatHashMap.Fresh g.state.positions

variable {g : PortfolioGuard}

theorem Posted.apply (h : g.Posted) (op : GuardOp) : (g.apply op).Posted := by
  refine ⟨h.wf.apply op, ?_⟩
  cases op with
  | checkAndReserve s => exact (state_positions_checkAndReserve s).symm ▸ h.fresh
  | checkAndReservePair cex dex => exact (state_positions_checkAndReservePair cex dex).symm ▸ h.fresh
  | onFill s price qty => exact h.fresh.update h.wf.positions _ _ _
  | releaseMargin s => exact (state_positions_releaseMargin s).symm ▸ h.fresh

/-- The tables of used margins and of positions can take a fill of `s`. -/
structure RoomFor (g : PortfolioGuard) (s : Signal) : Prop where
  used : g.usedUnder (marginKey s) ≠ none ∨ g.state.marginUsed.size < 128
  position : g.state.positions.find hashKey s.symbol.bytes ≠ none ∨ g.state.positions.size < 128

instance (g : PortfolioGuard) (s : Signal) : Decidable (g.RoomFor s) :=
  decidable_of_iff ((g.usedUnder (marginKey s) ≠ none ∨ g.state.marginUsed.size < 128) ∧
    (g.state.positions.find hashKey s.symbol.bytes ≠ none ∨ g.state.positions.size < 128))
    ⟨fun h => ⟨h.1, h.2⟩, fun h => ⟨h.used, h.position⟩⟩

theorem position_onFill_iff (h : g.Posted) {s : Signal} (price : ℚ) {qty : ℚ} (hq : qty * s.side.sign ≠ 0) :
    (g.onFill s price qty).position s.symbol = g.position s.symbol + qty * s.side.sign ↔
      g.state.positions.find hashKey s.symbol.bytes ≠ none ∨ g.state.positions.size < 128 := by
  let dummy := (g.state.marginUsed.update hashKey g.dummy (marginKey s) fun _ => g.usedMargin s price qty).2
  have hu := (update_spec h.wf.positions (symbol_fits s) dummy (· + qty * s.side.sign)).2
  constructor
  · intro hpos
    cases hu with
    | changed v rest he _ =>
      rw [find_some_of_perm h.wf.positions he]
      exact .inl (Option.some_ne_none v)
    | added p _ _ _ hs _ => exact .inr hs
    | lost _ _ he =>
      have hsame : (g.onFill s price qty).position s.symbol = g.position s.symbol :=
        congrArg (fun t : Table => (t.find hashKey s.symbol.bytes).getD 0) he
      rw [hsame] at hpos
      exact absurd (left_eq_add.mp hpos) hq
  · intro hroom
    exact congrArg (Option.getD · 0)
      (find_update_fresh h.wf.positions h.fresh (symbol_fits s) dummy (· + qty * s.side.sign) hroom)

end PortfolioGuard

theorem Side.sign_ne_zero (side : Side) : side.sign ≠ 0 := by
  cases side <;> simp [Side.sign]

namespace OrderManager

def deliver (m : OrderManager) (ms : List (Fill × Int)) : OrderManager :=
  ms.foldl (fun m x => m.messageCall x.1 x.2) m

/-- The order is acknowledged, and its exchange id names nothing else. -/
structure Acknowledged (m : OrderManager) (id : CStr 15) (o : Order) : Prop where
  status : o.status = .ACKNOWLEDGED
  found : m.findOrder o.exchangeOrderId = some (id, o)
  alone : m.arb.findLeg o.exchangeOrderId.bytes = none

/-- A message of a fill of the order. -/
structure FillOf (o : Order) (f : Fill) : Prop where
  named : f.exchangeOrderId = o.exchangeOrderId
  qty : 0 < f.filledQty
  price : 0 < f.fillPrice

/-- The messages of an order that is filled in parts: only the last says that it is final. -/
structure FilledInParts (o : Order) (parts : List (Fill × Int)) (last : Fill × Int) : Prop where
  fills : ∀ x ∈ parts ++ [last], FillOf o x.1
  parts : ∀ x ∈ parts, x.1.isFinal = false
  last : last.1.isFinal = true

def totalQty (ms : List (Fill × Int)) : ℚ := (ms.map fun x => x.1.filledQty).sum

def totalCost (ms : List (Fill × Int)) : ℚ := (ms.map fun x => x.1.filledQty * x.1.fillPrice).sum

/-- The law of partial fills: what the order, the guard and the position are
after the messages, and that the order is not `FILLED` before the last. -/
structure Accumulates (m : OrderManager) (id : CStr 15) (o : Order) (ms : List (Fill × Int)) : Prop where
  order : ∃ o', (m.deliver ms).orders.lookup id = some o' ∧ o'.filledQuantity = totalQty ms ∧
    o'.avgFillPrice = totalCost ms / totalQty ms
  used : (m.deliver ms).arb.portfolio.usedUnder (marginKey o.signal) =
    some (if o.signal.instrumentType = .OPTIONS then totalCost ms
      else totalCost ms / m.arb.portfolio.config.maxLeverage)
  position : (m.deliver ms).arb.portfolio.position o.signal.symbol =
    m.arb.portfolio.position o.signal.symbol + totalQty ms * o.signal.side.sign
  notFilled : ∀ n < ms.length, ∀ o', (m.deliver (ms.take n)).orders.lookup id = some o' → o'.status ≠ .FILLED

variable {m : OrderManager} {id : CStr 15} {o : Order}

theorem findOrder_setOrder (o : Order) : (m.setOrder id o).findOrder o.exchangeOrderId = some (id, o) := by
  have hentries : (m.setOrder id o).orders.entries = ⟨id, o⟩ :: List.kerase id m.orders.entries := rfl
  rw [findOrder, hentries, List.find?_cons_of_pos (by simp)]
  rfl

theorem messageCall_filled (hfound : m.findOrder o.exchangeOrderId = some (id, o))
    (halone : m.arb.findLeg o.exchangeOrderId.bytes = none) {f : Fill} (hf : FillOf o f) (now : Int) :
    m.messageCall f now = ((m.setOrder id (o.filledBy f)).bookFill id o.signal f.fillPrice f.filledQty).updateStatus
      id .FILLED := by
  have hr : f.isReject = false := by simp [Fill.isReject, hf.qty.ne']
  have harb : m.onFill f now = m := onFill_unnamed (hf.named ▸ halone) now
  simp only [messageCall, harb, finishFill, hf.named, hfound, hr, Bool.false_eq_true, ite_false]

/-- Where the messages of `ms` leave the order and the guard. -/
theorem deliver_spec (hfound : m.findOrder o.exchangeOrderId = some (id, o))
    (halone : m.arb.findLeg o.exchangeOrderId.bytes = none) {ms : List (Fill × Int)} {last : Fill × Int}
    (hms : ∀ x ∈ ms ++ [last], FillOf o x.1) :
    (∃ o', (m.deliver (ms ++ [last])).orders.lookup id = some o' ∧ o'.status = .FILLED ∧
      o'.filledQuantity = last.1.filledQty ∧ o'.avgFillPrice = last.1.fillPrice) ∧
    (m.deliver (ms ++ [last])).arb.portfolio =
      (ms ++ [last]).foldl (fun g x => g.onFill o.signal x.1.fillPrice x.1.filledQty) m.arb.portfolio := by
  induction ms generalizing m o with
  | nil =>
    have hf : FillOf o last.1 := hms last (List.mem_singleton_self last)
    have hone : m.deliver [last] = _ := messageCall_filled hfound halone hf last.2
    rw [List.nil_append, hone]
    refine ⟨⟨o.filledBy last.1, AList.lookup_insert _, ?_⟩, rfl⟩
    unfold Order.filledBy
    split <;> exact ⟨rfl, rfl, rfl⟩
  | cons x ms ih =>
    have hf : FillOf o x.1 := hms x (List.mem_cons_self ..)
    obtain ⟨-, hsignal, hname, -⟩ := filledBy_fields o x.1
    have hone : m.deliver (x :: ms ++ [last]) = (m.messageCall x.1 x.2).deliver (ms ++ [last]) := rfl
    have hnext : (m.messageCall x.1 x.2).findOrder (o.filledBy x.1).exchangeOrderId = some (id, o.filledBy x.1) := by
      rw [messageCall_filled hfound halone hf]
      exact findOrder_setOrder (o.filledBy x.1)
    have halone' : (m.messageCall x.1 x.2).arb.findLeg (o.filledBy x.1).exchangeOrderId.bytes = none := by
      rw [messageCall_filled hfound halone hf, hname]
      exact halone
    have hms' : ∀ y ∈ ms ++ [last], FillOf (o.filledBy x.1) y.1 := by
      intro y hy
      have h := hms y (List.mem_cons_of_mem _ hy)
      exact ⟨h.named.trans hname.symm, h.qty, h.price⟩
    obtain ⟨horder, hguard⟩ := ih hnext halone' hms'
    rw [hone]
    refine ⟨horder, ?_⟩
    rw [hguard, hsignal, messageCall_filled hfound halone hf]
    rfl

/-- A single message is what the law says it is, if the tables have room for it. -/
theorem accumulates_one (ho : m.Acknowledged id o) (hp : m.arb.portfolio.Posted) {last : Fill × Int}
    (hf : FillOf o last.1) : m.Accumulates id o [last] ↔ m.arb.portfolio.RoomFor o.signal := by
  have hms : ∀ x ∈ [] ++ [last], FillOf o x.1 := fun x hx => List.mem_singleton.mp hx ▸ hf
  obtain ⟨horder, hguard⟩ := deliver_spec ho.found ho.alone hms
  rw [List.nil_append] at horder hguard
  change _ = m.arb.portfolio.onFill o.signal last.1.fillPrice last.1.filledQty at hguard
  have hqty : totalQty [last] = last.1.filledQty := by simp [totalQty]
  have hcost : totalCost [last] = last.1.filledQty * last.1.fillPrice := by simp [totalCost]
  have hused := m.arb.portfolio.usedUnder_onFill_iff hp.wf o.signal last.1.fillPrice last.1.filledQty
  have hposition := PortfolioGuard.position_onFill_iff hp (s := o.signal) last.1.fillPrice
    (mul_ne_zero hf.qty.ne' o.signal.side.sign_ne_zero)
  constructor
  · intro h
    have hu := h.used
    have hq := h.position
    rw [hguard, hcost] at hu
    rw [hguard, hqty] at hq
    exact ⟨hused.mp hu, hposition.mp hq⟩
  · intro h
    refine ⟨?_, ?_, ?_, ?_⟩
    · obtain ⟨o', hl, -, hq, ha⟩ := horder
      refine ⟨o', hl, hq.trans hqty.symm, ?_⟩
      rw [ha, hcost, hqty, mul_div_cancel_left₀ _ hf.qty.ne']
    · rw [hguard, hcost]
      exact hused.mpr h.used
    · rw [hguard, hqty]
      exact hposition.mpr h.position
    · intro n hn o' hl
      obtain rfl : n = 0 := Nat.lt_one_iff.mp hn
      have hl' : m.orders.lookup id = some o := (lookup_of_findOrder ho.found).1
      have he : o' = o := Option.some.inj (hl.symm.trans hl')
      rw [he, ho.status]
      decide

/-- The first of several messages makes the order `FILLED`. -/
theorem not_accumulates_more (ho : m.Acknowledged id o) {x y : Fill × Int} {ms : List (Fill × Int)}
    (hf : FillOf o x.1) : ¬ m.Accumulates id o (x :: y :: ms) := by
  intro h
  have hms : ∀ z ∈ [] ++ [x], FillOf o z.1 := fun z hz => List.mem_singleton.mp hz ▸ hf
  obtain ⟨⟨o', hl, hfilled, -⟩, -⟩ := deliver_spec ho.found ho.alone hms
  exact h.notFilled 1 (by simp) o' hl hfilled

end OrderManager

open OrderManager

/-- The fills of an acknowledged order add up if and only if there is one. -/
theorem partial_fills_accumulate_iff (signalConfig : SignalConfig) (portfolioConfig : PortfolioConfig)
    (arbConfig : ArbConfig) (hasGateway : Exchange → Bool) (uuid : UuidGenerator) {es : List ManagerEvent}
    {m : OrderManager} (hr : run step (fresh signalConfig portfolioConfig arbConfig hasGateway uuid) es = some m)
    {id : CStr 15} {o : Order} (ho : m.Acknowledged id o) {parts : List (Fill × Int)} {last : Fill × Int}
    (hms : FilledInParts o parts last) :
    m.Accumulates id o (parts ++ [last]) ↔ parts = [] ∧ m.arb.portfolio.RoomFor o.signal := by
  have hp : m.arb.portfolio.Posted :=
    portfolio_run (I := PortfolioGuard.Posted) (fun _ op h => h.apply op) hr
      ⟨PortfolioGuard.wf_init portfolioConfig, fresh_empty⟩
  cases parts with
  | nil =>
    rw [List.nil_append, accumulates_one ho hp (hms.fills last (by simp))]
    exact (and_iff_right rfl).symm
  | cons x parts =>
    have hnot : ¬ m.Accumulates id o (x :: parts ++ [last]) := by
      have hf : FillOf o x.1 := hms.fills x (List.mem_cons_self ..)
      cases parts with
      | nil => exact not_accumulates_more ho hf
      | cons y parts => exact not_accumulates_more ho hf
    constructor
    · exact fun h => absurd h hnot
    · exact fun h => absurd h.1 (List.cons_ne_nil x parts)

namespace Sample

def acking : List CallEvent := [.process single 1 1 1 [], .sendResult .BINANCE singleSent taken]

def acked : OrderManager := (run call (.fresh {} {} {} (fun _ => true) {}) acking).getD (.fresh {} {} {} (fun _ => true) {})

def ackedOrder : Order := singleSent.answeredBy .BINANCE taken

def half (isFinal : Bool) : Fill := { singleFill with filledQty := 1 / 2, isFinal := isFinal }

theorem run_acking : ∃ es, run step (.fresh {} {} {} (fun _ => true) {}) es = some acked := by
  apply calls_run (show run call (.fresh {} {} {} (fun _ => true) {}) acking = some acked from ?_)
  obtain ⟨m, hm⟩ := Option.isSome_iff_exists.mp
    (show (run call (.fresh {} {} {} (fun _ => true) {}) acking).isSome by decide +kernel)
  rw [acked, hm, Option.getD_some]

theorem acknowledged_acked : acked.Acknowledged (storedOrderId 1) ackedOrder :=
  ⟨by decide +kernel, by decide +kernel, by decide +kernel⟩

theorem partial_fills_accumulate_one : acked.Acknowledged (storedOrderId 1) ackedOrder ∧
    acked.Accumulates (storedOrderId 1) ackedOrder [(singleFill, 2)] := by
  obtain ⟨es, hes⟩ := run_acking
  have hparts : FilledInParts ackedOrder [] (singleFill, 2) := by
    refine ⟨?_, nofun, by decide⟩
    intro x hx
    rw [List.nil_append, List.mem_singleton] at hx
    subst hx
    exact ⟨by decide +kernel, by decide +kernel, by decide +kernel⟩
  exact ⟨acknowledged_acked, (partial_fills_accumulate_iff {} {} {} (fun _ => true) {} hes acknowledged_acked
    hparts).mpr ⟨rfl, by decide +kernel⟩⟩

/-- Two fills of one half each. -/
theorem not_partial_fills_accumulate : ¬ ∀ (signalConfig : SignalConfig) (portfolioConfig : PortfolioConfig)
    (arbConfig : ArbConfig) (hasGateway : Exchange → Bool) (uuid : UuidGenerator) (es : List ManagerEvent)
    (m : OrderManager), run step (fresh signalConfig portfolioConfig arbConfig hasGateway uuid) es = some m →
      ∀ (id : CStr 15) (o : Order), m.Acknowledged id o → ∀ (parts : List (Fill × Int)) (last : Fill × Int),
        FilledInParts o parts last → m.Accumulates id o (parts ++ [last]) := by
  intro h
  obtain ⟨es, hes⟩ := run_acking
  have hparts : FilledInParts ackedOrder [(half false, 2)] (half true, 3) := by
    refine ⟨?_, ?_, rfl⟩
    · intro x hx
      have : x = (half false, 2) ∨ x = (half true, 3) := by simpa using hx
      rcases this with rfl | rfl <;> exact ⟨by decide +kernel, by decide +kernel, by decide +kernel⟩
    · intro x hx
      rw [List.mem_singleton.mp hx]
      rfl
  have ha := h {} {} {} (fun _ => true) {} es acked hes _ _ acknowledged_acked _ _ hparts
  exact ha.notFilled 1 (by simp) (ackedOrder.filledBy (half false)) (by decide +kernel) (by decide +kernel)

end Sample

end OrderExecution
