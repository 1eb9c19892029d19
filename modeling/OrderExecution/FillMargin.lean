import OrderExecution.Gateways
import OrderExecution.GuardFrames
import OrderExecution.SignalReceiver

/-!
# The margin of an order before and after its fill

The guard reserves at the price of the signal, or at a reference price where
that is not positive. The gateways fill at the price of the signal whatever it
is, so a market order uses no margin once it is filled.
-/

namespace OrderExecution

open FlatHashMap Machine SignalReceiver

namespace PortfolioGuard

/-- No margin is reserved or used under the key of the signal, and both tables have room. -/
structure Unmarked (g : PortfolioGuard) (s : Signal) : Prop where
  reserved : g.reservedUnder (marginKey s) = none
  used : g.usedUnder (marginKey s) = none
  reservedRoom : g.state.marginReserved.size < 128
  usedRoom : g.state.marginUsed.size < 128

/-- The guard once the signal is reserved and its order filled. -/
def filledAfter (g : PortfolioGuard) (s : Signal) (f : Fill) : PortfolioGuard :=
  (g.checkAndReserve s).1.onFill s f.fillPrice f.filledQty

/-- The fill uses the margin that the check demanded, not a negative one, and
frees no buying power. -/
structure KeepsMargin (g : PortfolioGuard) (s : Signal) (f : Fill) : Prop where
  required : (g.filledAfter s f).usedUnder (marginKey s) = some (g.calcRequiredMargin s)
  nonneg : ∀ v, (g.filledAfter s f).usedUnder (marginKey s) = some v → 0 ≤ v
  freesNothing : (g.filledAfter s f).state.availableMargin ≤ (g.checkAndReserve s).1.state.availableMargin

variable {g : PortfolioGuard} {s : Signal}

/-- The margin of the signal's own price is the required one for a positive price only. -/
theorem usedMargin_eq_required_iff (hq : 0 < s.quantity)
    (hlev : s.instrumentType = .FUTURES → g.config.maxLeverage ≠ 0) :
    g.usedMargin s s.price s.quantity = g.calcRequiredMargin s ↔ 0 < s.price := by
  unfold usedMargin calcRequiredMargin
  simp only
  by_cases hp : s.price ≤ 0
  · have hne : s.quantity * s.price ≠ s.quantity * referencePrice s.symbol := by
      intro h
      have := mul_left_cancel₀ hq.ne' h
      linarith [referencePrice_pos s.symbol]
    rw [if_pos hp]
    refine iff_of_false ?_ (not_lt.mpr hp)
    split
    · exact hne
    · next ht =>
      have hfut : s.instrumentType = .FUTURES := by
        cases hi : s.instrumentType with
        | FUTURES => rfl
        | OPTIONS => exact absurd hi ht
      intro h
      exact hne ((div_left_inj' (hlev hfut)).mp h)
  · rw [if_neg hp]
    exact iff_of_true rfl (not_le.mp hp)

theorem usedMargin_nonneg_iff (hq : 0 < s.quantity) (hp : 0 < s.price)
    (hlev : s.instrumentType = .FUTURES → g.config.maxLeverage ≠ 0) :
    0 ≤ g.usedMargin s s.price s.quantity ↔ s.instrumentType = .OPTIONS ∨ 0 < g.config.maxLeverage := by
  have hqp : 0 < s.quantity * s.price := mul_pos hq hp
  unfold usedMargin
  cases hi : s.instrumentType with
  | OPTIONS => simp [hqp.le]
  | FUTURES =>
    have hne := hlev hi
    simp only [reduceCtorEq, ite_false, false_or]
    constructor
    · intro h
      by_contra hn
      have hneg : g.config.maxLeverage < 0 := lt_of_le_of_ne (not_lt.mp hn) hne
      exact absurd (div_neg_of_pos_of_neg hqp hneg) (not_lt.mpr h)
    · intro h
      exact div_nonneg hqp.le h.le

/-- What is reserved, once it is approved, is the required margin and what the slot held. -/
theorem Unmarked.reservedUnder_reserve (h : g.Unmarked s) (hw : g.Wf) (amount : ℚ) :
    (g.reserve s amount).reservedUnder (marginKey s) =
      some (g.state.marginReserved.leftover hashKey (marginKey s) + amount) :=
  find_some_of_perm (hw.reserve s amount).reserved (entries_update_absent hw.reserved (marginKey_fits s) g.dummy
    (· + amount) h.reserved h.reservedRoom)

theorem Unmarked.keepsMargin_iff (h : g.Unmarked s) (hw : g.Wf) (hq : 0 < s.quantity)
    (hlev : s.instrumentType = .FUTURES → g.config.maxLeverage ≠ 0)
    (happ : (g.checkAndReserve s).2.approved = true) {f : Fill} (hqty : f.filledQty = s.quantity)
    (hprice : f.fillPrice = s.price) : KeepsMargin g s f ↔
      0 < s.price ∧ (s.instrumentType = .OPTIONS ∨ 0 < g.config.maxLeverage) ∧
        g.state.marginReserved.leftover hashKey (marginKey s) ≤ 0 := by
  let r := g.calcRequiredMargin s
  let u := g.usedMargin s s.price s.quantity
  have hwr := hw.reserve s r
  have hfilled : g.filledAfter s f = (g.reserve s r).onFill s s.price s.quantity := by
    rw [filledAfter, checkAndReserve_approved happ, hqty, hprice]
  have hused : (g.filledAfter s f).usedUnder (marginKey s) = some u := by
    rw [hfilled]
    exact (usedUnder_onFill_iff hwr s s.price s.quantity).mpr (.inr h.usedRoom)
  have havail : (g.filledAfter s f).state.availableMargin = (g.checkAndReserve s).1.state.availableMargin +
      (g.state.marginReserved.leftover hashKey (marginKey s) + r) - u := by
    rw [hfilled, availableMargin_onFill hwr h.used h.usedRoom, h.reservedUnder_reserve hw,
      checkAndReserve_approved happ]
    rfl
  have heq : u = r ↔ 0 < s.price := usedMargin_eq_required_iff hq hlev
  constructor
  · intro hk
    have hur : u = r := Option.some.inj (hused.symm.trans hk.required)
    have hpos := heq.mp hur
    refine ⟨hpos, (usedMargin_nonneg_iff hq hpos hlev).mp (hk.nonneg u hused), ?_⟩
    have hfree := hk.freesNothing
    rw [havail, hur] at hfree
    linarith
  · intro ⟨hpos, hpositive, hleft⟩
    have hur : u = r := heq.mpr hpos
    refine ⟨hused.trans (congrArg some hur), ?_, ?_⟩
    · intro v hv
      rw [hused, Option.some.injEq] at hv
      exact hv ▸ (usedMargin_nonneg_iff hq hpos hlev).mpr hpositive
    · rw [havail, hur]
      linarith

end PortfolioGuard

open PortfolioGuard

/-- Filled without slippage, an order keeps the margin it reserved if and only
if its price is positive, it is an option or the leverage is positive, and the
slot of its reservation held nothing. -/
theorem fill_keeps_margin_iff (config : PortfolioConfig) (dummy : ℚ) {calls : List Call} {g : PortfolioGuard}
    (hr : run (fun g c => some (PortfolioGuard.call g c)) { PortfolioGuard.init config with dummy := dummy } calls =
      some g)
    (signalConfig : SignalConfig) (receiveNs : Int) {o : Order}
    (hvalid : (validate signalConfig o.signal receiveNs).valid = true)
    (hlev : o.signal.instrumentType = .FUTURES → g.config.maxLeverage ≠ 0) (hnew : g.Unmarked o.signal)
    (happ : (g.checkAndReserve o.signal).2.approved = true) {f : Fill} (hf : FilledAt 0 o f) :
    KeepsMargin g o.signal f ↔
      0 < o.signal.price ∧ (o.signal.instrumentType = .OPTIONS ∨ 0 < g.config.maxLeverage) ∧
        g.state.marginReserved.leftover hashKey (marginKey o.signal) ≤ 0 := by
  have hw : g.Wf := always_iff.mp (always_wf config dummy calls) calls [] g (List.append_nil calls).symm hr
  obtain ⟨hqty, hprice⟩ := hf.amounts
  rw [slippedPrice_zero] at hprice
  exact hnew.keepsMargin_iff hw (validate_valid_iff.mp hvalid).quantity hlev happ hqty hprice

namespace Sample

/-- A limit order at 3000, and the same order at the market. -/
def priced (price : ℚ) : Order :=
  { orderId := storedOrderId 1, signal := { keyed "ETH" "S" with price := price }, status := .SENT }

def pricedFill (price : ℚ) : Fill :=
  { exchangeOrderId := .copy 31 (exIdOf (storedOrderId 1)), filledQty := 1, fillPrice := price, isFinal := true }

theorem filledAt_priced (price : ℚ) : FilledAt 0 (priced price) (pricedFill price) := by
  refine .cex {} 0 rfl ?_
  rw [Option.mem_def, MockCexGateway.scheduleFill, if_neg List.not_mem_nil]
  simp only [slippedPrice_zero]
  rfl

end Sample

theorem fill_keeps_margin_limit : KeepsMargin (.init {}) (Sample.priced 3000).signal (Sample.pricedFill 3000) :=
  (fill_keeps_margin_iff {} 0 (show run (fun g c => some (PortfolioGuard.call g c)) (.init {}) [] = _ from rfl) {} 0
    (show (validate {} (Sample.priced 3000).signal 0).valid = true by decide +kernel)
    (fun _ => by decide) ⟨by decide +kernel, by decide +kernel, by decide +kernel, by decide +kernel⟩
    (by decide +kernel) (Sample.filledAt_priced 3000)).mpr
    ⟨by decide +kernel, .inr (by decide +kernel), by decide +kernel⟩

/-- One ETH at the market: 300 reserved, nothing used. -/
theorem not_fill_keeps_margin : ¬ ∀ (config : PortfolioConfig) (dummy : ℚ) (calls : List Call) (g : PortfolioGuard),
    run (fun g c => some (PortfolioGuard.call g c)) { PortfolioGuard.init config with dummy := dummy } calls =
      some g → ∀ (signalConfig : SignalConfig) (receiveNs : Int) (o : Order),
        (validate signalConfig o.signal receiveNs).valid = true →
        (o.signal.instrumentType = .FUTURES → g.config.maxLeverage ≠ 0) → g.Unmarked o.signal →
        (g.checkAndReserve o.signal).2.approved = true → ∀ f : Fill, FilledAt 0 o f → KeepsMargin g o.signal f := by
  intro h
  have hk := h {} 0 [] _ rfl {} 0 (Sample.priced 0) (by decide +kernel) (fun _ => by decide)
    ⟨by decide +kernel, by decide +kernel, by decide +kernel, by decide +kernel⟩ (by decide +kernel) _
    (Sample.filledAt_priced 0)
  have he := hk.required
  revert he
  decide +kernel

end OrderExecution
