import OrderExecution.ArbLegs
import OrderExecution.Gateways
import OrderExecution.LegFills
import OrderExecution.SignalReceiver

/-!
# The denominators of the spreads

A spread is relative to the price of one leg. The expected spread takes the
reference price of the symbol for a market order. The realized spread takes the
fill price as it is, and the mock gateways fill a market order at its price,
zero.
-/

namespace OrderExecution

open ArbCoordinator Machine SignalReceiver

/-! ## What the spreads divide by -/

/-- The price that `calc_expected_spread` takes for a leg. -/
def spreadPrice (s : Signal) : ℚ := if s.price > 0 then s.price else referencePrice s.symbol

namespace ArbPair

/-- The leg whose price the spreads are relative to. -/
def base (p : ArbPair) : Bool := p.cexLeg.signal.side = .BUY

def expectedDenominator (p : ArbPair) : ℚ := spreadPrice (p.leg p.base).signal

def realizedDenominator (p : ArbPair) : ℚ := (p.leg p.base).avgFillPrice

end ArbPair

theorem calcExpectedSpread_eq (p : ArbPair) : calcExpectedSpread p.cexLeg.signal p.dexLeg.signal =
    (spreadPrice (p.leg (!p.base)).signal - p.expectedDenominator) / p.expectedDenominator * 10000 := by
  unfold calcExpectedSpread ArbPair.expectedDenominator ArbPair.base spreadPrice
  by_cases h : p.cexLeg.signal.side = .BUY
  · simp only [h, ite_true, decide_true, Bool.not_true, ArbPair.leg_true, ArbPair.leg_false]
  · simp only [h, ite_false, decide_false, Bool.not_false, ArbPair.leg_true, ArbPair.leg_false]

theorem calcRealizedSpread_eq (p : ArbPair) : calcRealizedSpread p =
    ((p.leg (!p.base)).avgFillPrice - p.realizedDenominator) / p.realizedDenominator * 10000 := by
  unfold calcRealizedSpread ArbPair.realizedDenominator ArbPair.base
  by_cases h : p.cexLeg.signal.side = .BUY
  · simp only [h, ite_true, decide_true, Bool.not_true, ArbPair.leg_true, ArbPair.leg_false]
  · simp only [h, ite_false, decide_false, Bool.not_false, ArbPair.leg_true, ArbPair.leg_false]

theorem spreadPrice_pos (s : Signal) : 0 < spreadPrice s := by
  unfold spreadPrice
  split
  · next h => exact h
  · exact referencePrice_pos s.symbol

/-! ## Runs with the mock gateways -/

/-- The legs of the pair `g` are validated signals, and a fill message of a leg
is what a mock gateway of this slippage reports of its order. -/
def GatewayFilled (g : CStr 15) (slippageBps : Bool → ℚ) (c : ArbCoordinator) : ArbEvent → Prop
  | .addLeg s _ => s.groupId = g → ∃ config receiveNs, (validate config s receiveNs).valid = true
  | .onFill x price qty false _ => ∀ p b, c.findLeg x = some (g, p, b) →
      ∃ f, FilledAt (slippageBps b) (p.leg b) f ∧ x = f.exchangeOrderId.bytes ∧ price = f.fillPrice ∧
        qty = f.filledQty
  | _ => True

/-- The spreads that the step computes for the pair have positive denominators:
the expected one in `dispatch_pair`, the realized one in `finalize_pair`. -/
def SpreadDefined (g : CStr 15) (c : ArbCoordinator) : ArbEvent → Prop
  | .dispatch (.enter g') _ => g' = g → ∀ p, c.pairs.lookup g = some p → p.status = .ASSEMBLING →
      0 < p.expectedDenominator
  | .onFill x price qty false now => ∀ p b, c.findLeg x = some (g, p, b) → p.status = ArbPair.oneSided (!b) →
      0 < (fillLeg p b price qty now).realizedDenominator
  | _ => True

/-- Where the step finalizes the pair, the base leg has a limit price, and its
order is the one that was filled. -/
def BasePriced (g : CStr 15) (c : ArbCoordinator) : ArbEvent → Prop
  | .onFill x _ _ false _ => ∀ p b, c.findLeg x = some (g, p, b) → p.status = ArbPair.oneSided (!b) →
      0 < (p.leg p.base).signal.price ∧ (p.base = b ∨ (p.leg p.base).filledQuantity ≠ 0)
  | _ => True

instance decidableFindLeg (c : ArbCoordinator) (g : CStr 15) (x : Bytes) {P : ArbPair → Bool → Prop}
    [∀ p b, Decidable (P p b)] : Decidable (∀ p b, c.findLeg x = some (g, p, b) → P p b) :=
  decidable_of_iff (∀ r ∈ c.findLeg x, r.1 = g → P r.2.1 r.2.2)
    ⟨fun h p b hf => h _ hf rfl, fun h r hr hg => h r.2.1 r.2.2 (by rw [Option.mem_def.mp hr, ← hg])⟩

instance decidableSpreadDefined (g : CStr 15) (c : ArbCoordinator) : ∀ e, Decidable (SpreadDefined g c e)
  | .dispatch (.enter g') _ => inferInstanceAs (Decidable (g' = g → ∀ p ∈ c.pairs.lookup g,
      p.status = .ASSEMBLING → 0 < p.expectedDenominator))
  | .onFill x price qty false now => inferInstanceAs (Decidable (∀ p b, c.findLeg x = some (g, p, b) →
      p.status = ArbPair.oneSided (!b) → 0 < (fillLeg p b price qty now).realizedDenominator))
  | .dispatch (.lookup _ _ _) _ | .dispatch (.sendCex _ _ _ _ _) _ | .dispatch (.sendDex _ _ _) _ => isTrue trivial
  | .dispatch (.startMonitor _) _ | .onFill _ _ _ true _ | .addLeg _ _ | .worker _ _ _ => isTrue trivial
  | .portfolio _ | .drawOrderId => isTrue trivial

instance decidableBasePriced (g : CStr 15) (c : ArbCoordinator) : ∀ e, Decidable (BasePriced g c e)
  | .onFill x _ _ false _ => inferInstanceAs (Decidable (∀ p b, c.findLeg x = some (g, p, b) →
      p.status = ArbPair.oneSided (!b) →
        0 < (p.leg p.base).signal.price ∧ (p.base = b ∨ (p.leg p.base).filledQuantity ≠ 0)))
  | .onFill _ _ _ true _ | .addLeg _ _ | .dispatch _ _ | .worker _ _ _ => isTrue trivial
  | .portfolio _ | .drawOrderId => isTrue trivial

/-- Nothing is filled of the leg, or what a mock gateway of this slippage fills. -/
def FilledBy (slippageBps : Bool → ℚ) (p : ArbPair) (b : Bool) : Prop :=
  (p.leg b).amounts = (0, 0) ∨
    p.hasLeg b = true ∧ (p.leg b).amounts = (slippedPrice (slippageBps b) (p.leg b).signal, (p.leg b).signal.quantity)

structure GatewayLegs (g : CStr 15) (slippageBps : Bool → ℚ) (c : ArbCoordinator) : Prop where
  keyed : c.Keyed
  quantity {p : ArbPair} (hp : c.pairs.lookup g = some p) {b : Bool} (hb : p.hasLeg b = true) :
    0 < (p.leg b).signal.quantity
  filled {p : ArbPair} (hp : c.pairs.lookup g = some p) (b : Bool) : FilledBy slippageBps p b

section
variable {c c' : ArbCoordinator} {g : CStr 15} {slippageBps : Bool → ℚ} {e : ArbEvent}

theorem GatewayLegs.quantity_step (h : GatewayLegs g slippageBps c) (hf : GatewayFilled g slippageBps c e)
    (hs : c.step e = some c') {p' : ArbPair} (hp' : c'.pairs.lookup g = some p') {b : Bool}
    (hb : p'.hasLeg b = true) : 0 < (p'.leg b).signal.quantity := by
  obtain ⟨p, hp, hb₀, -, hsig⟩ | ⟨s, now, rfl, hg, -, -, hsig⟩ := (step_view h.keyed hs g).leg_origin hp' hb
  · rw [hsig]
    exact h.quantity hp hb₀
  · obtain ⟨config, receiveNs, hv⟩ := hf hg
    rw [hsig]
    exact (validate_valid_iff.mp hv).quantity

theorem GatewayLegs.filled_addedPair {s : Signal} (h : GatewayLegs s.groupId slippageBps c) (now : Int) (b : Bool) :
    FilledBy slippageBps (c.addedPair s now) b := by
  by_cases hb : b = s.isCexLeg
  · left
    rw [hb, (leg_addedPair c s now).2]
    rfl
  · -- the other leg stays as it is
    cases hp : c.pairs.lookup s.groupId with
    | none =>
      left
      rw [addedPair_none hp, leg_withLeg_ne _ (c.newOrder s now) hb]
      cases b <;> rfl
    | some p =>
      unfold FilledBy
      rw [addedPair_some hp, leg_withLeg_ne p (c.newOrder s now) hb, hasLeg_withLeg_ne p (c.newOrder s now) hb]
      exact h.filled hp b

theorem GatewayLegs.filled_step (h : GatewayLegs g slippageBps c) (hf : GatewayFilled g slippageBps c e)
    (hs : c.step e = some c') (hadd : ∀ s now, e = .addLeg s now → s.groupId ≠ g) {p' : ArbPair}
    (hp' : c'.pairs.lookup g = some p') (b : Bool) : FilledBy slippageBps p' b := by
  obtain ⟨p, hp, hsame⟩ := (step_view h.keyed hs g).legs_before hadd hp'
  have hamounts : (p'.leg b).amounts = c.reports g b (p.leg b).amounts e := by
    rw [← legAmounts_of_lookup hp', legAmounts_step h.keyed hs, legAmounts_of_lookup hp]
  unfold FilledBy
  rw [hamounts, hsame.hasLeg, hsame.signal]
  obtain hkeep | ⟨x, price, qty, now, p₀, rfl, hfind, hset⟩ :=
    reports_cases (c := c) (b := b) (q := (p.leg b).amounts) hadd
  · rw [hkeep]
    exact h.filled hp b
  · obtain ⟨f, hfilled, -, rfl, rfl⟩ := hf p₀ b hfind
    obtain ⟨hlook, hmatch⟩ := mem_pairs_of_findLeg hfind
    obtain rfl : p = p₀ := Option.some.inj (hp.symm.trans hlook)
    rw [hset]
    exact .inr ⟨hasLeg_of_matchLeg hmatch, Prod.ext hfilled.amounts.2 hfilled.amounts.1⟩

theorem GatewayLegs.step (h : GatewayLegs g slippageBps c) (hf : GatewayFilled g slippageBps c e)
    (hs : c.step e = some c') : GatewayLegs g slippageBps c' := by
  refine ⟨h.keyed.step hs, h.quantity_step hf hs, fun {p'} hp' b => ?_⟩
  by_cases hadd : ∃ s now, e = .addLeg s now ∧ s.groupId = g
  · obtain ⟨s, now, rfl, rfl⟩ := hadd
    obtain rfl := Option.some.inj hs
    rw [lookup_addLeg, Option.some.injEq] at hp'
    exact hp' ▸ h.filled_addedPair now b
  · exact h.filled_step hf hs (by simpa using hadd) hp' b

theorem base_fillLeg (p : ArbPair) (b : Bool) (price qty : ℚ) (now : Int) :
    (fillLeg p b price qty now).base = p.base := by
  cases b <;> rfl

theorem GatewayLegs.denominator_pos_iff (h : GatewayLegs g slippageBps c)
    (hslip : ∀ b, 0 ≤ slippageBps b ∧ slippageBps b < 10000) {p : ArbPair} {b : Bool}
    (hp : c.pairs.lookup g = some p) {f : Fill} (hf : FilledAt (slippageBps b) (p.leg b) f) (now : Int) :
    0 < (fillLeg p b f.fillPrice f.filledQty now).realizedDenominator ↔
      0 < (p.leg p.base).signal.price ∧ (p.base = b ∨ (p.leg p.base).filledQuantity ≠ 0) := by
  unfold ArbPair.realizedDenominator
  rw [base_fillLeg]
  by_cases hb : p.base = b
  · have hprice : ((fillLeg p b f.fillPrice f.filledQty now).leg b).avgFillPrice = f.fillPrice :=
      congrArg Prod.fst (amounts_fillLeg_self p b f.fillPrice f.filledQty now)
    rw [hb, hprice, hf.amounts.2, slippedPrice_pos_iff (hslip b).1 (hslip b).2]
    simp only [true_or, and_true]
  · rw [leg_fillLeg_ne p hb, or_iff_right hb]
    obtain hnone | ⟨hleg, hfilled⟩ := h.filled hp p.base
    · have hprice : (p.leg p.base).avgFillPrice = 0 := congrArg Prod.fst hnone
      have hqty : (p.leg p.base).filledQuantity = 0 := congrArg Prod.snd hnone
      rw [hprice]
      exact iff_of_false (lt_irrefl 0) fun hpriced => hpriced.2 hqty
    · have hprice : (p.leg p.base).avgFillPrice = slippedPrice (slippageBps p.base) (p.leg p.base).signal :=
        congrArg Prod.fst hfilled
      have hqty : (p.leg p.base).filledQuantity = (p.leg p.base).signal.quantity := congrArg Prod.snd hfilled
      rw [hprice, hqty, slippedPrice_pos_iff (hslip _).1 (hslip _).2, and_iff_left (h.quantity hp hleg).ne']

theorem GatewayLegs.spread_defined_iff (h : GatewayLegs g slippageBps c)
    (hslip : ∀ b, 0 ≤ slippageBps b ∧ slippageBps b < 10000) (hf : GatewayFilled g slippageBps c e) :
    SpreadDefined g c e ↔ BasePriced g c e := by
  cases e with
  | dispatch d now =>
    cases d with
    | enter g' => exact iff_of_true (fun _ p _ _ => spreadPrice_pos _) trivial
    | lookup | sendCex | sendDex | startMonitor => exact Iff.rfl
  | onFill x price qty isReject now =>
    cases isReject with
    | true => exact Iff.rfl
    | false =>
      refine forall_congr' fun p => forall_congr' fun b => forall_congr' fun hfind => forall_congr' fun _ => ?_
      obtain ⟨f, hfilled, -, rfl, rfl⟩ := hf p b hfind
      exact h.denominator_pos_iff hslip (mem_pairs_of_findLeg hfind).1 hfilled now
  | addLeg | worker | portfolio | drawOrderId => exact Iff.rfl

theorem gatewayLegs_init (config : ArbConfig) (portfolio : PortfolioGuard) (hasGateway : Exchange → Bool)
    (g : CStr 15) (slippageBps : Bool → ℚ) : GatewayLegs g slippageBps (init config portfolio hasGateway) where
  keyed := keyed_init config portfolio hasGateway
  quantity hp := by cases hp
  filled hp := by cases hp

/-- In every run with validated signals and the mock gateways, the spreads have
positive denominators if and only if, whenever the pair is finalized, its base
leg has a limit price and is filled. -/
theorem spreads_defined_iff (config : ArbConfig) (portfolio : PortfolioGuard) (hasGateway : Exchange → Bool)
    (hslip : ∀ b, 0 ≤ slippageBps b ∧ slippageBps b < 10000) {es : List ArbEvent}
    (h : Along step (GatewayFilled g slippageBps) (init config portfolio hasGateway) es) :
    Along step (SpreadDefined g) (init config portfolio hasGateway) es ↔
      Along step (BasePriced g) (init config portfolio hasGateway) es :=
  along_congr (I := GatewayLegs g slippageBps) (fun _ _ _ hl hf hs => hl.step hf hs)
    (fun _ _ hl hf => hl.spread_defined_iff hslip hf) h
    (gatewayLegs_init config portfolio hasGateway g slippageBps)

end

namespace Sample

def cexAt (price : ℚ) : Signal := { cexSignal with price := price }

def dexAt (price : ℚ) : Signal := { dexSignal with price := price }

/-- Two signals of this price arrive, their orders are sent, and each is filled
at that price. -/
def filledAt (price : ℚ) : List ArbEvent :=
  let cexOrder := { cexOrder with signal := cexAt price }
  let dexOrder := { dexOrder with signal := dexAt price }
  [.addLeg (cexAt price) 1, .addLeg (dexAt price) 1, .dispatch (.enter groupId) 2,
    .dispatch (.lookup groupId cexOrder dexOrder) 2,
    .dispatch (.sendCex groupId (some .BINANCE) (some .HYPERLIQUID) cexOrder dexOrder) 2,
    .dispatch (.sendDex groupId (some .HYPERLIQUID) dexOrder) 2,
    .dispatch (.startMonitor groupId) 2,
    .worker (.sendResult groupId true) cexAck 3, .worker (.sendResult groupId false) dexAck 3,
    .onFill (exIdOf cexOrder.orderId) price 1 false 4, .onFill (hlIdOf dexOrder.orderId) price 1 false 4]

/-- The fill message of a leg reports its whole order, at its price. -/
def FillsWhole (c : ArbCoordinator) : ArbEvent → Prop
  | .addLeg s _ => (validate {} s 1).valid = true
  | .onFill x price qty false _ => ∀ p b, c.findLeg x = some (groupId, p, b) →
      x = (CStr.copy 31 (if b then exIdOf (p.leg b).orderId else hlIdOf (p.leg b).orderId)).bytes ∧
        price = (p.leg b).signal.price ∧ qty = (p.leg b).signal.quantity
  | _ => True

instance decidableFillsWhole (c : ArbCoordinator) : ∀ e, Decidable (FillsWhole c e)
  | .addLeg s _ => inferInstanceAs (Decidable ((validate {} s 1).valid = true))
  | .onFill x price qty false _ => inferInstanceAs (Decidable (∀ p b, c.findLeg x = some (groupId, p, b) →
      x = (CStr.copy 31 (if b then exIdOf (p.leg b).orderId else hlIdOf (p.leg b).orderId)).bytes ∧
        price = (p.leg b).signal.price ∧ qty = (p.leg b).signal.quantity))
  | .onFill _ _ _ true _ | .dispatch _ _ | .worker _ _ _ | .portfolio _ | .drawOrderId => isTrue trivial

theorem gatewayFilled_of_fillsWhole {c : ArbCoordinator} {e : ArbEvent} (h : FillsWhole c e) :
    GatewayFilled groupId (fun _ => 0) c e := by
  cases e with
  | addLeg s now => exact fun _ => ⟨_, _, h⟩
  | onFill x price qty isReject now =>
    cases isReject with
    | true => trivial
    | false =>
      intro p b hfind
      obtain ⟨hx, rfl, rfl⟩ := h p b hfind
      cases b with
      | true => exact ⟨_, .cex {} 0 rfl rfl, hx, (slippedPrice_zero _).symm, rfl⟩
      | false => exact ⟨_, .dex {} .empty 0 0 rfl (lt_irrefl 0) rfl, hx, (slippedPrice_zero _).symm, rfl⟩
  | dispatch | worker | portfolio | drawOrderId => trivial

theorem gatewayFilled_filledAt (price : ℚ) (h : Along step FillsWhole coordinator (filledAt price)) :
    Along step (GatewayFilled groupId fun _ => 0) coordinator (filledAt price) :=
  h.mono fun _ _ => gatewayFilled_of_fillsWhole

theorem spreads_defined_limit :
    ((run step coordinator (filledAt 100)).bind fun c => (c.pairs.lookup groupId).map (·.status)) = some .COMPLETED ∧
      Along step (SpreadDefined groupId) coordinator (filledAt 100) :=
  ⟨by decide +kernel, (spreads_defined_iff {} (.init {}) (fun _ => true) (fun _ => by norm_num)
    (gatewayFilled_filledAt 100 (by decide +kernel))).mpr (by decide +kernel)⟩

/-- Two market orders. -/
theorem not_spreads_defined : ¬ ∀ (config : ArbConfig) (portfolio : PortfolioGuard) (hasGateway : Exchange → Bool)
    (g : CStr 15) (slippageBps : Bool → ℚ) (es : List ArbEvent), (∀ b, 0 ≤ slippageBps b ∧ slippageBps b < 10000) →
      Along step (GatewayFilled g slippageBps) (init config portfolio hasGateway) es →
        Along step (SpreadDefined g) (init config portfolio hasGateway) es := by
  intro h
  have hdefined := h {} (.init {}) (fun _ => true) groupId (fun _ => 0) (filledAt 0) (fun _ => by norm_num)
    (gatewayFilled_filledAt 0 (by decide +kernel))
  exact absurd hdefined (show ¬ Along step (SpreadDefined groupId) coordinator (filledAt 0) by decide +kernel)

end Sample

end OrderExecution
