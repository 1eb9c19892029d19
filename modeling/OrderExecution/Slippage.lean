import OrderExecution.ArbStatus
import OrderExecution.Spreads

/-!
# Slippage erodes the spread

The leg that buys is the one the spreads are relative to. Slippage makes it
dearer and the leg that sells cheaper, so the realized spread is at most the
expected one, and the more slippage the smaller it is.
-/

namespace OrderExecution

open ArbCoordinator Machine

/-! ## The slipped prices -/

section
variable {slippageBps slippageBps' : ℚ} {s : Signal}

theorem slippedPrice_of_nonpos (h : slippageBps ≤ 0) (s : Signal) : slippedPrice slippageBps s = s.price :=
  if_neg fun hs => not_lt.mpr h hs.2

theorem slippedPrice_buy (hside : s.side = .BUY) (hprice : 0 < s.price) :
    slippedPrice slippageBps s = s.price * (1 + max slippageBps 0 / 10000) := by
  unfold slippedPrice
  by_cases h : slippageBps > 0
  · rw [if_pos ⟨hprice, h⟩, max_eq_left h.le]
    exact if_pos hside
  · rw [if_neg (fun hs => h hs.2), max_eq_right (not_lt.mp h)]
    ring

theorem slippedPrice_sell (hside : s.side = .SELL) (hprice : 0 < s.price) :
    slippedPrice slippageBps s = s.price * (1 - max slippageBps 0 / 10000) := by
  unfold slippedPrice
  by_cases h : slippageBps > 0
  · rw [if_pos ⟨hprice, h⟩, max_eq_left h.le]
    exact if_neg (by rw [hside]; decide)
  · rw [if_neg (fun hs => h hs.2), max_eq_right (not_lt.mp h)]
    ring

theorem max_div_mono (hle : slippageBps ≤ slippageBps') : max slippageBps 0 / 10000 ≤ max slippageBps' 0 / 10000 :=
  div_le_div_of_nonneg_right (max_le_max hle le_rfl) (by norm_num)

theorem slippedPrice_buy_pos (hside : s.side = .BUY) (hprice : 0 < s.price) : 0 < slippedPrice slippageBps s := by
  have hslip : 0 ≤ max slippageBps 0 / 10000 := div_nonneg (le_max_right _ _) (by norm_num)
  rw [slippedPrice_buy hside hprice]
  exact mul_pos hprice (by linarith)

theorem slippedPrice_buy_mono (hside : s.side = .BUY) (hprice : 0 < s.price) (hle : slippageBps ≤ slippageBps') :
    slippedPrice slippageBps s ≤ slippedPrice slippageBps' s := by
  rw [slippedPrice_buy hside hprice, slippedPrice_buy hside hprice]
  exact mul_le_mul_of_nonneg_left (by linarith [max_div_mono hle]) hprice.le

theorem slippedPrice_sell_nonneg (hside : s.side = .SELL) (hprice : 0 < s.price) (hmax : slippageBps ≤ 10000) :
    0 ≤ slippedPrice slippageBps s := by
  have hslip : max slippageBps 0 / 10000 ≤ 1 := by
    rw [div_le_one (by norm_num)]
    exact max_le hmax (by norm_num)
  rw [slippedPrice_sell hside hprice]
  exact mul_nonneg hprice.le (by linarith)

theorem slippedPrice_sell_anti (hside : s.side = .SELL) (hprice : 0 < s.price) (hle : slippageBps ≤ slippageBps') :
    slippedPrice slippageBps' s ≤ slippedPrice slippageBps s := by
  rw [slippedPrice_sell hside hprice, slippedPrice_sell hside hprice]
  exact mul_le_mul_of_nonneg_left (by linarith [max_div_mono hle]) hprice.le

end

/-- A dearer buy and a cheaper sale make a smaller spread. -/
theorem spread_le {buy buy' sell sell' : ℚ} (hpos : 0 < buy) (hbuy : buy ≤ buy') (hnonneg : 0 ≤ sell')
    (hsell : sell' ≤ sell) : (sell' - buy') / buy' * 10000 ≤ (sell - buy) / buy * 10000 := by
  have hpos' : 0 < buy' := hpos.trans_le hbuy
  have hratio : sell' / buy' ≤ sell / buy :=
    (div_le_div_of_nonneg_left hnonneg hpos hbuy).trans (div_le_div_of_nonneg_right hsell hpos.le)
  rw [sub_div, sub_div, div_self hpos.ne', div_self hpos'.ne']
  linarith

/-! ## The spread under a slippage of each gateway -/

/-- The realized spread of the pair when the gateways fill its legs with these
slippages. -/
def slippedSpread (slippageBps : Bool → ℚ) (p : ArbPair) : ℚ :=
  calcRealizedSpread { p with
    cexLeg := { p.cexLeg with avgFillPrice := slippedPrice (slippageBps true) p.cexLeg.signal }
    dexLeg := { p.dexLeg with avgFillPrice := slippedPrice (slippageBps false) p.dexLeg.signal } }

/-- The legs have opposite sides and limit prices. -/
structure ArbPair.Opposed (p : ArbPair) : Prop where
  side : p.dexLeg.signal.side = p.cexLeg.signal.side.opposite
  price (b : Bool) : 0 < (p.leg b).signal.price

section
variable {p q : ArbPair} {slippageBps slippageBps' : Bool → ℚ}

theorem ArbPair.Opposed.base_side (h : p.Opposed) :
    (p.leg p.base).signal.side = .BUY ∧ (p.leg (!p.base)).signal.side = .SELL := by
  have hside := h.side
  unfold ArbPair.base
  cases hc : p.cexLeg.signal.side with
  | BUY =>
    rw [hc] at hside
    exact ⟨hc, hside⟩
  | SELL =>
    rw [hc] at hside
    exact ⟨hside, hc⟩

theorem slippedSpread_eq (slippageBps : Bool → ℚ) (p : ArbPair) : slippedSpread slippageBps p =
    (slippedPrice (slippageBps !p.base) (p.leg (!p.base)).signal -
        slippedPrice (slippageBps p.base) (p.leg p.base).signal) /
      slippedPrice (slippageBps p.base) (p.leg p.base).signal * 10000 := by
  rw [slippedSpread, calcRealizedSpread_eq]
  let q : ArbPair := { p with
    cexLeg := { p.cexLeg with avgFillPrice := slippedPrice (slippageBps true) p.cexLeg.signal }
    dexLeg := { p.dexLeg with avgFillPrice := slippedPrice (slippageBps false) p.dexLeg.signal } }
  have hprice : ∀ b, (q.leg b).avgFillPrice = slippedPrice (slippageBps b) (p.leg b).signal := by
    intro b
    cases b <;> rfl
  show ((q.leg (!p.base)).avgFillPrice - (q.leg p.base).avgFillPrice) / (q.leg p.base).avgFillPrice * 10000 = _
  rw [hprice, hprice]

theorem slippedSpread_of_sameLegs (hl : p.SameLegs q) (slippageBps : Bool → ℚ) :
    slippedSpread slippageBps q = slippedSpread slippageBps p := by
  have hc : q.cexLeg.signal = p.cexLeg.signal := hl.signal true
  have hd : q.dexLeg.signal = p.dexLeg.signal := hl.signal false
  unfold slippedSpread calcRealizedSpread
  rw [hc, hd]

/-- The realized spread never grows with a slippage. -/
theorem ArbPair.Opposed.slippedSpread_anti (h : p.Opposed) (hle : ∀ b, slippageBps b ≤ slippageBps' b)
    (hmax : ∀ b, slippageBps' b ≤ 10000) : slippedSpread slippageBps' p ≤ slippedSpread slippageBps p := by
  obtain ⟨hbuy, hsell⟩ := h.base_side
  rw [slippedSpread_eq, slippedSpread_eq]
  exact spread_le (slippedPrice_buy_pos hbuy (h.price _)) (slippedPrice_buy_mono hbuy (h.price _) (hle _))
    (slippedPrice_sell_nonneg hsell (h.price _) (hmax _)) (slippedPrice_sell_anti hsell (h.price _) (hle _))

/-- Without slippage the realized spread is the expected one. -/
theorem ArbPair.Opposed.slippedSpread_expected (h : p.Opposed) (hslip : ∀ b, slippageBps b ≤ 0) :
    slippedSpread slippageBps p = calcExpectedSpread p.cexLeg.signal p.dexLeg.signal := by
  have hprice : ∀ b, spreadPrice (p.leg b).signal = (p.leg b).signal.price := fun b => if_pos (h.price b)
  rw [slippedSpread_eq, calcExpectedSpread_eq, ArbPair.expectedDenominator, hprice, hprice,
    slippedPrice_of_nonpos (hslip _), slippedPrice_of_nonpos (hslip _)]

theorem ArbPair.Opposed.slippedSpread_le (h : p.Opposed) (hmax : ∀ b, slippageBps b ≤ 10000) :
    slippedSpread slippageBps p ≤ calcExpectedSpread p.cexLeg.signal p.dexLeg.signal := by
  have hnone : slippedSpread (fun b => min (slippageBps b) 0) p =
      calcExpectedSpread p.cexLeg.signal p.dexLeg.signal := h.slippedSpread_expected fun b => min_le_right _ _
  rw [← hnone]
  exact h.slippedSpread_anti (fun b => min_le_left _ _) hmax

end

/-! ## Runs that finalize the pair -/

/-- No leg of the pair `g` is stored again, and a fill message of a leg is what a
mock gateway of this slippage reports of its order. -/
def FilledByGateways (g : CStr 15) (slippageBps : Bool → ℚ) (c : ArbCoordinator) (e : ArbEvent) : Prop :=
  GatewayFilled g slippageBps c e ∧ ∀ s now, e = .addLeg s now → s.groupId ≠ g

/-- The step runs `finalize_pair` for the pair `g`, which then is `q`. -/
def Finalizes (g : CStr 15) (q : ArbPair) (c : ArbCoordinator) : ArbEvent → Prop
  | .onFill x price qty false now => ∃ p b, c.findLeg x = some (g, p, b) ∧ p.status = ArbPair.oneSided (!b) ∧
      q = (c.finalizePair g { fillLeg p b price qty now with status := .ALL_FILLED }).2
  | _ => False

/-- In a run from `c` the gateways fill the legs of the pair `g`, and it is
finalized as `q`. -/
def Settles (c : ArbCoordinator) (g : CStr 15) (slippageBps : Bool → ℚ) (q : ArbPair) : Prop :=
  ∃ es e c₁, Along step (FilledByGateways g slippageBps) c (es ++ [e]) ∧ run step c es = some c₁ ∧
    Finalizes g q c₁ e

/-- While a pair waits for fills, its expected spread is that of its legs, and the
leg that is filled is filled at the slipped price. -/
structure Awaits (slippageBps : Bool → ℚ) (p : ArbPair) : Prop where
  expected : p.status = .DISPATCHED ∨ (∃ b, p.status = ArbPair.oneSided b) →
    p.expectedSpreadBps = calcExpectedSpread p.cexLeg.signal p.dexLeg.signal
  filled (b : Bool) : p.status = ArbPair.oneSided b →
    (p.leg b).avgFillPrice = slippedPrice (slippageBps b) (p.leg b).signal

section
variable {c c' : ArbCoordinator} {g : CStr 15} {v v' : View} {e : ArbEvent} {p q : ArbPair}
  {slippageBps : Bool → ℚ}

theorem awaits_of_status (h₁ : p.status ≠ .DISPATCHED) (h₂ : ∀ b, p.status ≠ ArbPair.oneSided b) :
    Awaits slippageBps p :=
  ⟨fun h => absurd h (not_or.mpr ⟨h₁, fun ⟨b, hb⟩ => h₂ b hb⟩), fun b hb => absurd hb (h₂ b)⟩

theorem awaits_of_final (h : p.status.isFinal = true) : Awaits slippageBps p := by
  refine awaits_of_status (fun hs => ?_) fun b hs => ?_
  · rw [hs] at h; cases h
  · rw [hs, oneSided_ne_final b] at h; cases h

theorem awaits_of_unwinding (h : p.status = .UNWINDING) : Awaits slippageBps p :=
  awaits_of_status (by rw [h]; decide) fun b => by rw [h]; cases b <;> decide

theorem awaits_rejected (p : ArbPair) (b : Bool) : Awaits slippageBps (p.rejected b) := by
  refine awaits_of_status (fun h => ?_) (oneSided_of_rejected p b)
  have hrank := rank_rejected p b
  rw [h] at hrank
  exact absurd hrank (by decide)

theorem Awaits.congr (h : Awaits slippageBps p) (hstatus : q.status = p.status)
    (hspread : q.expectedSpreadBps = p.expectedSpreadBps) (hlegs : p.SameLegs q)
    (hamounts : ∀ b, (q.leg b).amounts = (p.leg b).amounts) : Awaits slippageBps q where
  expected hs := by
    have hc : q.cexLeg.signal = p.cexLeg.signal := hlegs.signal true
    have hd : q.dexLeg.signal = p.dexLeg.signal := hlegs.signal false
    rw [hspread, hc, hd]
    exact h.expected (hstatus ▸ hs)
  filled b hs := by
    have hprice : (q.leg b).avgFillPrice = (p.leg b).avgFillPrice := congrArg Prod.fst (hamounts b)
    rw [hprice, hlegs.signal b]
    exact h.filled b (hstatus ▸ hs)

theorem expectedSpreadBps_fillLeg (p : ArbPair) (b : Bool) (price qty : ℚ) (now : Int) :
    (fillLeg p b price qty now).expectedSpreadBps = p.expectedSpreadBps := by
  cases b <;> rfl

theorem expectedSpreadBps_acknowledged (p : ArbPair) (b : Bool) (r : OrderResult) :
    (p.acknowledged b r).expectedSpreadBps = p.expectedSpreadBps := by
  cases b <;> rfl

theorem calcExpectedSpread_fillLeg (p : ArbPair) (b : Bool) (price qty : ℚ) (now : Int) :
    calcExpectedSpread (fillLeg p b price qty now).cexLeg.signal (fillLeg p b price qty now).dexLeg.signal =
      calcExpectedSpread p.cexLeg.signal p.dexLeg.signal := by
  cases b <;> rfl

theorem fillLeg_at_slipped {b : Bool} {price : ℚ} (hprice : price = slippedPrice (slippageBps b) (p.leg b).signal)
    (qty : ℚ) (now : Int) : ((fillLeg p b price qty now).leg b).avgFillPrice =
      slippedPrice (slippageBps b) ((fillLeg p b price qty now).leg b).signal := by
  cases b <;> exact hprice

theorem Awaits.first (h : Awaits slippageBps p) {b : Bool} {price : ℚ}
    (hprice : price = slippedPrice (slippageBps b) (p.leg b).signal) (hs : p.status = .DISPATCHED) (qty : ℚ)
    (now : Int) : Awaits slippageBps { fillLeg p b price qty now with status := ArbPair.oneSided b } where
  expected _ := (expectedSpreadBps_fillLeg ..).trans
    ((h.expected (.inl hs)).trans (calcExpectedSpread_fillLeg p b price qty now).symm)
  filled b' hb' := by
    have hb : b' = b := by
      cases b <;> cases b' <;> first | rfl | cases hb'
    have hfilled := fillLeg_at_slipped hprice qty now
    rw [hb]
    cases b <;> exact hfilled

theorem Awaits.late (h : Awaits slippageBps p) {b : Bool} {price : ℚ}
    (hprice : price = slippedPrice (slippageBps b) (p.leg b).signal) (qty : ℚ) (now : Int) :
    Awaits slippageBps (fillLeg p b price qty now) where
  expected hs := (expectedSpreadBps_fillLeg ..).trans
    ((h.expected (by rwa [status_fillLeg] at hs)).trans (calcExpectedSpread_fillLeg p b price qty now).symm)
  filled b' hb' := by
    by_cases hb : b' = b
    · rw [hb]
      exact fillLeg_at_slipped hprice qty now
    · rw [status_fillLeg] at hb'
      rw [leg_fillLeg_ne p hb]
      exact h.filled b' hb'

theorem GatewayFilled.price {x : Bytes} {price qty : ℚ} {now : Int} {b : Bool}
    (h : GatewayFilled g slippageBps c (.onFill x price qty false now)) (hf : c.findLeg x = some (g, p, b)) :
    price = slippedPrice (slippageBps b) (p.leg b).signal := by
  obtain ⟨f, hfilled, -, rfl, -⟩ := h p b hf
  exact hfilled.amounts.2

theorem Awaits.step (h : ∀ p, v.pair = some p → Awaits slippageBps p) (hs : PairStep c g v e v')
    (he : FilledByGateways g slippageBps c e) {p' : ArbPair} (hp' : v'.pair = some p') : Awaits slippageBps p' := by
  cases hs with
  | other _ => exact h p' hp'
  | addLeg hg _ => exact absurd hg (he.2 _ _ rfl)
  | enterReturns _ _ | lookupFails _ _ | lookup _ _ | startMonitor _ | deadlineIdle _ _ => exact h p' hp'
  | sendResultIdle _ _ | riskIdle _ _ | unwindSend _ | unwindResultIdle _ _ => exact h p' hp'
  | sendCex _ | sendDex _ => rw [pair_send] at hp'; exact h p' hp'
  | enterRefused _ _ _ _ | deadline _ _ _ _ | riskDex _ _ _ =>
    cases hp'
    exact awaits_of_final rfl
  | @enterDispatches now p _ _ _ _ =>
    cases hp'
    exact ⟨fun _ => rfl, fun b hb => by cases b <;> cases hb⟩
  | sendSucceeded _ hp _ _ =>
    cases hp'
    exact (h _ hp).congr (status_acknowledged ..) (expectedSpreadBps_acknowledged ..)
      (ArbPair.sameLegs_acknowledged ..) (amounts_acknowledged _ _ · _)
  | sendFailed _ _ _ _ | legRejected _ _ =>
    rw [pair_reject] at hp'
    cases hp'
    exact awaits_rejected ..
  | riskCex _ _ _ => cases hp'; exact awaits_of_unwinding rfl
  | @unwindResult r now p _ _ =>
    cases hp'
    exact awaits_of_final (by cases r.success <;> rfl)
  | firstFill hf hp hstatus =>
    cases hp'
    exact (h _ hp).first (he.1.price hf) hstatus _ _
  | secondFill _ _ _ => cases hp'; exact awaits_of_final rfl
  | lateFill hf hp _ _ =>
    cases hp'
    exact (h _ hp).late (he.1.price hf) _ _

/-- The pair `g` has the legs of `p₀`, and they are filled at the slipped prices. -/
structure Tracks (g : CStr 15) (slippageBps : Bool → ℚ) (p₀ : ArbPair) (c : ArbCoordinator) : Prop where
  keyed : c.Keyed
  pair : ∃ p, c.pairs.lookup g = some p ∧ p₀.SameLegs p ∧ Awaits slippageBps p

theorem Tracks.step {p₀ : ArbPair} (h : Tracks g slippageBps p₀ c) (he : FilledByGateways g slippageBps c e)
    (hs : c.step e = some c') : Tracks g slippageBps p₀ c' := by
  obtain ⟨p, hp, hlegs, hawaits⟩ := h.pair
  have hview := step_view h.keyed hs g
  obtain ⟨p', hp', hlegs'⟩ := hview.legs_after he.2 hp
  refine ⟨h.keyed.step hs, p', hp', hlegs.trans hlegs', Awaits.step (fun p₁ hp₁ => ?_) hview he hp'⟩
  obtain rfl := Option.some.inj (hp.symm.trans hp₁)
  exact hawaits

theorem calcRealizedSpread_of_slipped
    (h : ∀ b, (p.leg b).avgFillPrice = slippedPrice (slippageBps b) (p.leg b).signal) :
    calcRealizedSpread p = slippedSpread slippageBps p := by
  rw [slippedSpread_eq, calcRealizedSpread_eq, ArbPair.realizedDenominator, h, h]

theorem realizedSpreadBps_finalizePair (c : ArbCoordinator) (g : CStr 15) (p : ArbPair) :
    (c.finalizePair g p).2.realizedSpreadBps = calcRealizedSpread p := by
  unfold finalizePair
  split <;> rfl

theorem expectedSpreadBps_finalizePair (c : ArbCoordinator) (g : CStr 15) (p : ArbPair) :
    (c.finalizePair g p).2.expectedSpreadBps = p.expectedSpreadBps := by
  unfold finalizePair
  split <;> rfl

/-- Both spreads of a pair that is finalized, by the legs that it was assembled
of. -/
theorem Tracks.finalizes {p₀ : ArbPair} (h : Tracks g slippageBps p₀ c) (he : FilledByGateways g slippageBps c e)
    (hf : Finalizes g q c e) : q.realizedSpreadBps = slippedSpread slippageBps p₀ ∧
      q.expectedSpreadBps = calcExpectedSpread p₀.cexLeg.signal p₀.dexLeg.signal := by
  obtain ⟨p, hp, hlegs, hawaits⟩ := h.pair
  cases e with
  | onFill x price qty isReject now =>
    cases isReject with
    | true => cases hf
    | false =>
      obtain ⟨p₁, b, hfind, hstatus, rfl⟩ := hf
      obtain rfl := Option.some.inj (hp.symm.trans (mem_pairs_of_findLeg hfind).1)
      have hprice := he.1.price hfind
      have hall : ∀ b', ((fillLeg p b price qty now).leg b').avgFillPrice =
          slippedPrice (slippageBps b') ((fillLeg p b price qty now).leg b').signal := by
        intro b'
        by_cases hb : b' = b
        · rw [hb]
          exact fillLeg_at_slipped hprice qty now
        · rw [leg_fillLeg_ne p hb]
          exact hawaits.filled b' (by rw [hstatus, Bool.eq_not_of_ne hb])
      have hfilled : p₀.SameLegs (fillLeg p b price qty now) := hlegs.trans (ArbPair.sameLegs_fillLeg ..)
      constructor
      · rw [realizedSpreadBps_finalizePair, ← slippedSpread_of_sameLegs hfilled]
        exact calcRealizedSpread_of_slipped hall
      · have hc : p.cexLeg.signal = p₀.cexLeg.signal := hlegs.signal true
        have hd : p.dexLeg.signal = p₀.dexLeg.signal := hlegs.signal false
        rw [expectedSpreadBps_finalizePair, ← hc, ← hd, ← hawaits.expected (.inr ⟨!b, hstatus⟩)]
        exact expectedSpreadBps_fillLeg p b price qty now
  | addLeg | dispatch | worker | portfolio | drawOrderId => cases hf

theorem Settles.spreads (hk : c.Keyed) (hp : c.pairs.lookup g = some p) (hs : p.status = .ASSEMBLING)
    (h : Settles c g slippageBps q) : q.realizedSpreadBps = slippedSpread slippageBps p ∧
      q.expectedSpreadBps = calcExpectedSpread p.cexLeg.signal p.dexLeg.signal := by
  obtain ⟨es, e, c₁, halong, hr, hf⟩ := h
  have hstart : Tracks g slippageBps p c := ⟨hk, p, hp, .refl p,
    awaits_of_status (by rw [hs]; decide) fun b => by rw [hs]; cases b <;> decide⟩
  have hes : Along step (FilledByGateways g slippageBps) c es := by
    refine along_iff.mpr fun es₁ a es₂ t he ht => along_iff.mp halong es₁ a (es₂ ++ [e]) t ?_ ht
    rw [he, List.append_assoc]
    rfl
  have htracks : Tracks g slippageBps p c₁ := inv_along (fun _ _ _ h he hs => h.step he hs) hes hstart hr
  exact htracks.finalizes (along_iff.mp halong es e [] c₁ rfl hr) hf

/-- Slippage of the gateways never makes the realized spread greater than the
expected one, more of it never makes it greater than less of it, and without any
the two are equal. -/
theorem slippage_erodes_spread (config : ArbConfig) (portfolio : PortfolioGuard) (hasGateway : Exchange → Bool)
    {before : List ArbEvent} (hc : run step (init config portfolio hasGateway) before = some c)
    (hp : c.pairs.lookup g = some p) (hs : p.status = .ASSEMBLING) (hopposed : p.Opposed)
    {slippageBps slippageBps' : Bool → ℚ} (hle : ∀ b, slippageBps b ≤ slippageBps' b)
    (hmax : ∀ b, slippageBps' b ≤ 10000) {q q' : ArbPair} (h : Settles c g slippageBps q)
    (h' : Settles c g slippageBps' q') :
    q.realizedSpreadBps ≤ q.expectedSpreadBps ∧
      ((∀ b, slippageBps b ≤ 0) → q.realizedSpreadBps = q.expectedSpreadBps) ∧
      q'.realizedSpreadBps ≤ q.realizedSpreadBps := by
  have hk : c.Keyed := keyed_run hc
  obtain ⟨hrealized, hexpected⟩ := h.spreads hk hp hs
  obtain ⟨hrealized', -⟩ := h'.spreads hk hp hs
  rw [hrealized, hexpected, hrealized']
  refine ⟨hopposed.slippedSpread_le fun b => (hle b).trans (hmax b), ?_, hopposed.slippedSpread_anti hle hmax⟩
  exact fun hslip => hopposed.slippedSpread_expected hslip

end

namespace Sample

def assembled : ArbCoordinator := (run step coordinator (dispatch.take 2)).getD coordinator

def assembledPair : ArbPair := (assembled.pairs.lookup groupId).getD {}

/-- Both orders are sent and acknowledged, and the CEX leg is filled. -/
def toCexFill : List ArbEvent := dispatch.drop 2 ++ acknowledged ++ [cexFill 4]

def dexFillAt (price : ℚ) : ArbEvent := .onFill (hlIdOf dexOrder.orderId) price 1 false 5

/-- The DEX gateway slips by half a percent. -/
def dexSlips (isCex : Bool) : ℚ := if isCex then 0 else 50

/-- The fill message of a leg reports its whole order, at the slipped price. -/
def FillsSlipped (slippageBps : Bool → ℚ) (c : ArbCoordinator) : ArbEvent → Prop
  | .addLeg _ _ => False
  | .onFill x price qty false _ => ∀ p b, c.findLeg x = some (groupId, p, b) →
      x = (CStr.copy 31 (if b then exIdOf (p.leg b).orderId else hlIdOf (p.leg b).orderId)).bytes ∧
        price = slippedPrice (slippageBps b) (p.leg b).signal ∧ qty = (p.leg b).signal.quantity
  | _ => True

instance decidableFillsSlipped (slippageBps : Bool → ℚ) (c : ArbCoordinator) :
    ∀ e, Decidable (FillsSlipped slippageBps c e)
  | .addLeg _ _ => isFalse id
  | .onFill x price qty false _ => inferInstanceAs (Decidable (∀ p b, c.findLeg x = some (groupId, p, b) →
      x = (CStr.copy 31 (if b then exIdOf (p.leg b).orderId else hlIdOf (p.leg b).orderId)).bytes ∧
        price = slippedPrice (slippageBps b) (p.leg b).signal ∧ qty = (p.leg b).signal.quantity))
  | .onFill _ _ _ true _ | .dispatch _ _ | .worker _ _ _ | .portfolio _ | .drawOrderId => isTrue trivial

theorem filledByGateways_of_fillsSlipped {slippageBps : Bool → ℚ} {c : ArbCoordinator} {e : ArbEvent}
    (h : FillsSlipped slippageBps c e) : FilledByGateways groupId slippageBps c e := by
  cases e with
  | addLeg s now => exact h.elim
  | onFill x price qty isReject now =>
    refine ⟨?_, fun s now he => by cases he⟩
    cases isReject with
    | true => trivial
    | false =>
      intro p b hfind
      obtain ⟨hx, rfl, rfl⟩ := h p b hfind
      cases b with
      | true => exact ⟨_, .cex { slippageBps := slippageBps true } 0 rfl rfl, hx, rfl, rfl⟩
      | false => exact ⟨_, .dex { slippageBps := slippageBps false } .empty 0 0 rfl (lt_irrefl 0) rfl, hx, rfl, rfl⟩
  | dispatch | worker | portfolio | drawOrderId => exact ⟨trivial, fun s now he => by cases he⟩

def halfSettled : ArbCoordinator := (run step assembled toCexFill).getD assembled

def halfSettledPair : ArbPair := (halfSettled.pairs.lookup groupId).getD {}

/-- The pair as the fill of its DEX leg finalizes it. -/
def settledPair (price : ℚ) : ArbPair :=
  (halfSettled.finalizePair groupId { fillLeg halfSettledPair false price 1 5 with status := .ALL_FILLED }).2

theorem toCexFill_run : run step assembled toCexFill = some halfSettled := by
  obtain ⟨c, hc⟩ := Option.isSome_iff_exists.mp (show (run step assembled toCexFill).isSome by decide +kernel)
  rw [halfSettled, hc]
  rfl

theorem settles_settledPair {slippageBps : Bool → ℚ} {price : ℚ}
    (h : Along step (FillsSlipped slippageBps) assembled (toCexFill ++ [dexFillAt price])) :
    Settles assembled groupId slippageBps (settledPair price) :=
  have hfind : halfSettled.findLeg (hlIdOf dexOrder.orderId) = some (groupId, halfSettledPair, false) := by
    decide +kernel
  ⟨toCexFill, dexFillAt price, halfSettled, h.mono fun _ _ => filledByGateways_of_fillsSlipped, toCexFill_run,
    halfSettledPair, false, hfind, by decide +kernel, rfl⟩

theorem slippage_erodes_spread_dex :
    (settledPair 100).realizedSpreadBps = (settledPair 100).expectedSpreadBps ∧
      (settledPair (199 / 2)).realizedSpreadBps ≤ (settledPair 100).realizedSpreadBps := by
  have hstart : run step coordinator (dispatch.take 2) = some assembled := by
    obtain ⟨c, hc⟩ := Option.isSome_iff_exists.mp (show (run step coordinator (dispatch.take 2)).isSome by
      decide +kernel)
    rw [assembled, hc]
    rfl
  have hopposed : assembledPair.Opposed := ⟨by decide +kernel, by decide +kernel⟩
  have hplain : Settles assembled groupId (fun _ => 0) (settledPair 100) := settles_settledPair (by decide +kernel)
  have hslipped : Settles assembled groupId dexSlips (settledPair (199 / 2)) :=
    settles_settledPair (by decide +kernel)
  obtain ⟨-, hequal, hless⟩ := slippage_erodes_spread {} (.init {}) (fun _ => true) hstart (g := groupId)
    (p := assembledPair) (by decide +kernel) (by decide +kernel) hopposed
    (fun b => by cases b <;> norm_num [dexSlips]) (fun b => by cases b <;> norm_num [dexSlips]) hplain hslipped
  exact ⟨hequal fun _ => le_rfl, hless⟩

end Sample

end OrderExecution
