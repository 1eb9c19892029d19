import OrderExecution.ArbSteps

/-!
# What is filled of a leg

A leg holds the price and the quantity of the last fill message that named it,
and zero if none has since `add_leg` stored its order: `legAmounts_run`.
-/

namespace OrderExecution

open ArbCoordinator Machine

def Order.amounts (o : Order) : ℚ × ℚ := (o.avgFillPrice, o.filledQuantity)

/-! ## The handlers that are no fills -/

theorem amounts_acknowledged (p : ArbPair) (b b' : Bool) (r : OrderResult) :
    ((p.acknowledged b r).leg b').amounts = (p.leg b').amounts := by
  cases b with
  | true => cases b' <;> rfl
  | false =>
    simp only [ArbPair.acknowledged, ArbPair.setLeg, Bool.false_eq_true, ite_false]
    cases b' with
    | true => rfl
    | false => simp only [ArbPair.leg_false]; split <;> rfl

theorem amounts_rejected (p : ArbPair) (b b' : Bool) :
    ((p.rejected b).leg b').amounts = (p.leg b').amounts := by
  cases b with
  | true =>
    cases b' with
    | true => rfl
    | false => simp only [ArbPair.rejected, ite_true, ArbPair.leg_false]; split <;> rfl
  | false =>
    cases b' with
    | true => simp only [ArbPair.rejected, Bool.false_eq_true, ite_false, ArbPair.leg_true]; split <;> rfl
    | false => rfl

theorem amounts_identified (p : ArbPair) (b b' : Bool) (r : OrderResult) :
    ((p.identified b r).leg b').amounts = (p.leg b').amounts := by
  cases b <;> cases b' <;> rfl

theorem amounts_expired (p : ArbPair) (reason : CStr 63) (b : Bool) :
    ((p.expired reason).leg b).amounts = (p.leg b).amounts := by
  cases b with
  | true => simp only [ArbPair.expired, ArbPair.leg_true]; split <;> rfl
  | false => simp only [ArbPair.expired, ArbPair.leg_false]; split <;> rfl

theorem amounts_fillLeg_self (p : ArbPair) (b : Bool) (price qty : ℚ) (now : Int) :
    ((fillLeg p b price qty now).leg b).amounts = (price, qty) := by
  cases b <;> rfl

theorem leg_fillLeg_ne (p : ArbPair) {b b' : Bool} (h : b' ≠ b) (price qty : ℚ) (now : Int) :
    (fillLeg p b price qty now).leg b' = p.leg b' := by
  cases b <;> cases b' <;> first | rfl | exact absurd rfl h

/-! ## What the messages report -/

namespace ArbCoordinator

/-- What is filled of a leg of the pair `g` once the event has happened, if it
was `q` before. -/
def reports (c : ArbCoordinator) (g : CStr 15) (isCex : Bool) (q : ℚ × ℚ) : ArbEvent → ℚ × ℚ
  | .addLeg s _ => if s.groupId = g ∧ s.isCexLeg = isCex then (0, 0) else q
  | .onFill x price qty isReject _ =>
    if isReject = false ∧ (c.findLeg x).map (fun r => (r.1, r.2.2)) = some (g, isCex) then (price, qty) else q
  | _ => q

/-- What the run reports of a leg. -/
def reported (g : CStr 15) (isCex : Bool) : ArbCoordinator → ℚ × ℚ → List ArbEvent → ℚ × ℚ
  | _, q, [] => q
  | c, q, e :: es =>
    match c.step e with
    | none => q
    | some c' => reported g isCex c' (c.reports g isCex q e) es

end ArbCoordinator

def View.legAmounts (v : View) (isCex : Bool) : ℚ × ℚ :=
  (v.pair.map fun p => (p.leg isCex).amounts).getD (0, 0)

def ArbCoordinator.legAmounts (c : ArbCoordinator) (g : CStr 15) (isCex : Bool) : ℚ × ℚ :=
  (c.view g).legAmounts isCex

section
variable {c c' : ArbCoordinator} {g : CStr 15} {v v' : View} {e : ArbEvent} {b : Bool} {q : ℚ × ℚ}

theorem View.legAmounts_some {p : ArbPair} (h : v.pair = some p) : v.legAmounts b = (p.leg b).amounts := by
  rw [legAmounts, h, Option.map_some, Option.getD_some]

theorem View.legAmounts_none (h : v.pair = none) : v.legAmounts b = (0, 0) := by
  rw [legAmounts, h, Option.map_none, Option.getD_none]

theorem View.legAmounts_congr (h : v'.pair = v.pair) : v'.legAmounts b = v.legAmounts b := by
  rw [legAmounts, h, legAmounts]

theorem legAmounts_of_lookup {p : ArbPair} (h : c.pairs.lookup g = some p) :
    c.legAmounts g b = (p.leg b).amounts := View.legAmounts_some h

theorem reports_of_not_touched (h : c.touched e ≠ some g) : c.reports g b q e = q := by
  cases e with
  | addLeg s now => exact if_neg fun hs => h (congrArg some hs.1)
  | onFill x price qty isReject now =>
    refine if_neg fun hs => h ?_
    obtain ⟨r, hr, he⟩ := Option.map_eq_some_iff.mp hs.2
    simp only [touched, hr, Option.map_some]
    exact congrArg (fun r => some r.1) he
  | dispatch | worker | portfolio | drawOrderId => rfl

theorem reports_onFill {x : Bytes} {p : ArbPair} {b₀ : Bool} (hf : c.findLeg x = some (g, p, b₀)) (price qty : ℚ)
    (now : Int) : c.reports g b q (.onFill x price qty false now) = if b = b₀ then (price, qty) else q := by
  simp only [reports, hf, Option.map_some, Option.some.injEq, Prod.mk.injEq, true_and, eq_comm]

theorem reports_cases (hadd : ∀ s now, e = .addLeg s now → s.groupId ≠ g) : c.reports g b q e = q ∨
    ∃ x price qty now p, e = .onFill x price qty false now ∧ c.findLeg x = some (g, p, b) ∧
      c.reports g b q e = (price, qty) := by
  cases e with
  | addLeg s now => exact .inl (if_neg fun hs => hadd s now rfl hs.1)
  | onFill x price qty isReject now =>
    by_cases h : isReject = false ∧ (c.findLeg x).map (fun r => (r.1, r.2.2)) = some (g, b)
    · obtain ⟨⟨g', p, b'⟩, hr, he⟩ := Option.map_eq_some_iff.mp h.2
      cases he
      exact .inr ⟨x, price, qty, now, p, by rw [h.1], hr, if_pos h⟩
    · exact .inl (if_neg h)
  | dispatch | worker | portfolio | drawOrderId => exact .inl rfl

theorem legAmounts_fillLeg {x : Bytes} {p : ArbPair} {b₀ : Bool} (hf : c.findLeg x = some (g, p, b₀))
    (price qty : ℚ) (now : Int) :
    ((fillLeg p b₀ price qty now).leg b).amounts =
      c.reports g b (p.leg b).amounts (.onFill x price qty false now) := by
  rw [reports_onFill hf]
  by_cases hb : b = b₀
  · rw [if_pos hb, hb, amounts_fillLeg_self]
  · rw [if_neg hb, leg_fillLeg_ne p hb]

theorem PairStep.legAmounts (h : PairStep c g v e v') : v'.legAmounts b = c.reports g b (v.legAmounts b) e := by
  cases h with
  | other ht => rw [reports_of_not_touched ht]
  | @addLeg s now p hg hp =>
    rw [View.legAmounts_some rfl]
    simp only [reports, hg, true_and]
    by_cases hb : s.isCexLeg = b
    · rw [if_pos hb, ← hb, hp]
      exact congrArg Order.amounts (leg_withLeg _ (c.newOrder s now))
    · rw [if_neg hb, hp, leg_withLeg_ne _ (c.newOrder s now) (Ne.symm hb)]
      cases hv : v.pair with
      | none => rw [View.legAmounts_none hv]; cases b <;> rfl
      | some p₀ => rw [View.legAmounts_some hv]; rfl
  | enterReturns _ _ | lookupFails _ _ | lookup _ _ | startMonitor _ => exact View.legAmounts_congr rfl
  | deadlineIdle _ _ | sendResultIdle _ _ | riskIdle _ _ | unwindSend _ | unwindResultIdle _ _ =>
    exact View.legAmounts_congr rfl
  | sendCex _ | sendDex _ => exact View.legAmounts_congr (pair_send ..)
  | enterRefused _ h₁ _ _ | enterDispatches _ h₁ _ _ | riskCex _ h₁ _ | riskDex _ h₁ _ | unwindResult _ h₁ =>
    rw [View.legAmounts_some rfl, View.legAmounts_some h₁]
    cases b <;> rfl
  | deadline _ h₁ _ _ =>
    rw [View.legAmounts_some rfl, View.legAmounts_some h₁, amounts_expired]
    rfl
  | sendSucceeded _ h₁ _ _ =>
    rw [View.legAmounts_some rfl, View.legAmounts_some h₁, amounts_acknowledged]
    rfl
  | sendFailed _ h₁ _ _ =>
    rw [View.legAmounts_some (pair_reject ..), View.legAmounts_some h₁, amounts_rejected, amounts_identified]
    rfl
  | legRejected _ h₁ =>
    rw [View.legAmounts_some (pair_reject ..), View.legAmounts_some h₁, amounts_rejected]
    simp only [reports, Bool.true_eq_false, false_and, ite_false]
  | firstFill hf h₁ _ | secondFill hf h₁ _ =>
    rw [View.legAmounts_some rfl, View.legAmounts_some h₁, ← legAmounts_fillLeg hf]
    cases b <;> rfl
  | lateFill hf h₁ _ _ => rw [View.legAmounts_some rfl, View.legAmounts_some h₁, ← legAmounts_fillLeg hf]

theorem legAmounts_step (hk : c.Keyed) (h : c.step e = some c') :
    c'.legAmounts g b = c.reports g b (c.legAmounts g b) e := (step_view hk h g).legAmounts

theorem legAmounts_run (hk : c.Keyed) {es : List ArbEvent} (h : run step c es = some c') :
    c'.legAmounts g b = reported g b c (c.legAmounts g b) es := by
  induction es generalizing c with
  | nil => cases h; rfl
  | cons e es ih =>
    obtain ⟨c₁, hs, hr⟩ := run_cons h
    rw [ih (hk.step hs) hr, legAmounts_step hk hs]
    simp only [reported, hs]

/-- In every reachable state a leg holds what the run reports of it. -/
theorem amounts_of_run {config : ArbConfig} {portfolio : PortfolioGuard} {hasGateway : Exchange → Bool}
    {es : List ArbEvent} (h : run step (init config portfolio hasGateway) es = some c) {p : ArbPair}
    (hp : c.pairs.lookup g = some p) (b : Bool) :
    (p.leg b).amounts = reported g b (init config portfolio hasGateway) (0, 0) es := by
  rw [← legAmounts_of_lookup hp, legAmounts_run (keyed_init config portfolio hasGateway) h]
  rfl

end

end OrderExecution
