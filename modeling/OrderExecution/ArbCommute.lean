import OrderExecution.ArbSteps

/-!
# The send result and the fill of a leg

Two threads write the status of a leg without reading it: the one that waits
for the send result, and the callback of the fill. The status of the pair does
not depend on their order. The status of the leg is the later writer's, so
`handle_leg_reject`, which reads it on a reject of the other leg, goes another
way.
-/

namespace OrderExecution

open ArbCoordinator Machine

namespace ArbPair

/-- The first test of `handle_leg_reject`: the other leg is there and filled. -/
def OtherFilled (p : ArbPair) (isCexReject : Bool) : Prop :=
  p.hasLeg (!isCexReject) = true ∧ (p.leg (!isCexReject)).status = .FILLED

end ArbPair

namespace ArbCoordinator

def ackStatus (isCex : Bool) : OrderStatus := if isCex then .ACKNOWLEDGED else .TX_PENDING

section
variable {c : ArbCoordinator} {g : CStr 15} {p : ArbPair} {b : Bool}

theorem matchLeg_acknowledged (p : ArbPair) (b : Bool) (r : OrderResult) (x : Bytes) :
    (p.acknowledged b r).matchLeg x = p.matchLeg x := by
  cases b
  · simp only [ArbPair.acknowledged, ArbPair.setLeg, Bool.false_eq_true, ite_false]
    split <;> rfl
  · rfl

theorem leg_acknowledged_status (p : ArbPair) (b : Bool) (r : OrderResult) :
    ((p.acknowledged b r).leg b).status = ackStatus b := by
  cases b
  · simp only [ArbPair.acknowledged, ArbPair.setLeg, Bool.false_eq_true, ite_false, ArbPair.leg_false]
    split <;> rfl
  · rfl

theorem findLeg_setPair {x : Bytes} {p' : ArbPair} (hx : p'.matchLeg x = some b) :
    (c.setPair g p').findLeg x = some (g, p', b) := by
  simp [findLeg, setPair, AList.entries_insert, hx]

def statusAfterFill (s : ArbPairStatus) (b : Bool) : ArbPairStatus :=
  if s = .DISPATCHED then ArbPair.oneSided b else if s = ArbPair.oneSided (!b) then .COMPLETED else s

theorem leg_fillLeg_status (p : ArbPair) (b : Bool) (price qty : ℚ) (now : Int) :
    ((fillLeg p b price qty now).leg b).status = .FILLED := by
  cases b <;> rfl

theorem ack_spec {r : OrderResult} (hw : .sendResult g b ∈ c.workers) (hp : c.pairs.lookup g = some p)
    (hb : p.hasLeg b = true) (hr : r.success = true) (now : Int) :
    ∃ c', c.step (.worker (.sendResult g b) r now) = some c' ∧
      c'.pairs.lookup g = some (p.acknowledged b r) ∧
      ∀ x, p.matchLeg x = some b → c'.findLeg x = some (g, p.acknowledged b r, b) := by
  refine ⟨(c.join (.sendResult g b)).setPair g (p.acknowledged b r), ?_, ?_, fun x hx => ?_⟩
  · simp only [step, hw, ite_true, runWorker, sendResult, pairs_join, hp, hb, hr]
    rfl
  · simp [setPair]
  · exact findLeg_setPair ((matchLeg_acknowledged ..).trans hx)

theorem fill_spec (hk : c.Keyed) {x : Bytes} (hx : c.findLeg x = some (g, p, b)) (price qty : ℚ) (now : Int) :
    ∃ c' p', c.step (.onFill x price qty false now) = some c' ∧ c'.pairs.lookup g = some p' ∧
      p'.status = statusAfterFill p.status b ∧ (p'.leg b).status = .FILLED ∧
      p'.hasLeg b = p.hasLeg b ∧ (c'.view g).workers = (c.view g).workers := by
  have hs := step_view hk (rfl : c.step (.onFill x price qty false now) = some (c.onFill x price qty false now)) g
  have hv : ∀ q b', c.findLeg x = some (g, q, b') → q = p ∧ b' = b := fun q b' h => by
    rw [hx, Option.some.injEq, Prod.mk.injEq, Prod.mk.injEq] at h; exact ⟨h.2.1.symm, h.2.2.symm⟩
  generalize hv' : (c.onFill x price qty false now).view g = v' at hs
  have hlook : ∀ p', v'.pair = some p' → (c.onFill x price qty false now).pairs.lookup g = some p' :=
    fun p' h => (congrArg View.pair hv').trans h
  cases hs with
  | other ht => exact absurd (by simp [ArbCoordinator.touched, hx]) ht
  | firstFill h₀ h₁ h₂ =>
    obtain ⟨rfl, rfl⟩ := hv _ _ h₀
    exact ⟨_, _, rfl, hlook _ rfl, by simp [statusAfterFill, h₂], leg_fillLeg_status ..,
      (ArbPair.sameLegs_fillLeg ..).hasLeg _, by rw [hv']⟩
  | @secondFill _ _ _ _ q b' h₀ h₁ h₂ =>
    obtain ⟨rfl, rfl⟩ := hv _ _ h₀
    have hne : q.status ≠ .DISPATCHED := by rw [h₂]; cases b' <;> decide
    refine ⟨_, _, rfl, hlook _ rfl, ?_, leg_fillLeg_status .., (ArbPair.sameLegs_fillLeg ..).hasLeg _, by rw [hv']⟩
    rw [statusAfterFill, if_neg hne, if_pos h₂]; rfl
  | lateFill h₀ h₁ h₂ h₃ =>
    obtain ⟨rfl, rfl⟩ := hv _ _ h₀
    refine ⟨_, _, rfl, hlook _ rfl, ?_, leg_fillLeg_status .., (ArbPair.sameLegs_fillLeg ..).hasLeg _, by rw [hv']⟩
    rw [statusAfterFill, if_neg h₂, if_neg h₃, status_fillLeg]

/-- For every leg whose send result is still to come, in any state of the pair,
the two orders end in the same pair status and in different leg statuses, and a
reject of the other leg takes another branch. -/
theorem ack_fill_never_commute (hk : c.Keyed) (hp : c.pairs.lookup g = some p) (hb : p.hasLeg b = true)
    (hw : .sendResult g b ∈ c.workers) {x : Bytes} (hx : c.findLeg x = some (g, p, b)) {r : OrderResult}
    (hr : r.success = true) (price qty : ℚ) (now₁ now₂ : Int) :
    ∃ c₁ c₂ p₁ p₂,
      run step c [.worker (.sendResult g b) r now₁, .onFill x price qty false now₂] = some c₁ ∧
      run step c [.onFill x price qty false now₂, .worker (.sendResult g b) r now₁] = some c₂ ∧
      c₁.pairs.lookup g = some p₁ ∧ c₂.pairs.lookup g = some p₂ ∧ p₁.status = p₂.status ∧
      (p₁.leg b).status = .FILLED ∧ (p₂.leg b).status = ackStatus b ∧
      p₁.OtherFilled (!b) ∧ ¬ p₂.OtherFilled (!b) := by
  obtain ⟨d₁, hd₁, hpd₁, hfind⟩ := ack_spec hw hp hb hr now₁
  obtain ⟨c₁, p₁, hc₁, hp₁, hs₁, hl₁, hb₁, -⟩ :=
    fill_spec (hk.step hd₁) (hfind x (mem_pairs_of_findLeg hx).2) price qty now₂
  obtain ⟨d₂, q, hd₂, hq, hsq, hlq, hbq, hwq⟩ := fill_spec hk hx price qty now₂
  have hw₂ : .sendResult g b ∈ d₂.workers := by
    have : .sendResult g b ∈ (d₂.view g).workers := hwq ▸ mem_workers_view hw rfl
    exact List.mem_of_mem_filter this
  obtain ⟨c₂, hc₂, hp₂, -⟩ := ack_spec hw₂ hq (hbq.trans hb) hr now₁
  refine ⟨c₁, c₂, p₁, q.acknowledged b r, by simp [run, hd₁, hc₁], by simp [run, hd₂, hc₂], hp₁, hp₂, ?_,
    hl₁, leg_acknowledged_status .., ?_, ?_⟩
  · rw [hs₁, status_acknowledged, status_acknowledged, hsq]
  · rw [ArbPair.OtherFilled, Bool.not_not]
    exact ⟨hb₁.trans (((p.sameLegs_acknowledged b r).hasLeg b).trans hb), hl₁⟩
  · rw [ArbPair.OtherFilled, Bool.not_not, leg_acknowledged_status]
    rintro ⟨-, h⟩
    cases b <;> cases h

end

section
open Sample

theorem ack_fill_never_commute_cex :
    ∃ c₁ c₂ p₁ p₂,
      run step dispatched [.worker (.sendResult groupId true) cexAck 3, cexFill 4] = some c₁ ∧
      run step dispatched [cexFill 4, .worker (.sendResult groupId true) cexAck 3] = some c₂ ∧
      c₁.pairs.lookup groupId = some p₁ ∧ c₂.pairs.lookup groupId = some p₂ ∧ p₁.status = p₂.status ∧
      (p₁.leg true).status = .FILLED ∧ (p₂.leg true).status = ackStatus true ∧
      p₁.OtherFilled (!true) ∧ ¬ p₂.OtherFilled (!true) :=
  ack_fill_never_commute dispatched_keyed (p := dispatchedPair) (by decide +kernel) (by decide +kernel)
    (by decide +kernel) (by decide +kernel) rfl 100 1 3 4

/-- The acknowledgement that comes after the fill hides it. -/
theorem not_ack_fill_commute :
    ¬ ∀ (config : ArbConfig) (portfolio : PortfolioGuard) (hasGateway : Exchange → Bool)
      (es : List ArbEvent) (c c₁ c₂ : ArbCoordinator) (g : CStr 15) (p : ArbPair) (b : Bool) (x : Bytes)
      (r : OrderResult) (price qty : ℚ) (now₁ now₂ : Int),
      run step (init config portfolio hasGateway) es = some c → c.pairs.lookup g = some p →
      p.status = .DISPATCHED ∨ p.status = .CEX_FILLED ∨ p.status = .DEX_FILLED →
      (p.leg b).status = .SENT → c.findLeg x = some (g, p, b) → r.success = true →
      run step c [.worker (.sendResult g b) r now₁, .onFill x price qty false now₂] = some c₁ →
      run step c [.onFill x price qty false now₂, .worker (.sendResult g b) r now₁] = some c₂ →
      (c₁.pairs.lookup g).map (fun p => ((p.leg b).status, p.status)) =
        (c₂.pairs.lookup g).map fun p => ((p.leg b).status, p.status) := by
  intro h
  obtain ⟨c₁, h₁, hs₁⟩ := Option.bind_eq_some_iff.mp (show
    (run step dispatched [.worker (.sendResult groupId true) cexAck 3, cexFill 4]).bind
      (fun c => (c.pairs.lookup groupId).map fun p => ((p.leg true).status, p.status)) =
        some (.FILLED, .CEX_FILLED) by decide +kernel)
  obtain ⟨c₂, h₂, hs₂⟩ := Option.bind_eq_some_iff.mp (show
    (run step dispatched [cexFill 4, .worker (.sendResult groupId true) cexAck 3]).bind
      (fun c => (c.pairs.lookup groupId).map fun p => ((p.leg true).status, p.status)) =
        some (.ACKNOWLEDGED, .CEX_FILLED) by decide +kernel)
  have := h {} (.init {}) (fun _ => true) dispatch dispatched c₁ c₂ groupId dispatchedPair true
    (exIdOf cexOrder.orderId) cexAck 100 1 3 4 dispatched_run (by decide +kernel) (.inl (by decide +kernel))
    (by decide +kernel) (by decide +kernel) rfl h₁ h₂
  rw [hs₁, hs₂] at this
  cases this

end

end ArbCoordinator

end OrderExecution
