import OrderExecution.GuardFrames
import OrderExecution.LiveOrders
import OrderExecution.SingleCalls

/-!
# What a refused signal leaves behind

A signal that fails validation, the conflict check or the margin check changes
nothing but the order store. One whose exchange has no gateway is refused after
its order was registered: the margin is released, the register is not told.
-/

namespace OrderExecution

open SignalReceiver Machine

namespace OrderManager

section
variable {m m' : OrderManager}

/-! ## The orders of the tasks have no exchange id -/

def TasksUnnamed (m : OrderManager) : Prop := ∀ t ∈ m.tasks, t.order.exchangeOrderId.isEmpty = true

theorem tasks_advance (t : SingleTask) (answers : List (Option CancelResult)) (r : OrderResult) (now : Int) :
    (m.advance answers r now t).1.tasks = m.tasks := by
  cases t with
  | lookup o => simp only [advance]; split <;> rfl
  | result o =>
    simp only [advance, sendResult]
    split
    · rfl
    · split <;> rfl
  | _ => rfl

theorem exchangeOrderId_advance {t t' : SingleTask} {answers : List (Option CancelResult)} {r : OrderResult}
    {now : Int} (h : (m.advance answers r now t).2 = some t') :
    t'.order.exchangeOrderId = t.order.exchangeOrderId := by
  cases t with
  | check o =>
    simp only [advance, Option.some.injEq] at h
    split at h <;> rw [← h] <;> rfl
  | reserve o =>
    simp only [advance, Option.some.injEq] at h
    split at h <;> rw [← h] <;> rfl
  | lookup o =>
    simp only [advance] at h
    split at h <;> rw [← Option.some.inj h] <;> rfl
  | store o | register o | storeRejected o | send gw o => rw [← Option.some.inj h]; rfl
  | storeRefused o reason | release o | result o => cases h

theorem TasksUnnamed.step (h : m.TasksUnnamed) {e : ManagerEvent} (hs : m.step e = some m') : m'.TasksUnnamed := by
  cases e with
  | processSignal s receiveNs now =>
    cases hs
    simp only [processSignal]
    split
    · exact h
    · split
      · exact h
      · intro t ht
        rcases List.mem_cons.mp ht with rfl | ht
        · rfl
        · exact h t ht
  | task t answers r now =>
    simp only [OrderManager.step] at hs
    split at hs
    · next hm =>
      cases hs
      intro t' ht'
      rcases List.mem_append.mp ht' with ht' | ht'
      · rw [exchangeOrderId_advance (Option.mem_toList.mp ht')]
        exact h t hm
      · rw [tasks_advance] at ht'
        exact h t' (List.mem_of_mem_erase ht')
    · cases hs
  | arb a =>
    simp only [OrderManager.step] at hs
    split at hs
    · obtain ⟨c, -, rfl⟩ := Option.map_eq_some_iff.mp hs
      exact h
    · cases hs
  | onFill f now => cases hs; exact h
  | finishFill f =>
    cases hs
    simp only [finishFill]
    split
    · exact h
    · split <;> exact h

/-- In every run the register has no exchange id in it, and rejects nothing by itself. -/
theorem lenient_run {es : List ManagerEvent} (hr : run OrderManager.step m es = some m')
    (h : m.Lenient ∧ m.TasksUnnamed) : m'.Lenient ∧ m'.TasksUnnamed :=
  inv_run (I := fun m => m.Lenient ∧ m.TasksUnnamed)
    (fun _ _ _ h hs => ⟨h.1.step (fun _ ht => h.2 _ ht) hs, h.2.step hs⟩) h hr

theorem lenient_fresh (signalConfig : SignalConfig) (portfolioConfig : PortfolioConfig) (arbConfig : ArbConfig)
    (hasGateway : Exchange → Bool) (uuid : UuidGenerator) :
    (fresh signalConfig portfolioConfig arbConfig hasGateway uuid).Lenient ∧
      (fresh signalConfig portfolioConfig arbConfig hasGateway uuid).TasksUnnamed :=
  ⟨⟨ConflictResolver.unnamed_init _, rfl⟩, fun _ ht => absurd ht List.not_mem_nil⟩

/-! ## Traces -/

/-- The guard's figures are the same in `m'`, no active entry of the register is
new, and no later check that would have passed fails. -/
structure NoTrace (m m' : OrderManager) : Prop where
  ledgers : PortfolioGuard.Restores m.arb.portfolio m'.arb.portfolio
  register : ∀ y e, isActive e.status = true → (m'.resolver.entriesOf y).count e ≤ (m.resolver.entriesOf y).count e
  checks : ∀ (hasGateway : Exchange → Bool) (s : Signal) (answers : List (Option CancelResult)),
    (m.resolver.check hasGateway s answers).2.canProceed = true →
      (m'.resolver.check hasGateway s answers).2.canProceed = true

theorem noTrace_of_same (hl : m.Lenient) (hg : m'.arb.portfolio = m.arb.portfolio)
    (he : ∀ y, m'.resolver.entriesOf y = m.resolver.entriesOf y)
    (hst : m'.resolver.strategy = m.resolver.strategy) : m.NoTrace m' where
  ledgers := by rw [hg]; exact ⟨rfl, fun _ => rfl, rfl, rfl⟩
  register := by intro y e _; rw [he y]
  checks := by
    intro hasGateway s answers _
    have hl' : m'.Lenient := ⟨fun y e hm => hl.unnamed y e (he y ▸ hm), hst.trans hl.strategy⟩
    have hpass := (hl'.unnamed.check (by rw [hl'.strategy]; decide) hasGateway s answers).1
    rw [hpass]

variable {s : Signal} {receiveNs now sentNow : Int} {answers : List (Option CancelResult)}

/-- A lenient manager passes a valid signal that it can pay for. -/
theorem Lenient.passes_iff (hl : m.Lenient) : m.Passes s receiveNs answers ↔
    (validate m.signalConfig s receiveNs).valid = true ∧
      m.arb.portfolio.calcRequiredMargin s ≤ m.arb.portfolio.state.availableMargin := by
  have hcheck := (hl.check s answers).1
  constructor
  · exact fun h => ⟨h.valid, PortfolioGuard.approved_iff.mp h.approved⟩
  · exact fun h => ⟨h.1, by rw [hcheck], PortfolioGuard.approved_iff.mpr h.2⟩

/-- A signal that does not pass is refused without a trace. -/
theorem noTrace_of_not_passes (hl : m.Lenient) (hp : ¬ m.Passes s receiveNs answers) :
    m.NoTrace (m.processCall s receiveNs now sentNow answers) := by
  cases hv : (validate m.signalConfig s receiveNs).valid with
  | false =>
    rw [processCall_invalid hv]
    exact noTrace_of_same hl rfl (fun _ => rfl) rfl
  | true =>
    obtain ⟨reason, he⟩ := processCall_refused now sentNow hv hp
    rw [he]
    exact noTrace_of_same hl rfl (hl.check s answers).2 (strategy_check ..)

/-- Without a gateway the order that was stored stays registered as `SENT`. -/
theorem not_noTrace_stranded (hl : m.Lenient) (hp : m.Passes s receiveNs answers)
    (hg : m.arb.hasGateway s.exchange = false) :
    ¬ m.NoTrace (m.processCall s receiveNs now sentNow answers) := by
  intro h
  have hle := h.register s.symbol (m.sentOrder s now sentNow).entry rfl
  rw [processCall_stranded hp hg] at hle
  change (((m.resolver.check m.arb.hasGateway s answers).1.registerOrder
    (m.sentOrder s now sentNow)).entriesOf s.symbol).count _ ≤ _ at hle
  have hsymbol : s.symbol = (m.sentOrder s now sentNow).signal.symbol := rfl
  rw [ConflictResolver.entriesOf_registerOrder, if_pos hsymbol, List.count_append, (hl.check s answers).2,
    List.count_singleton_self] at hle
  omega

/-- The call reports success if the signal passes and its exchange has a gateway. -/
theorem reply_success_iff {r : ProcessResult}
    (hr : (m.processCall s receiveNs now sentNow answers).log.head? = some (.processed r)) :
    r.success = true ↔ m.Passes s receiveNs answers ∧ m.arb.hasGateway s.exchange = true := by
  have reply : ∀ {m₁ : OrderManager} {r₁ : ProcessResult}, m.processCall s receiveNs now sentNow answers =
      m₁.record (.processed r₁) → r = r₁ := by
    intro m₁ r₁ he
    rw [he] at hr
    exact (ManagerEffect.processed.inj (Option.some.inj hr)).symm
  by_cases hp : m.Passes s receiveNs answers
  · cases hg : m.arb.hasGateway s.exchange with
    | false =>
      rw [reply (processCall_stranded hp hg)]
      simp
    | true =>
      rw [processCall_sent hp hg] at hr
      rw [← ManagerEffect.processed.inj (Option.some.inj hr)]
      exact iff_of_true rfl ⟨hp, rfl⟩
  · refine iff_of_false ?_ fun h => hp h.1
    cases hv : (validate m.signalConfig s receiveNs).valid with
    | false =>
      rw [reply (processCall_invalid hv)]
      exact Bool.false_ne_true
    | true =>
      obtain ⟨reason, he⟩ := processCall_refused now sentNow hv hp
      rw [reply he]
      exact Bool.false_ne_true

theorem exists_reply (m : OrderManager) (s : Signal) (receiveNs now sentNow : Int)
    (answers : List (Option CancelResult)) :
    ∃ r, (m.processCall s receiveNs now sentNow answers).log.head? = some (.processed r) := by
  have h := m.processCall_spec s receiveNs now sentNow answers
  generalize m.processCall s receiveNs now sentNow answers = m' at h
  cases h <;> exact ⟨_, rfl⟩

end

end OrderManager

open OrderManager

/-- A refusal leaves no trace if and only if the exchange of the signal has a
gateway, or the signal is invalid or too dear. -/
theorem refusal_leaves_no_trace_iff (signalConfig : SignalConfig) (portfolioConfig : PortfolioConfig)
    (arbConfig : ArbConfig) (hasGateway : Exchange → Bool) (uuid : UuidGenerator) {es : List ManagerEvent}
    {m m' : OrderManager} (hr : run step (fresh signalConfig portfolioConfig arbConfig hasGateway uuid) es = some m)
    {s : Signal} {receiveNs now sentNow : Int} {answers : List (Option CancelResult)}
    (hcall : m.call (.process s receiveNs now sentNow answers) = some m') :
    (∀ r, m'.log.head? = some (.processed r) → r.success = false → m.NoTrace m') ↔
      m.arb.hasGateway s.exchange = true ∨ (validate m.signalConfig s receiveNs).valid = false ∨
        m.arb.portfolio.state.availableMargin < m.arb.portfolio.calcRequiredMargin s := by
  have hl : m.Lenient := (lenient_run hr (lenient_fresh ..)).1
  have hm' : m' = m.processCall s receiveNs now sentNow answers := by
    simp only [call] at hcall
    split at hcall
    · cases hcall
    · exact (Option.some.inj hcall).symm
  have hcond : (validate m.signalConfig s receiveNs).valid = false ∨
      m.arb.portfolio.state.availableMargin < m.arb.portfolio.calcRequiredMargin s ↔
        ¬ m.Passes s receiveNs answers := by
    rw [hl.passes_iff, not_and_or, not_le, Bool.not_eq_true]
  rw [hm', hcond]
  by_cases hp : m.Passes s receiveNs answers
  · rw [or_iff_left (not_not.mpr hp)]
    cases hg : m.arb.hasGateway s.exchange with
    | true =>
      refine iff_of_true (fun r hr hf => ?_) rfl
      rw [(reply_success_iff hr).mpr ⟨hp, hg⟩] at hf
      cases hf
    | false =>
      refine iff_of_false (fun h => ?_) Bool.false_ne_true
      obtain ⟨r, hr⟩ := m.exists_reply s receiveNs now sentNow answers
      refine not_noTrace_stranded hl hp hg (h r hr ?_)
      rw [← Bool.not_eq_true, reply_success_iff hr, hg]
      exact fun h => Bool.false_ne_true h.2
  · exact iff_of_true (fun _ _ _ => noTrace_of_not_passes hl hp) (.inr hp)

namespace Sample

def dear : Signal := { single with quantity := 1000000 }

theorem refusal_leaves_no_trace_dear :
    ∃ m', (fresh {} {} {} (fun _ => false) {}).call (.process dear 1 1 1 []) = some m' ∧
      ∀ r, m'.log.head? = some (.processed r) → r.success = false → (fresh {} {} {} (fun _ => false) {}).NoTrace m' :=
  let m := fresh {} {} {} (fun _ => false) {}
  have hcall : m.call (.process dear 1 1 1 []) = some (m.processCall dear 1 1 1 []) := rfl
  ⟨_, hcall, (refusal_leaves_no_trace_iff {} {} {} (fun _ => false) {}
    (show run step m [] = some m from rfl) hcall).mpr
    (.inr (.inr (by decide +kernel)))⟩

/-- One ETH, and no gateway. -/
theorem not_refusal_leaves_no_trace : ¬ ∀ (signalConfig : SignalConfig) (portfolioConfig : PortfolioConfig)
    (arbConfig : ArbConfig) (hasGateway : Exchange → Bool) (uuid : UuidGenerator) (es : List ManagerEvent)
    (m m' : OrderManager), run step (fresh signalConfig portfolioConfig arbConfig hasGateway uuid) es = some m →
      ∀ (s : Signal) (receiveNs now sentNow : Int) (answers : List (Option CancelResult)),
        m.arb.portfolio.reservedUnder (marginKey s) = none →
        m.call (.process s receiveNs now sentNow answers) = some m' →
          ∀ r, m'.log.head? = some (.processed r) → r.success = false → m.NoTrace m' := by
  intro h
  let m : OrderManager := fresh {} {} {} (fun _ => false) {}
  let m' : OrderManager := m.processCall single 1 1 1 []
  obtain ⟨r, hr⟩ := m.exists_reply single 1 1 1 []
  have hpasses : m.Passes single 1 [] := by decide +kernel
  have hfailed : r.success = false := by
    rw [← Bool.not_eq_true, reply_success_iff hr]
    exact fun h => Bool.false_ne_true h.2
  have ht : m.NoTrace m' := h {} {} {} (fun _ => false) {} [] m m' rfl single 1 1 1 [] (by decide +kernel) rfl r hr hfailed
  exact not_noTrace_stranded (lenient_fresh {} {} {} (fun _ => false) {}).1 hpasses rfl ht

end Sample

end OrderExecution
