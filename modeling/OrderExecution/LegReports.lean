import OrderExecution.ArbGuardCalls
import OrderExecution.ArbLegs
import OrderExecution.SingleCalls

/-!
# What the reply to a leg says

`process_signal` answers success to every valid leg. `legCall` is such a call
with the call of `dispatch_pair` in it, run to its end, and the reply is true
exactly when the pair still takes the leg.
-/

namespace OrderExecution

open SignalReceiver Machine

/-- The pair is being assembled, or it was sent and nothing came back that ends it. -/
def ArbPair.Underway (p : ArbPair) : Prop := p.status = .ASSEMBLING ∨ p.status = .DISPATCHED

instance (p : ArbPair) : Decidable p.Underway := inferInstanceAs (Decidable (_ ∨ _))

/-! ## A call of `dispatch_pair` that nothing interrupts -/

namespace ArbCoordinator

/-- `dispatch_pair` from `d` on, until it returns. -/
def runDispatch (now : Int) : Nat → ArbCoordinator → DispatchCall → ArbCoordinator
  | 0, c, d => c.pushCalls [d]
  | fuel + 1, c, d =>
    match c.advance now d with
    | (c', none) => c'
    | (c', some d') => runDispatch now fuel c' d'

end ArbCoordinator

/-- The critical sections left to a call. -/
def DispatchCall.stages : DispatchCall → Nat
  | .enter _ => 5
  | .lookup _ _ _ => 4
  | .sendCex _ _ _ _ _ => 3
  | .sendDex _ _ _ => 2
  | .startMonitor _ => 1

namespace ArbCoordinator

section
variable {c : ArbCoordinator} {now : Int} {fuel : Nat}

theorem stages_advance {d d' : DispatchCall} (h : (c.advance now d).2 = some d') : d'.stages < d.stages := by
  cases d with
  | enter g =>
    simp only [advance, dispatchEnter] at h
    split at h
    · cases h
    · split at h
      · cases h
      · split at h <;> cases h
        exact Nat.lt_succ_self 4
  | lookup g o₁ o₂ => simp only [advance] at h; split at h <;> cases h; exact Nat.lt_succ_self 3
  | sendCex g gw₁ gw₂ o₁ o₂ => cases h; exact Nat.lt_succ_self 2
  | sendDex g gw o => cases h; exact Nat.lt_succ_self 1
  | startMonitor g => cases h

theorem runDispatch_none {d : DispatchCall} (h : (c.advance now d).2 = none) :
    runDispatch now (fuel + 1) c d = (c.advance now d).1 := by
  unfold runDispatch
  generalize c.advance now d = r at h
  obtain ⟨c', o⟩ := r
  cases h
  rfl

theorem runDispatch_some {d d' : DispatchCall} (h : (c.advance now d).2 = some d') :
    runDispatch now (fuel + 1) c d = runDispatch now fuel (c.advance now d).1 d' := by
  conv_lhs => unfold runDispatch
  generalize c.advance now d = r at h
  obtain ⟨c', o⟩ := r
  cases h
  rfl

@[simp] theorem dropCall_pushCalls (d : DispatchCall) : (c.pushCalls [d]).dropCall d = c := by
  simp [dropCall, pushCalls]

/-- The call is a run of the coordinator: its critical sections, one after the
other. -/
theorem runDispatch_run (now : Int) {d : DispatchCall} (hd : d ∈ c.calls) (hf : d.stages ≤ fuel) :
    ∃ es : List ArbEvent, (∀ e ∈ es, e.isOwn = true) ∧
      run step c es = some (runDispatch now fuel (c.dropCall d) d) := by
  induction fuel generalizing c d with
  | zero => cases d <;> cases hf
  | succ fuel ih =>
    have hstep : step c (.dispatch d now) = some (((c.dropCall d).advance now d).1.pushCalls
        ((c.dropCall d).advance now d).2.toList) := if_pos hd
    cases hr : ((c.dropCall d).advance now d).2 with
    | none =>
      rw [hr] at hstep
      refine ⟨[.dispatch d now], by simp [ArbEvent.isOwn], ?_⟩
      rw [runDispatch_none hr, run_one hstep]
      rfl
    | some d' =>
      rw [hr] at hstep
      have hlt := stages_advance hr
      obtain ⟨es, hown, hrun⟩ := ih (c := ((c.dropCall d).advance now d).1.pushCalls [d']) (d := d')
        (by simp [pushCalls]) (by omega)
      refine ⟨.dispatch d now :: es, by simpa [ArbEvent.isOwn] using hown, ?_⟩
      rw [runDispatch_some hr]
      rw [dropCall_pushCalls] at hrun
      exact run_trans (run_one hstep) hrun

theorem calls_runDispatch (now : Int) {d : DispatchCall} (hf : d.stages ≤ fuel) :
    (runDispatch now fuel c d).calls = c.calls := by
  induction fuel generalizing c d with
  | zero => cases d <;> cases hf
  | succ fuel ih =>
    cases hr : (c.advance now d).2 with
    | none => rw [runDispatch_none hr, (c.advance_frame now d).2.2]
    | some d' =>
      have hlt := stages_advance hr
      rw [runDispatch_some hr, ih (by omega), (c.advance_frame now d).2.2]

/-! ### Only the first critical section writes the pair -/

theorem pairs_sendLeg (g : CStr 15) (b : Bool) (gw : Option Exchange) (o : Order) :
    (c.sendLeg g b gw o).pairs = c.pairs := by
  cases gw <;> rfl

/-- After the first critical section only the sends are left. -/
theorem pairs_runDispatch {d : DispatchCall} (hd : ∀ g, d ≠ .enter g) :
    (runDispatch now fuel c d).pairs = c.pairs := by
  induction fuel generalizing c d with
  | zero => rfl
  | succ fuel ih =>
    cases d with
    | enter g => exact absurd rfl (hd g)
    | lookup g o₁ o₂ =>
      cases hp : c.pairs.lookup g with
      | none => simp only [runDispatch, advance, hp]
      | some p =>
        simp only [runDispatch, advance, hp]
        exact ih fun _ h => by cases h
    | sendCex g gw₁ gw₂ o₁ o₂ =>
      simp only [runDispatch, advance]
      rw [ih (fun _ h => by cases h), pairs_sendLeg]
    | sendDex g gw o =>
      simp only [runDispatch, advance]
      rw [ih (fun _ h => by cases h), pairs_sendLeg]
    | startMonitor g => rfl

theorem pairs_runDispatch_enter (c : ArbCoordinator) (now : Int) (fuel : Nat) (g : CStr 15) :
    (runDispatch now (fuel + 1) c (.enter g)).pairs = (c.dispatchEnter g now).1.pairs := by
  cases hr : (c.advance now (.enter g)).2 with
  | none => rw [runDispatch_none hr]; rfl
  | some d =>
    have hd : ∀ g', d ≠ .enter g' := by
      intro g' he
      have := stages_advance hr
      rw [he] at this
      exact Nat.lt_irrefl 5 this
    rw [runDispatch_some hr, pairs_runDispatch hd]
    rfl

/-! ## The pair the call leaves -/

theorem pair_approved_iff {p : ArbPair} (b : Bool) : c.Approved p ↔
    c.portfolio.calcRequiredMargin (p.leg b).signal + c.portfolio.calcRequiredMargin (p.leg (!b)).signal ≤
      c.portfolio.state.availableMargin := by
  have hsum : c.Approved p ↔ c.portfolio.calcRequiredMargin p.cexLeg.signal +
      c.portfolio.calcRequiredMargin p.dexLeg.signal ≤ c.portfolio.state.availableMargin := by
    unfold Approved PortfolioGuard.checkAndReservePair
    simp only
    split
    · next h => exact iff_of_false Bool.false_ne_true (not_le.mpr h)
    · next h => exact iff_of_true rfl (not_lt.mp h)
  rw [hsum]
  cases b with
  | true => exact Iff.rfl
  | false => rw [add_comm]; exact Iff.rfl

theorem portfolio_addLeg (c : ArbCoordinator) (s : Signal) (now : Int) :
    (c.addLeg s now).1.portfolio = c.portfolio := by
  rw [addLeg_fst]
  unfold addingTo
  split <;> split <;> rfl

theorem dispatchEnter_pair (now : Int) {g : CStr 15} {p : ArbPair} (hp : c.pairs.lookup g = some p) :
    ∃ p', (c.dispatchEnter g now).1.pairs.lookup g = some p' ∧ p.SameLegs p' ∧
      (p'.Underway ↔ p.status = .DISPATCHED ∨ p.status = .ASSEMBLING ∧ c.Approved p) := by
  by_cases hs : p.status = .ASSEMBLING
  · have hd : p.status ≠ .DISPATCHED := by rw [hs]; nofun
    by_cases ha : c.Approved p
    · rw [dispatchEnter_approved hp hs ha]
      exact ⟨p.dispatchedAt now, AList.lookup_insert _, ArbPair.sameLegs_of_eq rfl rfl rfl rfl rfl rfl,
        iff_of_true (.inr rfl) (.inr ⟨hs, ha⟩)⟩
    · rw [dispatchEnter_refused hp hs ha]
      refine ⟨p.refused (c.refusal p), AList.lookup_insert _, ArbPair.sameLegs_of_eq rfl rfl rfl rfl rfl rfl, ?_⟩
      refine iff_of_false ?_ (not_or.mpr ⟨hd, fun h => ha h.2⟩)
      exact not_or.mpr ⟨nofun, nofun⟩
  · rw [dispatchEnter_idle fun q hq => ?_]
    · refine ⟨p, hp, .refl p, ?_⟩
      simp only [ArbPair.Underway, hs, false_or, false_and, or_false]
    · rw [hp] at hq
      exact Option.some.inj hq ▸ hs

end

end ArbCoordinator

/-! ## A call of `process_signal` for a leg -/

namespace OrderManager

/-- `process_signal` of a leg, with the call of `dispatch_pair` that the second
leg makes. -/
def legCall (m : OrderManager) (s : Signal) (receiveNs now sentNow : Int) : OrderManager :=
  let m' := m.processSignal s receiveNs now
  if (validate m.signalConfig s receiveNs).valid ∧ (m.arb.addedPair s now).bothLegsPresent then
    m'.setArb (m'.arb.dropCall (.enter s.groupId) |>.runDispatch sentNow 5 (.enter s.groupId))
  else m'

/-- The pair of the signal, where there is one, was sent already, or it is being
assembled and the guard can pay for it if this leg completes it. -/
def TakesLeg (m : OrderManager) (s : Signal) : Prop :=
  ∀ p, m.arb.pairs.lookup s.groupId = some p →
    p.status = .DISPATCHED ∨ p.status = .ASSEMBLING ∧ (p.hasLeg (!s.isCexLeg) = true →
      m.arb.portfolio.calcRequiredMargin s + m.arb.portfolio.calcRequiredMargin (p.leg (!s.isCexLeg)).signal ≤
        m.arb.portfolio.state.availableMargin)

/-- A reply of success names a leg of a pair of the signal's group that is underway. -/
def Truthful (m : OrderManager) (s : Signal) (r : ProcessResult) : Prop :=
  r.success = true → ∃ p b, m.arb.pairs.lookup s.groupId = some p ∧ p.hasLeg b = true ∧
    (p.leg b).orderId = r.orderId ∧ p.Underway

section
variable {m : OrderManager} {s : Signal} {receiveNs now sentNow : Int}

theorem run_arb {es : List ArbEvent} {c : ArbCoordinator} (hown : ∀ e ∈ es, e.isOwn = true)
    (h : run ArbCoordinator.step m.arb es = some c) : run step m (es.map .arb) = some (m.setArb c) := by
  induction es generalizing m with
  | nil => cases h; rfl
  | cons e es ih =>
    obtain ⟨c₁, hs, hr⟩ := run_cons h
    have hm : m.step (.arb e) = some (m.setArb c₁) := by
      simp only [step, hown e List.mem_cons_self, hs, ite_true, Option.map_some]
    exact run_trans (run_one hm) (ih (m := m.setArb c₁) (fun e he => hown e (List.mem_cons_of_mem _ he)) hr)

theorem processSignal_leg (hv : (validate m.signalConfig s receiveNs).valid = true) (hg : s.hasGroupId = true) :
    m.processSignal s receiveNs now = (m.setArb (m.arb.addLeg s now).1).record
      (.processed { success := true, orderId := (m.arb.addLeg s now).2.orderId }) := by
  simp only [processSignal, hv, hg]
  rfl

theorem reply_legCall (now sentNow : Int) (hv : (validate m.signalConfig s receiveNs).valid = true)
    (hg : s.hasGroupId = true) :
    (m.legCall s receiveNs now sentNow).log.head? =
      some (.processed { success := true, orderId := storedOrderId m.arb.uuid.orderCounter }) := by
  simp only [legCall, processSignal_leg hv hg]
  split <;> rfl

/-- Whether the pair takes the leg, read off the pair that `add_leg` leaves. -/
theorem takesLeg_iff (now : Int) : m.TakesLeg s ↔
    (m.arb.addedPair s now).status = .DISPATCHED ∨ (m.arb.addedPair s now).status = .ASSEMBLING ∧
      ((m.arb.addedPair s now).bothLegsPresent = true → m.arb.Approved (m.arb.addedPair s now)) := by
  have hne : (!s.isCexLeg) ≠ (m.arb.newOrder s now).signal.isCexLeg := Bool.not_ne_self _
  rw [ArbCoordinator.pair_approved_iff s.isCexLeg, bothLegsPresent_addedPair, (leg_addedPair m.arb s now).2]
  cases hl : m.arb.pairs.lookup s.groupId with
  | none =>
    rw [addedPair_none hl, hasLeg_withLeg_ne _ _ hne, ArbCoordinator.status_withLeg]
    refine iff_of_true (fun p hp => ?_) (.inr ⟨rfl, fun h => ?_⟩)
    · rw [hl] at hp; cases hp
    · cases hb : !s.isCexLeg <;> rw [hb] at h <;> cases h
  | some p =>
    rw [addedPair_some hl, hasLeg_withLeg_ne _ _ hne, leg_withLeg_ne _ _ hne, ArbCoordinator.status_withLeg]
    simp only [TakesLeg, hl, Option.some.injEq, forall_eq']
    exact Iff.rfl

theorem legCall_completes (hv : (validate m.signalConfig s receiveNs).valid = true)
    (hb : (m.arb.addedPair s now).bothLegsPresent = true) : m.legCall s receiveNs now sentNow =
      (m.processSignal s receiveNs now).setArb (((m.processSignal s receiveNs now).arb.dropCall
        (.enter s.groupId)).runDispatch sentNow 5 (.enter s.groupId)) := if_pos ⟨hv, hb⟩

theorem legCall_waits (hb : (m.arb.addedPair s now).bothLegsPresent = false) :
    m.legCall s receiveNs now sentNow = m.processSignal s receiveNs now :=
  if_neg fun h => by rw [hb] at h; exact Bool.false_ne_true h.2

theorem pair_legCall (now sentNow : Int) (hv : (validate m.signalConfig s receiveNs).valid = true)
    (hg : s.hasGroupId = true) :
    ∃ p, (m.legCall s receiveNs now sentNow).arb.pairs.lookup s.groupId = some p ∧
      (m.arb.addedPair s now).SameLegs p ∧ (p.Underway ↔ m.TakesLeg s) := by
  have hlookup := lookup_addLeg m.arb s now
  rw [takesLeg_iff now]
  cases hb : (m.arb.addedPair s now).bothLegsPresent with
  | true =>
    let c := (m.arb.addLeg s now).1.dropCall (.enter s.groupId)
    obtain ⟨p, hp, hsame, hu⟩ := ArbCoordinator.dispatchEnter_pair (c := c) sentNow hlookup
    have hpairs := ArbCoordinator.pairs_runDispatch_enter c sentNow 4 s.groupId
    rw [legCall_completes hv hb, processSignal_leg hv hg]
    refine ⟨p, (congrArg (AList.lookup s.groupId) hpairs).trans hp, hsame, hu.trans ?_⟩
    have happroved : c.Approved (m.arb.addedPair s now) ↔ m.arb.Approved (m.arb.addedPair s now) := by
      unfold ArbCoordinator.Approved
      rw [show c.portfolio = m.arb.portfolio from ArbCoordinator.portfolio_addLeg m.arb s now]
    simp only [happroved, forall_const]
  | false =>
    rw [legCall_waits hb, processSignal_leg hv hg]
    refine ⟨_, hlookup, .refl _, ?_⟩
    simp only [ArbPair.Underway, Bool.false_eq_true, false_imp_iff, and_true]
    exact or_comm

theorem truthful_iff (hv : (validate m.signalConfig s receiveNs).valid = true) (hg : s.hasGroupId = true)
    {r : ProcessResult} (hr : (m.legCall s receiveNs now sentNow).log.head? = some (.processed r)) :
    (m.legCall s receiveNs now sentNow).Truthful s r ↔ m.TakesLeg s := by
  obtain ⟨p, hp, hsame, hu⟩ := pair_legCall now sentNow hv hg
  obtain ⟨hown, hleg⟩ := leg_addedPair m.arb s now
  rw [reply_legCall now sentNow hv hg] at hr
  cases hr
  rw [← hu]
  constructor
  · intro h
    obtain ⟨q, b, hq, -, -, hq'⟩ := h rfl
    rw [hp] at hq
    cases hq
    exact hq'
  · intro h _
    refine ⟨p, s.isCexLeg, hp, (hsame.hasLeg _).trans hown, ?_, h⟩
    rw [hsame.orderId, hleg]
    rfl

theorem calls_legCall (hv : (validate m.signalConfig s receiveNs).valid = true) (hg : s.hasGroupId = true) :
    (m.legCall s receiveNs now sentNow).arb.calls = m.arb.calls := by
  have hcalls : ∀ p, ((m.arb.addingTo s.groupId).setPair s.groupId p).calls = m.arb.calls := by
    intro p
    unfold ArbCoordinator.addingTo
    split <;> rfl
  cases hb : (m.arb.addedPair s now).bothLegsPresent with
  | true =>
    have hreturns := ArbCoordinator.calls_runDispatch (c := (m.arb.addLeg s now).1.dropCall (.enter s.groupId))
      (d := .enter s.groupId) sentNow (le_refl 5)
    rw [legCall_completes hv hb, processSignal_leg hv hg]
    refine hreturns.trans ?_
    change (m.arb.addLeg s now).1.calls.erase _ = _
    rw [ArbCoordinator.addLeg_fst, if_pos hb]
    exact (List.erase_cons_head ..).trans (hcalls _)
  | false =>
    rw [legCall_waits hb, processSignal_leg hv hg]
    change (m.arb.addLeg s now).1.calls = _
    rw [ArbCoordinator.addLeg_fst, hb]
    exact hcalls _

/-- A leg call is a run of the manager that begins with the signal and goes on
with the thread's own steps. -/
theorem legCall_run (hg : s.hasGroupId = true) :
    ∃ es : List ArbEvent, (∀ e ∈ es, e.isOwn = true) ∧
      run step m (.processSignal s receiveNs now :: es.map .arb) = some (m.legCall s receiveNs now sentNow) := by
  have hstep : step m (.processSignal s receiveNs now) = some (m.processSignal s receiveNs now) := rfl
  by_cases h : (validate m.signalConfig s receiveNs).valid ∧ (m.arb.addedPair s now).bothLegsPresent
  · obtain ⟨hv, hb⟩ := h
    have hmem : DispatchCall.enter s.groupId ∈ (m.processSignal s receiveNs now).arb.calls := by
      rw [processSignal_leg hv hg]
      change _ ∈ (m.arb.addLeg s now).1.calls
      rw [ArbCoordinator.addLeg_fst, if_pos hb]
      exact List.mem_cons_self
    obtain ⟨es, hown, hrun⟩ := ArbCoordinator.runDispatch_run sentNow hmem (le_refl 5)
    rw [legCall_completes hv hb]
    exact ⟨es, hown, run_trans (run_one hstep) (run_arb hown hrun)⟩
  · refine ⟨[], fun _ he => absurd he List.not_mem_nil, ?_⟩
    rw [legCall, if_neg h]
    exact run_one hstep

end

end OrderManager

open OrderManager

/-- The reply to a leg is true if and only if its pair takes the leg. -/
theorem leg_success_truthful_iff (m : OrderManager) {s : Signal} {receiveNs : Int}
    (hv : (validate m.signalConfig s receiveNs).valid = true) (hg : s.hasGroupId = true) (now sentNow : Int) :
    (∀ r, (m.legCall s receiveNs now sentNow).log.head? = some (.processed r) →
      (m.legCall s receiveNs now sentNow).Truthful s r) ↔ m.TakesLeg s := by
  refine ⟨fun h => ?_, fun h r hr => (truthful_iff hv hg hr).mpr h⟩
  have hr := reply_legCall now sentNow hv hg
  exact (truthful_iff hv hg hr).mp (h _ hr)

namespace Sample

/-- After the call for the CEX leg. -/
def oneLeg : OrderManager := (fresh {} {} {} (fun _ => true) {}).legCall cexSignal 1 1 1

/-- The DEX leg completes the pair, which is sent. -/
theorem leg_success_truthful_second : ∃ r, (oneLeg.legCall dexSignal 2 2 2).log.head? = some (.processed r) ∧
    r.success = true ∧ ((oneLeg.legCall dexSignal 2 2 2).arb.pairs.lookup groupId).map (·.status) = some .DISPATCHED ∧
      (oneLeg.legCall dexSignal 2 2 2).Truthful dexSignal r := by
  have hv : (validate oneLeg.signalConfig dexSignal 2).valid = true := by decide +kernel
  have htakes : oneLeg.TakesLeg dexSignal := fun p hp =>
    (show ∀ p ∈ oneLeg.arb.pairs.lookup groupId, p.status = .DISPATCHED ∨ p.status = .ASSEMBLING ∧
      (p.hasLeg true = true → oneLeg.arb.portfolio.calcRequiredMargin dexSignal +
        oneLeg.arb.portfolio.calcRequiredMargin p.cexLeg.signal ≤
          oneLeg.arb.portfolio.state.availableMargin) by decide +kernel) p hp
  have hr := reply_legCall 2 2 hv rfl
  exact ⟨_, hr, rfl, by decide +kernel, (leg_success_truthful_iff oneLeg hv rfl 2 2).mpr htakes _ hr⟩

/-- The CEX leg arrives, and the deadline of its pair passes. -/
def lateLeg : List ManagerEvent := [.processSignal cexSignal 1 1, .arb (.worker (.deadline groupId) {} 2)]

theorem not_leg_success_truthful : ¬ ∀ (signalConfig : SignalConfig) (portfolioConfig : PortfolioConfig)
    (arbConfig : ArbConfig) (hasGateway : Exchange → Bool) (uuid : UuidGenerator) (es : List ManagerEvent)
    (m : OrderManager), run step (fresh signalConfig portfolioConfig arbConfig hasGateway uuid) es = some m →
      ∀ (s : Signal) (receiveNs now sentNow : Int), (validate m.signalConfig s receiveNs).valid = true →
        s.hasGroupId = true → ∀ r, (m.legCall s receiveNs now sentNow).log.head? = some (.processed r) →
          (m.legCall s receiveNs now sentNow).Truthful s r := by
  intro h
  let m : OrderManager := (run step (fresh {} {} {} (fun _ => true) {}) lateLeg).getD (fresh {} {} {} (fun _ => true) {})
  have hm : run step (fresh {} {} {} (fun _ => true) {}) lateLeg = some m := by
    obtain ⟨m', hm'⟩ := Option.isSome_iff_exists.mp
      (show (run step (fresh {} {} {} (fun _ => true) {}) lateLeg).isSome by decide +kernel)
    rw [hm', show m = m' by simp only [m, hm', Option.getD_some]]
  have hfailed : (m.arb.pairs.lookup groupId).map (·.status) = some .FAILED := by decide +kernel
  have hv : (validate m.signalConfig dexSignal 1).valid = true := by decide +kernel
  have hr := reply_legCall 3 3 hv rfl
  have htakes := (truthful_iff hv rfl hr).mp (h {} {} {} (fun _ => true) {} lateLeg m hm dexSignal 1 3 3 hv rfl _ hr)
  obtain ⟨p, hp, hst⟩ := Option.map_eq_some_iff.mp hfailed
  have := htakes p hp
  rw [hst] at this
  exact this.elim nofun fun h => nomatch h.1

end Sample

end OrderExecution
