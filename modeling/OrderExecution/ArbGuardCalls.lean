import OrderExecution.ArbSteps
import OrderExecution.PortfolioGuardSound

/-!
# What a step asks of the guard

`guardOps` lists the calls a step makes on the shared guard. They are about the
legs of the pair the step touches, and no step touches a leg that is not there.
-/

namespace OrderExecution

open ArbCoordinator

namespace ArbPair

/-- The calls of `handle_leg_reject`. -/
def rejectOps (p : ArbPair) (isCexReject : Bool) : List GuardOp :=
  if isCexReject then
    .releaseMargin p.cexLeg.signal ::
      if p.hasDexLeg ∧ !isTerminal p.dexLeg.status then [.releaseMargin p.dexLeg.signal] else []
  else
    (if p.hasCexLeg ∧ p.cexLeg.status ≠ .FILLED then [.releaseMargin p.cexLeg.signal] else []) ++
      [.releaseMargin p.dexLeg.signal]

def expireOps (p : ArbPair) : List GuardOp :=
  (if p.hasCexLeg then [.releaseMargin p.cexLeg.signal] else []) ++
    if p.hasDexLeg then [.releaseMargin p.dexLeg.signal] else []

def bookOps (p : ArbPair) : List GuardOp :=
  [.onFill p.cexLeg.signal p.cexLeg.avgFillPrice p.cexLeg.filledQuantity,
    .onFill p.dexLeg.signal p.dexLeg.avgFillPrice p.dexLeg.filledQuantity]

def workerOps (p : ArbPair) (r : OrderResult) : Worker → List GuardOp
  | .deadline _ => if p.status = .ASSEMBLING ∧ !p.bothLegsPresent then p.expireOps else []
  | .sendResult _ b => if p.hasLeg b ∧ !r.success then p.rejectOps b else []
  | .riskWindow _ =>
    if p.status = .CEX_FILLED then [.releaseMargin p.dexLeg.signal]
    else if p.status = .DEX_FILLED then [.releaseMargin p.cexLeg.signal, .releaseMargin p.dexLeg.signal]
    else []
  | .unwindSend _ _ _ => []
  | .unwindResult _ => [.releaseMargin p.cexLeg.signal]

def messageOps (p : ArbPair) (b : Bool) (price qty : ℚ) (isReject : Bool) (now : Int) : List GuardOp :=
  if isReject then p.rejectOps b
  else if p.status = oneSided (!b) then (fillLeg p b price qty now).bookOps
  else []

end ArbPair

def PortfolioGuard.applyAll (g : PortfolioGuard) (ops : List GuardOp) : PortfolioGuard :=
  ops.foldl PortfolioGuard.apply g

@[simp] theorem PortfolioGuard.applyAll_nil (g : PortfolioGuard) : g.applyAll [] = g := rfl

@[simp] theorem PortfolioGuard.applyAll_cons (g : PortfolioGuard) (op : GuardOp) (ops : List GuardOp) :
    g.applyAll (op :: ops) = (g.apply op).applyAll ops := rfl

theorem PortfolioGuard.applyAll_inv {I : PortfolioGuard → Prop} (hI : ∀ g op, I g → I (g.apply op))
    {g : PortfolioGuard} (h : I g) (ops : List GuardOp) : I (g.applyAll ops) := by
  induction ops generalizing g with
  | nil => exact h
  | cons op ops ih => exact ih (hI g op h)

namespace ArbCoordinator

def guardOps (c : ArbCoordinator) : ArbEvent → List GuardOp
  | .addLeg _ _ => []
  | .dispatch (.enter g) _ =>
    match c.pairs.lookup g with
    | none => []
    | some p =>
      if p.status = .ASSEMBLING then [.checkAndReservePair p.cexLeg.signal p.dexLeg.signal] else []
  | .dispatch _ _ => []
  | .worker w r _ =>
    match c.pairs.lookup w.groupId with
    | none => []
    | some p => p.workerOps r w
  | .onFill x price qty isReject now =>
    match c.findLeg x with
    | none => []
    | some (_, p, b) => p.messageOps b price qty isReject now
  | .portfolio op => [op]
  | .drawOrderId => []

section
variable {c : ArbCoordinator} {g : CStr 15} {p : ArbPair}

theorem guardOps_enter (hp : c.pairs.lookup g = some p) (hs : p.status = .ASSEMBLING) (now : Int) :
    c.guardOps (.dispatch (.enter g) now) = [.checkAndReservePair p.cexLeg.signal p.dexLeg.signal] := by
  simp only [guardOps, hp, hs, ite_true]

theorem guardOps_enter_idle (h : ∀ p, c.pairs.lookup g = some p → p.status ≠ .ASSEMBLING) (now : Int) :
    c.guardOps (.dispatch (.enter g) now) = [] := by
  simp only [guardOps]
  split
  · rfl
  · next p hp => rw [if_neg (h p hp)]

theorem guardOps_worker {w : Worker} (hp : c.pairs.lookup w.groupId = some p) (r : OrderResult) (now : Int) :
    c.guardOps (.worker w r now) = p.workerOps r w := by
  simp only [guardOps, hp]

theorem guardOps_worker_none {w : Worker} (hp : c.pairs.lookup w.groupId = none) (r : OrderResult) (now : Int) :
    c.guardOps (.worker w r now) = [] := by
  simp only [guardOps, hp]

theorem guardOps_onFill {x : Bytes} {b : Bool} (hf : c.findLeg x = some (g, p, b)) (price qty : ℚ)
    (isReject : Bool) (now : Int) :
    c.guardOps (.onFill x price qty isReject now) = p.messageOps b price qty isReject now := by
  simp only [guardOps, hf]

theorem guardOps_onFill_none {x : Bytes} (hf : c.findLeg x = none) (price qty : ℚ) (isReject : Bool) (now : Int) :
    c.guardOps (.onFill x price qty isReject now) = [] := by
  simp only [guardOps, hf]

end

section
variable {c c' : ArbCoordinator} {g : CStr 15}

@[simp] theorem portfolio_setPair (p : ArbPair) : (c.setPair g p).portfolio = c.portfolio := rfl
@[simp] theorem portfolio_join (w : Worker) : (c.join w).portfolio = c.portfolio := rfl
@[simp] theorem portfolio_pushCalls (l : List DispatchCall) : (c.pushCalls l).portfolio = c.portfolio := rfl
@[simp] theorem portfolio_setPortfolio (π : PortfolioGuard) : (c.setPortfolio π).portfolio = π := rfl
@[simp] theorem portfolio_record (x : ArbEffect) : (c.record x).portfolio = c.portfolio := rfl

@[simp] theorem portfolio_release (s : Signal) :
    (c.release s).portfolio = c.portfolio.apply (.releaseMargin s) := rfl

@[simp] theorem portfolio_startUnwind (p : ArbPair) (now : Int) :
    (c.startUnwind p now).portfolio = c.portfolio := by
  simp only [startUnwind]
  split <;> rfl

theorem portfolio_handleLegReject (p : ArbPair) (b : Bool) (now : Int) :
    (c.handleLegReject p b now).1.portfolio = c.portfolio.applyAll (p.rejectOps b) := by
  cases b with
  | true =>
    simp only [handleLegReject, ArbPair.rejectOps, ite_true, ite_self]
    split <;> rfl
  | false =>
    simp only [handleLegReject, ArbPair.rejectOps, Bool.false_eq_true, ite_false]
    by_cases h₁ : p.hasCexLeg = true
    · by_cases h₂ : p.cexLeg.status = .FILLED
      · simp [h₁, h₂]
      · simp [h₁, h₂]
    · simp [h₁]

theorem rejectOps_setLeg (p : ArbPair) (b : Bool) (x : CStr 31) :
    (p.setLeg b { p.leg b with exchangeOrderId := x }).rejectOps b = p.rejectOps b := by
  cases b <;> rfl

theorem portfolio_runWorker (w : Worker) (r : OrderResult) (now : Int) :
    (c.runWorker r now w).portfolio =
      c.portfolio.applyAll (((c.pairs.lookup w.groupId).map (·.workerOps r w)).getD []) := by
  rcases Option.eq_none_or_eq_some (c.pairs.lookup w.groupId) with hp | ⟨p, hp⟩
  · rw [hp]
    cases w with
    | unwindSend g₀ gw o => rfl
    | _ => simp only [Worker.groupId] at hp; simp [runWorker, deadline, sendResult, riskWindow, unwindResult, hp]
  rw [hp, Option.map_some, Option.getD_some]
  cases w with
  | deadline g₀ =>
    simp only [Worker.groupId] at hp
    by_cases h : p.status = .ASSEMBLING ∧ !p.bothLegsPresent
    · have hb : p.bothLegsPresent = false := by simpa using h.2
      rw [runWorker, deadline_incomplete hp h.1 hb]
      simp only [ArbPair.workerOps, if_pos h, ArbPair.expireOps, portfolio_setPair, releaseLeg,
        ArbPair.hasLeg_true, ArbPair.hasLeg_false, ArbPair.leg_true, ArbPair.leg_false]
      by_cases h₁ : p.hasCexLeg = true <;> by_cases h₂ : p.hasDexLeg = true <;> simp [h₁, h₂]
    · rw [runWorker, deadline_idle, ArbPair.workerOps, if_neg h]
      · rfl
      · intro q hq hs
        rw [hp, Option.some.injEq] at hq
        subst hq
        by_contra hb
        exact h ⟨hs, by simpa using hb⟩
  | sendResult g₀ b =>
    simp only [Worker.groupId] at hp
    simp only [runWorker, sendResult, hp, ArbPair.workerOps]
    by_cases hb : p.hasLeg b = true
    · by_cases hr : r.success = true
      · simp [hb, hr]
      · simp [hb, hr, portfolio_handleLegReject, rejectOps_setLeg]
    · simp [hb]
  | riskWindow g₀ =>
    simp only [Worker.groupId] at hp
    simp only [runWorker, riskWindow, hp, ArbPair.workerOps]
    by_cases h₁ : p.status = .CEX_FILLED
    · simp [h₁]
    · by_cases h₂ : p.status = .DEX_FILLED
      · simp [h₂]
      · simp [h₁, h₂]
  | unwindSend g₀ gw o => rfl
  | unwindResult g₀ =>
    simp only [Worker.groupId] at hp
    simp [runWorker, unwindResult, hp, ArbPair.workerOps]

theorem portfolio_onFill (x : Bytes) (price qty : ℚ) (isReject : Bool) (now : Int) :
    (c.onFill x price qty isReject now).portfolio =
      c.portfolio.applyAll (c.guardOps (.onFill x price qty isReject now)) := by
  simp only [onFill, guardOps]
  rcases Option.eq_none_or_eq_some (c.findLeg x) with hf | ⟨⟨g₀, p, b⟩, hf⟩
  · simp [hf]
  · have hst : (fillLeg p b price qty now).status = p.status := status_fillLeg ..
    simp only [hf, ArbPair.messageOps]
    cases isReject with
    | true => simp [portfolio_handleLegReject]
    | false =>
      simp only [Bool.false_eq_true, ite_false, hst]
      by_cases h₁ : p.status = .DISPATCHED
      · have h₂ : p.status ≠ ArbPair.oneSided (!b) := by rw [h₁]; cases b <;> decide
        rw [if_pos h₁, if_neg h₂]; rfl
      · by_cases h₂ : p.status = ArbPair.oneSided (!b)
        · rw [if_neg h₁, if_pos h₂, if_pos h₂]
          simp only [finalizePair]
          split <;> rfl
        · rw [if_neg h₁, if_neg h₂, if_neg h₂]; rfl

theorem portfolio_advance (d : DispatchCall) (now : Int) :
    (c.advance now d).1.portfolio = c.portfolio.applyAll (c.guardOps (.dispatch d now)) := by
  have hsend : ∀ (b : Bool) (gw : Option Exchange) (o : Order),
      (c.sendLeg d.groupId b gw o).portfolio = c.portfolio := by
    intro b gw o
    cases gw <;> rfl
  cases d with
  | enter g₀ =>
    simp only [advance, guardOps]
    by_cases hi : ∀ p, c.pairs.lookup g₀ = some p → p.status ≠ .ASSEMBLING
    · rw [dispatchEnter_idle hi]
      split
      · rfl
      · next p hp => rw [if_neg (hi p hp)]; rfl
    · simp only [not_forall, ne_eq, not_not] at hi
      obtain ⟨p, hp, hs⟩ := hi
      by_cases ha : c.Approved p
      · rw [dispatchEnter_approved hp hs ha]; simp [hp, hs, PortfolioGuard.apply]
      · rw [dispatchEnter_refused hp hs ha]; simp [hp, hs, PortfolioGuard.apply]
  | lookup g₀ o₁ o₂ => simp only [advance]; split <;> rfl
  | sendCex g₀ gw₁ gw₂ o₁ o₂ => exact hsend true gw₁ o₁
  | sendDex g₀ gw o => exact hsend false gw o
  | startMonitor g₀ => rfl

theorem portfolio_step {e : ArbEvent} (h : c.step e = some c') :
    c'.portfolio = c.portfolio.applyAll (c.guardOps e) := by
  cases e with
  | addLeg s now =>
    cases h
    rw [addLeg_fst]
    unfold addingTo
    split <;> split <;> rfl
  | dispatch d now =>
    simp only [step] at h
    split at h <;> cases h
    rw [portfolio_pushCalls, portfolio_advance]
    cases d <;> rfl
  | worker w r now =>
    simp only [step] at h
    split at h <;> cases h
    rw [portfolio_runWorker, portfolio_join, pairs_join, guardOps]
    cases c.pairs.lookup w.groupId <;> rfl
  | onFill x price qty isReject now => cases h; exact portfolio_onFill ..
  | portfolio op => cases h; rfl
  | drawOrderId => cases h; rfl

end

end ArbCoordinator

/-! ## A pair in dispatch has both legs -/

def Worker.isUnwind : Worker → Bool
  | .unwindSend _ _ _ | .unwindResult _ => true
  | _ => false

/-- An unwind of the pair is outstanding. -/
def View.Unwinding (v : View) : Prop := ∃ w ∈ v.workers, w.isUnwind = true

/-- What happens only to pairs with both legs. -/
def View.BothNeeded (v : View) (g : CStr 15) : Prop :=
  (∃ p, v.pair = some p ∧ p.status ≠ .ASSEMBLING ∧ p.status ≠ .FAILED) ∨ .enter g ∈ v.calls ∨ v.Unwinding

def View.Complete (v : View) (g : CStr 15) : Prop :=
  v.BothNeeded g → ∃ p, v.pair = some p ∧ p.bothLegsPresent = true

section
variable {c : ArbCoordinator} {g : CStr 15} {v v' : View}

theorem ArbPair.bothLegsPresent_iff {p : ArbPair} : p.bothLegsPresent = true ↔ ∀ b, p.hasLeg b = true := by
  simp [ArbPair.bothLegsPresent, and_comm]

theorem View.Complete.bothLegsPresent (hc : v.Complete g) {p : ArbPair} (hp : v.pair = some p)
    (hn : v.BothNeeded g) : p.bothLegsPresent = true := by
  obtain ⟨q, hq, hboth⟩ := hc hn
  rw [hp, Option.some.injEq] at hq
  exact hq ▸ hboth

theorem View.Complete.hasLeg (hc : v.Complete g) {p : ArbPair} (hp : v.pair = some p)
    (hn : v.BothNeeded g) (b : Bool) : p.hasLeg b = true :=
  ArbPair.bothLegsPresent_iff.mp (hc.bothLegsPresent hp hn) b

theorem View.Unwinding.mono (h : v.Unwinding) (hw : ∀ w ∈ v.workers, w.isUnwind = true → w ∈ v'.workers) :
    v'.Unwinding := by
  obtain ⟨w, hm, hu⟩ := h
  exact ⟨w, hw w hm hu, hu⟩

theorem View.unwinding_erase {w : Worker} (hw : w.isUnwind = false) :
    View.Unwinding { v with workers := v.workers.erase w } ↔ v.Unwinding := by
  constructor
  · intro h
    exact h.mono fun u hu _ => List.mem_of_mem_erase hu
  · intro h
    refine h.mono fun u hu hi => (List.mem_erase_of_ne fun he => ?_).mpr hu
    rw [he, hw] at hi
    cases hi

theorem View.unwinding_send (b : Bool) (gw : Option Exchange) (o : Order) :
    (v.send g b gw o).Unwinding ↔ v.Unwinding := by
  cases gw with
  | none => exact Iff.rfl
  | some gw => simp [View.send, View.Unwinding, Worker.isUnwind]

theorem View.unwinding_reject {p : ArbPair} {b : Bool} (hr : ¬ p.RejectUnwinds b) (now : Int) :
    (v.reject c g p b now).Unwinding ↔ v.Unwinding := by
  simp only [View.reject, if_neg hr]
  exact Iff.rfl

theorem View.calls_send (b : Bool) (gw : Option Exchange) (o : Order) : (v.send g b gw o).calls = v.calls := by
  cases gw <;> rfl

theorem View.calls_reject (p : ArbPair) (b : Bool) (now : Int) : (v.reject c g p b now).calls = v.calls := by
  simp only [View.reject]; split <;> rfl

theorem ArbPair.RejectUnwinds.bothLegsPresent {p : ArbPair} {b : Bool} (h : p.RejectUnwinds b)
    (hb : p.hasLeg b = true) : p.bothLegsPresent = true := by
  obtain ⟨rfl, hc, -⟩ := h
  simp only [ArbPair.hasLeg_false] at hb
  simp [ArbPair.bothLegsPresent, hc, hb]

theorem bothLegsPresent_withLeg (p : ArbPair) (o : Order) (h : p.bothLegsPresent = true) :
    (p.withLeg o).bothLegsPresent = true := by
  simp only [ArbPair.bothLegsPresent, Bool.and_eq_true] at h ⊢
  unfold ArbPair.withLeg
  split
  · exact ⟨rfl, h.2⟩
  · exact ⟨h.1, rfl⟩

/-- A leg that comes takes no leg away, and a call of `dispatch_pair` needs both. -/
theorem View.Complete.addLeg {p : ArbPair} {o : Order} {now : Int} (hv : v.Complete g)
    (hp : p = (v.pair.getD (c.newPair g now)).withLeg o) :
    View.Complete { v with
      pair := some p
      workers := if v.pair.isNone then .deadline g :: v.workers else v.workers
      calls := if p.bothLegsPresent then .enter g :: v.calls else v.calls } g := by
  intro hn
  refine ⟨p, rfl, ?_⟩
  by_contra hb
  have hold : v.BothNeeded g := by
    rcases hn with ⟨q, hq, hst⟩ | hm | hu
    · cases hq
      rw [hp, status_withLeg] at hst
      cases hvp : v.pair with
      | none => rw [hvp] at hst; exact absurd rfl hst.1
      | some q => rw [hvp] at hst; exact .inl ⟨q, hvp, hst⟩
    · simp only [hb, ite_false] at hm
      exact .inr (.inl hm)
    · refine .inr (.inr (hu.mono fun w hw hi => ?_))
      simp only at hw
      split at hw
      · rcases List.mem_cons.mp hw with rfl | hw
        · cases hi
        · exact hw
      · exact hw
  obtain ⟨q, hq, hboth⟩ := hv hold
  rw [hq] at hp
  exact hb (hp ▸ bothLegsPresent_withLeg q _ hboth)

theorem PairStep.complete {e : ArbEvent} (h : PairStep c g v e v') (hv : v.Complete g) : v'.Complete g := by
  intro hn
  by_cases hadd : ∃ s now, e = .addLeg s now ∧ s.groupId = g
  · obtain ⟨s, now, rfl, hg⟩ := hadd
    cases h with
    | other ht => exact absurd (congrArg some hg) ht
    | addLeg _ hp => exact hv.addLeg hp hn
  · simp only [not_exists, not_and] at hadd
    -- the step keeps the legs, so it is enough that both were there before it
    suffices hb : v.BothNeeded g ∨ ∃ p, v.pair = some p ∧ p.bothLegsPresent = true by
      obtain ⟨p, hp, hb⟩ := hb.elim hv id
      obtain ⟨p', hp', hs⟩ := h.legs_after hadd hp
      exact ⟨p', hp', hs.bothLegsPresent.trans hb⟩
    unfold View.BothNeeded at hn ⊢
    cases h with
    | other _ => exact .inl hn
    | addLeg hs _ => exact absurd hs (hadd _ _ rfl)
    | enterReturns h₀ _ | enterDispatches h₀ _ _ _ | enterRefused h₀ _ _ _ => exact .inl (.inr (.inl h₀))
    | lookupFails _ _ => exact .inl (hn.imp_right (Or.imp_left List.mem_of_mem_erase))
    | lookup _ _ => exact .inl (hn.imp_right (Or.imp_left fun h => by simpa using h))
    | sendCex _ | sendDex _ =>
      rw [pair_send] at hn
      refine .inl (hn.imp_right (Or.imp (fun h => ?_) (View.unwinding_send ..).mp))
      simpa using h
    | startMonitor _ =>
      refine .inl (hn.imp_right (Or.imp List.mem_of_mem_erase fun hu => hu.mono fun w hw hi => ?_))
      rcases List.mem_cons.mp hw with rfl | hw
      · cases hi
      · exact hw
    | deadlineIdle _ _ | sendResultIdle _ _ | riskIdle _ _ =>
      exact .inl (hn.imp_right (Or.imp_right (View.unwinding_erase rfl).mp))
    | deadline _ _ _ _ =>
      rcases hn with ⟨q, hq, hst⟩ | hm | hu
      · cases hq; exact absurd rfl hst.2
      · exact .inl (.inr (.inl hm))
      · exact .inl (.inr (.inr ((View.unwinding_erase (w := .deadline g) rfl).mp hu)))
    | @sendSucceeded b _ _ p _ h₁ _ _ =>
      rcases hn with ⟨q, hq, hst⟩ | hm | hu
      · cases hq
        rw [status_acknowledged] at hst
        exact .inl (.inl ⟨p, h₁, hst⟩)
      · exact .inl (.inr (.inl hm))
      · exact .inl (.inr (.inr ((View.unwinding_erase (w := .sendResult g b) rfl).mp hu)))
    | @sendFailed b r _ p _ h₁ hl _ =>
      by_cases hr : p.RejectUnwinds b
      · exact .inr ⟨p, h₁, hr.bothLegsPresent hl⟩
      · have hr' : ¬ (p.identified b r).RejectUnwinds b := (rejectUnwinds_identified ..).not.mpr hr
        rw [View.calls_reject, View.unwinding_reject hr'] at hn
        rcases hn with ⟨q, hq, hst⟩ | hm | hu
        · cases hq
          rw [status_rejected_of_not hr'] at hst
          exact absurd rfl hst.2
        · exact .inl (.inr (.inl hm))
        · exact .inl (.inr (.inr ((View.unwinding_erase (w := .sendResult g b) rfl).mp hu)))
    | @riskCex _ _ p _ h₁ h₂ => exact .inl (.inl ⟨p, h₁, by rw [h₂]; decide⟩)
    | @riskDex _ _ p _ h₁ h₂ => exact .inl (.inl ⟨p, h₁, by rw [h₂]; decide⟩)
    | unwindSend h₀ => exact .inl (.inr (.inr ⟨_, h₀, rfl⟩))
    | unwindResultIdle h₀ _ => exact .inl (.inr (.inr ⟨_, h₀, rfl⟩))
    | unwindResult h₀ _ => exact .inl (.inr (.inr ⟨_, h₀, rfl⟩))
    | @legRejected _ _ _ _ p b h₀ h₁ =>
      have hl := hasLeg_of_matchLeg (mem_pairs_of_findLeg h₀).2
      by_cases hr : p.RejectUnwinds b
      · exact .inr ⟨p, h₁, hr.bothLegsPresent hl⟩
      · rw [View.calls_reject, View.unwinding_reject hr] at hn
        rcases hn with ⟨q, hq, hst⟩ | hmu
        · cases hq
          rw [status_rejected_of_not hr] at hst
          exact absurd rfl hst.2
        · exact .inl (.inr hmu)
    | @firstFill _ _ _ _ p b _ h₁ h₂ => exact .inl (.inl ⟨p, h₁, by rw [h₂]; decide⟩)
    | @secondFill _ _ _ _ p b _ h₁ h₂ => exact .inl (.inl ⟨p, h₁, by rw [h₂]; cases b <;> decide⟩)
    | @lateFill _ _ _ _ p b _ h₁ _ _ =>
      refine .inl (hn.imp_left fun ⟨q, hq, hst⟩ => ?_)
      cases hq
      rw [status_fillLeg] at hst
      exact ⟨p, h₁, hst⟩

def ArbCoordinator.Complete (c : ArbCoordinator) : Prop := ∀ g, (c.view g).Complete g

theorem ArbCoordinator.complete_init (config : ArbConfig) (π : PortfolioGuard) (hasGateway : Exchange → Bool) :
    (init config π hasGateway).Complete := by
  intro g hn
  rcases hn with ⟨p, hp, -⟩ | hm | ⟨w, hm, -⟩
  · simp [init, view] at hp
  · simp [init, view] at hm
  · simp [init, view] at hm

theorem ArbCoordinator.Complete.step (h : c.Complete) (hk : c.Keyed) {e : ArbEvent} {c' : ArbCoordinator}
    (hs : c.step e = some c') : c'.Complete := fun g => (step_view hk hs g).complete (h g)

/-! ## The signals of the calls -/

def ArbPair.AboutLegs (p : ArbPair) (ops : List GuardOp) : Prop :=
  ∀ op ∈ ops, ∀ s ∈ op.signals, ∃ b, p.hasLeg b = true ∧ (p.leg b).signal = s

namespace ArbPair

variable {p : ArbPair}

theorem aboutLegs_nil : p.AboutLegs [] := fun _ h => by cases h

theorem AboutLegs.append {ops₁ ops₂ : List GuardOp} (h₁ : p.AboutLegs ops₁) (h₂ : p.AboutLegs ops₂) :
    p.AboutLegs (ops₁ ++ ops₂) :=
  fun op hop => (List.mem_append.mp hop).elim (h₁ op) (h₂ op)

theorem aboutLegs_release (b : Bool) (hb : p.hasLeg b = true) :
    p.AboutLegs [.releaseMargin (p.leg b).signal] := by
  intro op hop s hs
  rw [List.mem_singleton.mp hop] at hs
  exact ⟨b, hb, (List.mem_singleton.mp hs).symm⟩

theorem aboutLegs_both {ops : List GuardOp} (h : p.bothLegsPresent = true)
    (hops : ∀ op ∈ ops, ∀ s ∈ op.signals, s = p.cexLeg.signal ∨ s = p.dexLeg.signal) : p.AboutLegs ops := by
  simp only [bothLegsPresent, Bool.and_eq_true] at h
  intro op hop s hs
  rcases hops op hop s hs with rfl | rfl
  · exact ⟨true, h.1, rfl⟩
  · exact ⟨false, h.2, rfl⟩

theorem aboutLegs_rejectOps {b : Bool} (hb : p.hasLeg b = true) : p.AboutLegs (p.rejectOps b) := by
  cases b with
  | true =>
    simp only [rejectOps, ite_true]
    split
    · next h => exact (aboutLegs_release true hb).append (aboutLegs_release false h.1)
    · exact aboutLegs_release true hb
  | false =>
    simp only [rejectOps, Bool.false_eq_true, ite_false]
    split
    · next h => exact (aboutLegs_release true h.1).append (aboutLegs_release false hb)
    · exact aboutLegs_release false hb

theorem aboutLegs_expireOps : p.AboutLegs p.expireOps := by
  unfold expireOps
  refine AboutLegs.append ?_ ?_
  · split
    · next h => exact aboutLegs_release true h
    · exact aboutLegs_nil
  · split
    · next h => exact aboutLegs_release false h
    · exact aboutLegs_nil

theorem aboutLegs_bookOps (h : p.bothLegsPresent = true) : p.AboutLegs p.bookOps :=
  aboutLegs_both h (by simp [bookOps, GuardOp.signals])

theorem AboutLegs.congr {p' : ArbPair} {ops : List GuardOp} (hs : p.SameLegs p') (h : p'.AboutLegs ops) :
    p.AboutLegs ops := by
  intro op hop s hsig
  obtain ⟨b, hb, he⟩ := h op hop s hsig
  exact ⟨b, (hs.hasLeg b).symm.trans hb, (hs.signal b).symm.trans he⟩

/-- The risk window and the unwind find both legs there. -/
theorem aboutLegs_workerOps (r : OrderResult) {w : Worker}
    (hrisk : p.status = .CEX_FILLED ∨ p.status = .DEX_FILLED → p.bothLegsPresent = true)
    (hunwind : ∀ g, w = .unwindResult g → p.bothLegsPresent = true) : p.AboutLegs (p.workerOps r w) := by
  cases w with
  | deadline g =>
    simp only [workerOps]
    split
    · exact aboutLegs_expireOps
    · exact aboutLegs_nil
  | sendResult g b =>
    simp only [workerOps]
    split
    · next hb => exact aboutLegs_rejectOps hb.1
    · exact aboutLegs_nil
  | riskWindow g =>
    simp only [workerOps]
    split
    · next hst => exact aboutLegs_both (hrisk (.inl hst)) (by simp [GuardOp.signals])
    · split
      · next hst => exact aboutLegs_both (hrisk (.inr hst)) (by simp [GuardOp.signals])
      · exact aboutLegs_nil
  | unwindSend g gw o => exact aboutLegs_nil
  | unwindResult g => exact aboutLegs_both (hunwind g rfl) (by simp [workerOps, GuardOp.signals])

theorem aboutLegs_messageOps {b : Bool} (hb : p.hasLeg b = true)
    (hboth : p.status = oneSided (!b) → p.bothLegsPresent = true) (price qty : ℚ) (isReject : Bool) (now : Int) :
    p.AboutLegs (p.messageOps b price qty isReject now) := by
  unfold messageOps
  split
  · exact aboutLegs_rejectOps hb
  · split
    · next hst =>
      have hsame := sameLegs_fillLeg p b price qty now
      exact (aboutLegs_bookOps (hsame.bothLegsPresent.trans (hboth hst))).congr hsame
    · exact aboutLegs_nil

end ArbPair

/-- The calls of a step are about legs of the pair it touches. -/
theorem ArbCoordinator.guardOps_signals (hc : c.Complete) {e : ArbEvent} {c' : ArbCoordinator}
    (h : c.step e = some c') (he : ∀ op, e ≠ .portfolio op) {op : GuardOp} (hop : op ∈ c.guardOps e)
    {s : Signal} (hs : s ∈ op.signals) :
    ∃ g p b, c.touched e = some g ∧ c.pairs.lookup g = some p ∧ p.hasLeg b = true ∧ (p.leg b).signal = s := by
  suffices ∃ g p, c.touched e = some g ∧ c.pairs.lookup g = some p ∧ p.AboutLegs (c.guardOps e) by
    obtain ⟨g, p, ht, hp, ha⟩ := this
    obtain ⟨b, hb, hbs⟩ := ha op hop s hs
    exact ⟨g, p, b, ht, hp, hb, hbs⟩
  have both : ∀ g p, c.pairs.lookup g = some p → (c.view g).BothNeeded g → p.bothLegsPresent = true :=
    fun g p hp hn => (hc g).bothLegsPresent hp hn
  cases e with
  | addLeg s now => cases hop
  | dispatch d now =>
    cases d with
    | enter g =>
      simp only [step] at h
      split at h
      · next hm =>
        by_cases hi : ∀ p, c.pairs.lookup g = some p → p.status ≠ .ASSEMBLING
        · rw [guardOps_enter_idle hi] at hop
          cases hop
        · simp only [not_forall, ne_eq, not_not] at hi
          obtain ⟨p, hp, hst⟩ := hi
          refine ⟨g, p, rfl, hp, ?_⟩
          rw [guardOps_enter hp hst]
          exact ArbPair.aboutLegs_both (both g p hp (.inr (.inl (mem_calls_view hm rfl)))) (by simp [GuardOp.signals])
      · cases h
    | _ => cases hop
  | worker w r now =>
    simp only [step] at h
    split at h
    · next hm =>
      cases hp : c.pairs.lookup w.groupId with
      | none =>
        rw [guardOps_worker_none hp] at hop
        cases hop
      | some p =>
        refine ⟨w.groupId, p, rfl, hp, ?_⟩
        rw [guardOps_worker hp]
        refine ArbPair.aboutLegs_workerOps r (fun hst => both _ p hp (.inl ⟨p, hp, ?_⟩)) fun g hw => ?_
        · rcases hst with hst | hst <;> rw [hst] <;> decide
        · subst hw
          exact both g p hp (.inr (.inr ⟨_, mem_workers_view hm rfl, rfl⟩))
    · cases h
  | onFill x price qty isReject now =>
    cases hf : c.findLeg x with
    | none =>
      rw [guardOps_onFill_none hf] at hop
      cases hop
    | some leg =>
      obtain ⟨g, p, b⟩ := leg
      obtain ⟨hp, hl⟩ := mem_pairs_of_findLeg hf
      refine ⟨g, p, by simp [touched, hf], hp, ?_⟩
      rw [guardOps_onFill hf]
      refine ArbPair.aboutLegs_messageOps (hasLeg_of_matchLeg hl) (fun hst => ?_) price qty isReject now
      exact both g p hp (.inl ⟨p, hp, by rw [hst]; cases b <;> decide⟩)
  | portfolio op => exact absurd rfl (he op)
  | drawOrderId => cases hop

end

end OrderExecution
