import OrderExecution.ArbLedger
import OrderExecution.MarketSteps

/-!
# What is booked at the guard

The logs of the coordinator and of the manager record each `on_fill` that is
called on the guard, and nothing else moves a position: a position is the sum
of the two logs.
-/

namespace OrderExecution

open ArbCoordinator PortfolioGuard

/-- What a fill adds to the position of the symbol `y`. -/
def held (y : CStr 15) (s : Signal) (qty : ℚ) : ℚ := if s.symbol = y then qty * s.side.sign else 0

theorem cancels_held (y : CStr 15) : Cancels (held y) := by
  intro s s' q hsym hside
  unfold held
  rw [hsym, hside, Side.sign_opposite]
  split
  · rw [mul_neg]
  · rw [neg_zero]

def GuardOp.booked (W : Signal → ℚ → ℚ) : GuardOp → ℚ
  | .onFill s _ q => W s q
  | .checkAndReserve _ | .checkAndReservePair _ _ | .releaseMargin _ => 0

def ManagerEffect.booked (W : Signal → ℚ → ℚ) : ManagerEffect → ℚ
  | .bookFill _ s _ q => W s q
  | .processed _ | .sendOrder _ _ => 0

def ArbCoordinator.booked (W : Signal → ℚ → ℚ) (c : ArbCoordinator) : ℚ := (c.log.map (ArbEffect.booked W)).sum

def OrderManager.booked (W : Signal → ℚ → ℚ) (m : OrderManager) : ℚ := (m.log.map (ManagerEffect.booked W)).sum

def bookedBy (W : Signal → ℚ → ℚ) (ops : List GuardOp) : ℚ := (ops.map (GuardOp.booked W)).sum

/-! ## The coordinator -/

section
variable {W : Signal → ℚ → ℚ} {c c' : ArbCoordinator} {g : CStr 15}

@[simp] theorem bookedBy_nil : bookedBy W [] = 0 := rfl

@[simp] theorem bookedBy_cons (op : GuardOp) (ops : List GuardOp) :
    bookedBy W (op :: ops) = op.booked W + bookedBy W ops := by
  simp [bookedBy]

theorem bookedBy_rejectOps (p : ArbPair) (b : Bool) : bookedBy W (p.rejectOps b) = 0 := by
  unfold ArbPair.rejectOps
  split
  · split <;> simp [GuardOp.booked]
  · split <;> simp [GuardOp.booked]

theorem bookedBy_expireOps (p : ArbPair) : bookedBy W p.expireOps = 0 := by
  unfold ArbPair.expireOps
  split <;> split <;> simp [GuardOp.booked]

theorem bookedBy_workerOps (p : ArbPair) (r : OrderResult) (w : Worker) : bookedBy W (p.workerOps r w) = 0 := by
  cases w with
  | deadline g =>
    simp only [ArbPair.workerOps]
    split
    · exact bookedBy_expireOps p
    · rfl
  | sendResult g b =>
    simp only [ArbPair.workerOps]
    split
    · exact bookedBy_rejectOps p b
    · rfl
  | riskWindow g =>
    simp only [ArbPair.workerOps]
    split
    · simp [GuardOp.booked]
    · split <;> simp [GuardOp.booked]
  | unwindSend g gw o => rfl
  | unwindResult g => simp [ArbPair.workerOps, GuardOp.booked]

namespace ArbCoordinator

@[simp] theorem booked_setPair (p : ArbPair) : (c.setPair g p).booked W = c.booked W := rfl
@[simp] theorem booked_spawn (w : Worker) : (c.spawn w).booked W = c.booked W := rfl
@[simp] theorem booked_join (w : Worker) : (c.join w).booked W = c.booked W := rfl
@[simp] theorem booked_pushCalls (l : List DispatchCall) : (c.pushCalls l).booked W = c.booked W := rfl
@[simp] theorem booked_dropCall (d : DispatchCall) : (c.dropCall d).booked W = c.booked W := rfl
@[simp] theorem booked_setPortfolio (π : PortfolioGuard) : (c.setPortfolio π).booked W = c.booked W := rfl
@[simp] theorem booked_setUuid (u : UuidGenerator) : (c.setUuid u).booked W = c.booked W := rfl
@[simp] theorem booked_release (s : Signal) : (c.release s).booked W = c.booked W := rfl

@[simp] theorem booked_record (x : ArbEffect) : (c.record x).booked W = x.booked W + c.booked W := by
  simp [booked, record]

@[simp] theorem booked_startUnwind (p : ArbPair) (now : Int) : (c.startUnwind p now).booked W = c.booked W := by
  unfold startUnwind
  simp only
  split <;> simp [ArbEffect.booked]

theorem booked_handleLegReject (p : ArbPair) (b : Bool) (now : Int) :
    (c.handleLegReject p b now).1.booked W = c.booked W := by
  cases b with
  | true =>
    simp only [handleLegReject, ite_true, ite_self]
    split <;> rfl
  | false =>
    simp only [handleLegReject, Bool.false_eq_true, ite_false]
    split
    · simp
    · split <;> simp

theorem booked_runWorker (w : Worker) (r : OrderResult) (now : Int) :
    (c.runWorker r now w).booked W = c.booked W := by
  cases w with
  | deadline g =>
    simp only [runWorker]
    by_cases hi : ∀ p, c.pairs.lookup g = some p → p.status = .ASSEMBLING → p.bothLegsPresent = true
    · rw [deadline_idle hi]
    · simp only [not_forall, Bool.not_eq_true] at hi
      obtain ⟨p, hp, hs, hb⟩ := hi
      rw [deadline_incomplete hp hs hb]
      simp only [booked_setPair, releaseLeg]
      split <;> split <;> rfl
  | sendResult g b =>
    simp only [runWorker, sendResult]
    split
    · rfl
    · split
      · split
        · rfl
        · rw [booked_setPair, booked_handleLegReject]
      · rfl
  | riskWindow g =>
    simp only [runWorker, riskWindow]
    split
    · rfl
    · split
      · simp
      · split <;> rfl
  | unwindSend g gw o => simp [runWorker, ArbEffect.booked]
  | unwindResult g =>
    simp only [runWorker, unwindResult]
    split <;> rfl

theorem booked_advance (d : DispatchCall) (now : Int) : (c.advance now d).1.booked W = c.booked W := by
  have hsend : ∀ (g : CStr 15) (b : Bool) (gw : Option Exchange) (o : Order),
      (c.sendLeg g b gw o).booked W = c.booked W := by
    intro g b gw o
    cases gw <;> simp [sendLeg, ArbEffect.booked]
  cases d with
  | enter g =>
    simp only [advance, dispatchEnter]
    split
    · rfl
    · split
      · rfl
      · split <;> simp [ArbEffect.booked]
  | lookup g o₁ o₂ => simp only [advance]; split <;> rfl
  | sendCex g gw₁ gw₂ o₁ o₂ => exact hsend g true gw₁ o₁
  | sendDex g gw o => exact hsend g false gw o
  | startMonitor g => rfl

theorem booked_finalizePair (p : ArbPair) :
    (c.finalizePair g p).1.booked W = c.booked W + bookedBy W p.bookOps := by
  have hbook : ∀ (c : ArbCoordinator) (o : Order), (c.bookFill g o).booked W =
      W o.signal o.filledQuantity + c.booked W := by
    intro c o
    rw [bookFill, booked_record, booked_setPortfolio, ArbEffect.booked]
  have hlegs : (c.finalizePair g p).1 = (c.bookFill g p.cexLeg).bookFill g p.dexLeg := by
    unfold finalizePair
    simp only
    split <;> rfl
  rw [hlegs, hbook, hbook, ArbPair.bookOps, bookedBy_cons, bookedBy_cons, bookedBy_nil, GuardOp.booked,
    GuardOp.booked]
  ring

theorem booked_onFill (x : Bytes) (price qty : ℚ) (isReject : Bool) (now : Int) :
    (c.onFill x price qty isReject now).booked W =
      c.booked W + bookedBy W (c.guardOps (.onFill x price qty isReject now)) := by
  simp only [onFill, guardOps]
  cases hf : c.findLeg x with
  | none => simp
  | some y =>
    obtain ⟨g, p, b⟩ := y
    have hst : (fillLeg p b price qty now).status = p.status := status_fillLeg ..
    simp only [ArbPair.messageOps]
    cases isReject with
    | true => simp [booked_handleLegReject, bookedBy_rejectOps]
    | false =>
      simp only [Bool.false_eq_true, ite_false, hst]
      by_cases h₂ : p.status = ArbPair.oneSided (!b)
      · have h₁ : p.status ≠ .DISPATCHED := by rw [h₂]; cases b <;> decide
        rw [if_neg h₁, if_pos h₂, if_pos h₂]
        rw [booked_setPair, booked_finalizePair]
        rfl
      · rw [if_neg h₂]
        split <;> simp

/-- The log of the coordinator records what its own steps book. -/
theorem booked_step {e : ArbEvent} (h : c.step e = some c') (he : ∀ op, e ≠ .portfolio op) :
    c'.booked W = c.booked W + bookedBy W (c.guardOps e) := by
  cases e with
  | addLeg s now =>
    cases h
    rw [addLeg_fst]
    unfold addingTo
    split <;> split <;> simp [guardOps]
  | dispatch d now =>
    simp only [step] at h
    split at h <;> cases h
    rw [booked_pushCalls, booked_advance, booked_dropCall]
    have : bookedBy W (c.guardOps (.dispatch d now)) = 0 := by
      cases d with
      | enter g =>
        simp only [guardOps]
        split
        · rfl
        · split <;> simp [GuardOp.booked]
      | _ => rfl
    rw [this, add_zero]
  | worker w r now =>
    simp only [step] at h
    split at h <;> cases h
    rw [booked_runWorker, booked_join, guardOps]
    split
    · simp
    · rw [bookedBy_workerOps, add_zero]
  | onFill x price qty isReject now => cases h; exact booked_onFill ..
  | portfolio op => exact absurd rfl (he op)
  | drawOrderId => cases h; simp [guardOps]

end ArbCoordinator

end

/-! ## The manager -/

namespace OrderManager

section
variable {W : Signal → ℚ → ℚ} {m m' : OrderManager}

@[simp] theorem booked_setArb (c : ArbCoordinator) : (m.setArb c).booked W = m.booked W := rfl
@[simp] theorem booked_setResolver (r : ConflictResolver) : (m.setResolver r).booked W = m.booked W := rfl
@[simp] theorem booked_spawn (ts : List SingleTask) : (m.spawn ts).booked W = m.booked W := rfl
@[simp] theorem booked_drop (t : SingleTask) : (m.drop t).booked W = m.booked W := rfl
@[simp] theorem booked_release (s : Signal) : (m.release s).booked W = m.booked W := rfl
@[simp] theorem booked_setOrder (id : CStr 15) (o : Order) : (m.setOrder id o).booked W = m.booked W := rfl
@[simp] theorem booked_storeOrder (o : Order) : (m.storeOrder o).booked W = m.booked W := rfl
@[simp] theorem booked_updateStatus (id : CStr 15) (status : OrderStatus) :
    (m.updateStatus id status).booked W = m.booked W := rfl

@[simp] theorem booked_record (x : ManagerEffect) : (m.record x).booked W = x.booked W + m.booked W := by
  simp [booked, record]

theorem booked_advance (t : SingleTask) (answers : List (Option CancelResult)) (r : OrderResult) (now : Int) :
    (m.advance answers r now t).1.booked W = m.booked W := by
  cases t with
  | lookup o => simp only [advance]; split <;> simp [ManagerEffect.booked]
  | result o =>
    simp only [advance, sendResult]
    split
    · rfl
    · split <;> rfl
  | _ => simp [advance, ManagerEffect.booked]

theorem booked_finishFill (f : Fill) : (m.finishFill f).booked W = m.booked W +
    match m.findOrder f.exchangeOrderId with
    | some (_, order) => if f.isReject then 0 else W order.signal f.filledQty
    | none => 0 := by
  unfold finishFill
  cases m.findOrder f.exchangeOrderId with
  | none => simp
  | some x => cases f.isReject <;> simp [bookFill, ManagerEffect.booked, add_comm]

/-- The log of the manager records what it books itself. -/
theorem booked_step {e : ManagerEvent} (h : m.step e = some m') : m'.booked W = m.booked W +
    match m.arbEvent e with
    | some (.portfolio op) => op.booked W
    | _ => 0 := by
  cases e with
  | processSignal s receiveNs now =>
    cases h
    simp only [arbEvent, processSignal]
    cases (SignalReceiver.validate m.signalConfig s receiveNs).valid with
    | false => simp [ManagerEffect.booked]
    | true => cases s.hasGroupId <;> simp [ManagerEffect.booked]
  | task t answers r now =>
    simp only [step] at h
    split at h <;> cases h
    rw [booked_spawn, booked_advance, booked_drop]
    cases t with
    | reserve o | release o => simp [arbEvent, GuardOp.booked]
    | result o =>
      simp only [arbEvent]
      by_cases hc : (!r.success) = true ∧ (m.orders.lookup o.orderId).isSome = true
      · simp [hc, GuardOp.booked]
      · rw [if_neg hc]; simp
    | _ => simp [arbEvent]
  | arb a =>
    simp only [step] at h
    split at h
    · next hown =>
      obtain ⟨c, -, rfl⟩ := Option.map_eq_some_iff.mp h
      cases a with
      | portfolio op => cases hown
      | _ => simp [arbEvent]
    · cases h
  | onFill f now => cases h; simp [arbEvent, onFill]
  | finishFill f =>
    cases h
    rw [booked_finishFill]
    simp only [arbEvent]
    cases m.findOrder f.exchangeOrderId with
    | none => rfl
    | some x => cases hr : f.isReject <;> simp [GuardOp.booked]

/-- Together the two logs record what a step books. -/
theorem recorded_step {e : ManagerEvent} (h : m.step e = some m') : m'.arb.booked W + m'.booked W =
    m.arb.booked W + m.booked W + ((m.arbEvent e).map fun a => bookedBy W (m.arb.guardOps a)).getD 0 := by
  rw [booked_step h]
  rcases arb_step h with ⟨ha, harb⟩ | ⟨a, ha, hstep⟩
  · rw [ha, harb]
    simp
  · rw [ha, Option.map_some, Option.getD_some]
    by_cases hp : ∃ op, a = .portfolio op
    · obtain ⟨op, rfl⟩ := hp
      have hlog : m'.arb = m.arb.setPortfolio (m.arb.portfolio.apply op) := (Option.some.inj hstep).symm
      rw [hlog, ArbCoordinator.booked_setPortfolio, ArbCoordinator.guardOps, bookedBy_cons, bookedBy_nil, add_zero,
        add_assoc]
    · rw [ArbCoordinator.booked_step hstep fun op he => hp ⟨op, he⟩]
      cases a with
      | portfolio op => exact absurd ⟨op, rfl⟩ hp
      | _ => simp only; ring

end

end OrderManager

/-! ## Positions -/

namespace PortfolioGuard

section
variable {symbols : Finset (CStr 15)} {π : PortfolioGuard}

theorem Booked.apply (h : π.Booked symbols) {op : GuardOp} (hop : ∀ s ∈ op.signals, s.symbol ∈ symbols)
    (y : CStr 15) : (π.apply op).Booked symbols ∧ (π.apply op).position y = π.position y + op.booked (held y) := by
  have same : ∀ {π' : PortfolioGuard}, π'.Wf → π'.state.positions = π.state.positions →
      π'.Booked symbols ∧ π'.position y = π.position y + 0 := by
    intro π' hw he
    refine ⟨h.of_positions_eq hw he, ?_⟩
    rw [position, he, add_zero, position]
  cases op with
  | checkAndReserve s => exact same (h.wf.checkAndReserve s) (state_positions_checkAndReserve s)
  | checkAndReservePair cex dex =>
    exact same (h.wf.checkAndReservePair cex dex) (state_positions_checkAndReservePair cex dex)
  | releaseMargin s => exact same (h.wf.releaseMargin s) (state_positions_releaseMargin s)
  | onFill s price qty =>
    have hs : s.symbol ∈ symbols := hop s (List.mem_singleton_self s)
    exact ⟨h.onFill hs price qty, h.position_onFill hs price qty y⟩

theorem Booked.applyAll (h : π.Booked symbols) {ops : List GuardOp}
    (hops : ∀ op ∈ ops, ∀ s ∈ op.signals, s.symbol ∈ symbols) (y : CStr 15) :
    (π.applyAll ops).Booked symbols ∧ (π.applyAll ops).position y = π.position y + bookedBy (held y) ops := by
  induction ops generalizing π with
  | nil => exact ⟨h, by simp⟩
  | cons op ops ih =>
    obtain ⟨h₁, h₂⟩ := h.apply (hops op (List.mem_cons_self ..)) y
    obtain ⟨h₃, h₄⟩ := ih h₁ fun op hop => hops op (List.mem_cons_of_mem _ hop)
    exact ⟨h₃, by rw [applyAll_cons, h₄, h₂, bookedBy_cons, add_assoc]⟩

end

end PortfolioGuard

end OrderExecution
