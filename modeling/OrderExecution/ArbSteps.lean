import OrderExecution.ArbCoordinator

/-!
# What one step does to one pair

`view c g` is all that the coordinator holds about the pair `g`. `PairStep` lists
what a step does to it, with the guards under which it does so, and `step_view`
is the inversion lemma: every later invariant is a case analysis of `PairStep`.
-/

namespace OrderExecution

open ArbCoordinator

/-! ## The pair after each handler -/

namespace ArbPair

def rejectOrder (reason : CStr 63) (o : Order) : Order :=
  { o with status := .REJECTED, rejectReason := reason }

def sentOrder (now : Int) (o : Order) : Order := { o with status := .SENT, sentAtNs := now }

def withLeg (p : ArbPair) (o : Order) : ArbPair :=
  match getExchangeType o.signal.exchange with
  | .CEX => { p with cexLeg := o, hasCexLeg := true }
  | .DEX => { p with dexLeg := o, hasDexLeg := true }

def expired (p : ArbPair) (reason : CStr 63) : ArbPair :=
  { p with
    status := .FAILED
    cexLeg := if p.hasCexLeg then rejectOrder reason p.cexLeg else p.cexLeg
    dexLeg := if p.hasDexLeg then rejectOrder reason p.dexLeg else p.dexLeg }

def refused (p : ArbPair) (reason : CStr 63) : ArbPair :=
  { p with
    status := .FAILED
    expectedSpreadBps := calcExpectedSpread p.cexLeg.signal p.dexLeg.signal
    cexLeg := rejectOrder reason p.cexLeg
    dexLeg := rejectOrder reason p.dexLeg }

def dispatchedAt (p : ArbPair) (now : Int) : ArbPair :=
  { p with
    status := .DISPATCHED
    expectedSpreadBps := calcExpectedSpread p.cexLeg.signal p.dexLeg.signal
    cexLeg := sentOrder now p.cexLeg
    dexLeg := sentOrder now p.dexLeg }

/-- After a send result wrote the exchange's id of the order. -/
def identified (p : ArbPair) (isCex : Bool) (result : OrderResult) : ArbPair :=
  p.setLeg isCex { p.leg isCex with exchangeOrderId := result.exchangeOrderId }

def acknowledged (p : ArbPair) (isCex : Bool) (result : OrderResult) : ArbPair :=
  let leg := { p.leg isCex with exchangeOrderId := result.exchangeOrderId }
  p.setLeg isCex <|
    if isCex then { leg with status := .ACKNOWLEDGED }
    else
      let leg := { leg with status := .TX_PENDING }
      if result.hasTxHash then leg.setTxHash result.txHash else leg

/-- A DEX reject unwinds the CEX leg, if that is filled. -/
def RejectUnwinds (p : ArbPair) (isCexReject : Bool) : Prop :=
  isCexReject = false ∧ p.hasCexLeg = true ∧ p.cexLeg.status = .FILLED

instance (p : ArbPair) (isCexReject : Bool) : Decidable (p.RejectUnwinds isCexReject) :=
  inferInstanceAs (Decidable (_ ∧ _ ∧ _))

def rejected (p : ArbPair) (isCexReject : Bool) : ArbPair :=
  if isCexReject then
    { p with
      status := .FAILED
      cexLeg := { p.cexLeg with status := .REJECTED }
      dexLeg := if p.hasDexLeg ∧ !isTerminal p.dexLeg.status then { p.dexLeg with status := .CANCELLED }
        else p.dexLeg }
  else
    { p with
      status := if p.RejectUnwinds false then .UNWINDING else .FAILED
      cexLeg := if p.hasCexLeg ∧ p.cexLeg.status ≠ .FILLED then { p.cexLeg with status := .CANCELLED }
        else p.cexLeg
      dexLeg := { p.dexLeg with status := .REJECTED } }

def finalized (p : ArbPair) : ArbPair :=
  { p with
    status := .COMPLETED
    riskWindowNs := if p.cexFillNs > 0 ∧ p.dexConfirmNs > 0 then |p.dexConfirmNs - p.cexFillNs|
      else p.riskWindowNs
    realizedSpreadBps := calcRealizedSpread p }

def riskUnwound (p : ArbPair) : ArbPair :=
  { p with status := .UNWINDING, dexLeg := { p.dexLeg with status := .TIMEOUT } }

def riskFailed (p : ArbPair) : ArbPair :=
  { p with status := .FAILED, cexLeg := { p.cexLeg with status := .TIMEOUT } }

end ArbPair

/-! ## Views -/

/-- What the coordinator holds about one pair. -/
structure View where
  pair : Option ArbPair
  workers : List Worker
  calls : List DispatchCall
  log : List ArbEffect

def ArbCoordinator.view (c : ArbCoordinator) (g : CStr 15) : View where
  pair := c.pairs.lookup g
  workers := c.workers.filter (·.groupId = g)
  calls := c.calls.filter (·.groupId = g)
  log := c.log.filter (·.groupId = g)

namespace View

/-- `start_unwind` for the pair `p`. -/
def unwind (v : View) (c : ArbCoordinator) (g : CStr 15) (p : ArbPair) (now : Int) : View :=
  { v with
    log := .startUnwind g :: v.log
    workers := if c.hasGateway p.cexLeg.signal.exchange then
        .unwindSend g p.cexLeg.signal.exchange (c.unwindOrder p now) :: v.workers
      else v.workers }

/-- `handle_leg_reject` for the pair `p`. -/
def reject (v : View) (c : ArbCoordinator) (g : CStr 15) (p : ArbPair) (isCex : Bool) (now : Int) : View :=
  { (if p.RejectUnwinds isCex then v.unwind c g p now else v) with pair := some (p.rejected isCex) }

/-- A send of `dispatch_pair`. -/
def send (v : View) (g : CStr 15) (isCex : Bool) (gateway : Option Exchange) (o : Order) : View :=
  match gateway with
  | none => v
  | some gw =>
    { v with
      log := .sendOrder g (if isCex then .cexLeg else .dexLeg) gw o :: v.log
      workers := .sendResult g isCex :: v.workers }

end View

namespace ArbCoordinator

def newPair (c : ArbCoordinator) (g : CStr 15) (now : Int) : ArbPair :=
  { groupId := g, createdAtNs := now,
    dispatchDeadlineNs := now + c.config.assemblyDeadlineMs * 1000000 }

/-- After `add_leg` drew an order id and started the timer of a new pair. -/
def addingTo (c : ArbCoordinator) (g : CStr 15) : ArbCoordinator :=
  if (c.pairs.lookup g).isNone then (c.setUuid c.uuid.orderId.2).spawn (.deadline g)
  else c.setUuid c.uuid.orderId.2

/-- Release the margin of a leg that is there. -/
def releaseLeg (c : ArbCoordinator) (p : ArbPair) (isCex : Bool) : ArbCoordinator :=
  if p.hasLeg isCex then c.release (p.leg isCex).signal else c

def newOrder (c : ArbCoordinator) (s : Signal) (now : Int) : Order :=
  { orderId := storedOrderId c.uuid.orderCounter, signal := s, status := .CREATED, createdAtNs := now }

def addedPair (c : ArbCoordinator) (s : Signal) (now : Int) : ArbPair :=
  ((c.pairs.lookup s.groupId).getD (c.newPair s.groupId now)).withLeg (c.newOrder s now)

/-- The pair an event is about. -/
def touched (c : ArbCoordinator) : ArbEvent → Option (CStr 15)
  | .addLeg s _ => some s.groupId
  | .dispatch call _ => some call.groupId
  | .worker w _ _ => some w.groupId
  | .onFill exchangeOrderId _ _ _ _ => (c.findLeg exchangeOrderId).map (·.1)
  | .portfolio _ | .drawOrderId => none

def Approved (c : ArbCoordinator) (p : ArbPair) : Prop :=
  (c.portfolio.checkAndReservePair p.cexLeg.signal p.dexLeg.signal).2.approved = true

/-- The reason of a refusal, cut to the length of an order's. -/
def refusal (c : ArbCoordinator) (p : ArbPair) : CStr 63 :=
  .copy 63 (c.portfolio.checkAndReservePair p.cexLeg.signal p.dexLeg.signal).2.reason.bytes

end ArbCoordinator

/-- What an event does to the view of the pair `g`. -/
inductive PairStep (c : ArbCoordinator) (g : CStr 15) (v : View) : ArbEvent → View → Prop where
  | other {e} : c.touched e ≠ some g → PairStep c g v e v
  | addLeg {s now p} : s.groupId = g → p = (v.pair.getD (c.newPair g now)).withLeg (c.newOrder s now) →
      PairStep c g v (.addLeg s now)
        { v with
          pair := some p
          workers := if v.pair.isNone then .deadline g :: v.workers else v.workers
          calls := if p.bothLegsPresent then .enter g :: v.calls else v.calls }
  | enterReturns {now} : .enter g ∈ v.calls → (∀ p, v.pair = some p → p.status ≠ .ASSEMBLING) →
      PairStep c g v (.dispatch (.enter g) now) { v with calls := v.calls.erase (.enter g) }
  | enterRefused {now p} : .enter g ∈ v.calls → v.pair = some p → p.status = .ASSEMBLING → ¬ c.Approved p →
      PairStep c g v (.dispatch (.enter g) now)
        { v with pair := some (p.refused (c.refusal p)), calls := v.calls.erase (.enter g) }
  | enterDispatches {now p} : .enter g ∈ v.calls → v.pair = some p → p.status = .ASSEMBLING → c.Approved p →
      PairStep c g v (.dispatch (.enter g) now)
        { v with
          pair := some (p.dispatchedAt now)
          calls := .lookup g (p.dispatchedAt now).cexLeg (p.dispatchedAt now).dexLeg :: v.calls.erase (.enter g)
          log := .dispatched g :: v.log }
  | lookupFails {now o₁ o₂} : .lookup g o₁ o₂ ∈ v.calls → v.pair = none →
      PairStep c g v (.dispatch (.lookup g o₁ o₂) now) { v with calls := v.calls.erase (.lookup g o₁ o₂) }
  | lookup {now o₁ o₂ p} : .lookup g o₁ o₂ ∈ v.calls → v.pair = some p →
      PairStep c g v (.dispatch (.lookup g o₁ o₂) now)
        { v with
          calls := .sendCex g (c.findGateway p.cexLeg.signal.exchange)
            (c.findGateway p.dexLeg.signal.exchange) o₁ o₂ :: v.calls.erase (.lookup g o₁ o₂) }
  | sendCex {now gw₁ gw₂ o₁ o₂} : .sendCex g gw₁ gw₂ o₁ o₂ ∈ v.calls →
      PairStep c g v (.dispatch (.sendCex g gw₁ gw₂ o₁ o₂) now)
        { v.send g true gw₁ o₁ with
          calls := .sendDex g gw₂ o₂ :: v.calls.erase (.sendCex g gw₁ gw₂ o₁ o₂) }
  | sendDex {now gw o} : .sendDex g gw o ∈ v.calls →
      PairStep c g v (.dispatch (.sendDex g gw o) now)
        { v.send g false gw o with calls := .startMonitor g :: v.calls.erase (.sendDex g gw o) }
  | startMonitor {now} : .startMonitor g ∈ v.calls →
      PairStep c g v (.dispatch (.startMonitor g) now)
        { v with workers := .riskWindow g :: v.workers, calls := v.calls.erase (.startMonitor g) }
  | deadlineIdle {r now} : .deadline g ∈ v.workers →
      (∀ p, v.pair = some p → p.status = .ASSEMBLING → p.bothLegsPresent = true) →
      PairStep c g v (.worker (.deadline g) r now) { v with workers := v.workers.erase (.deadline g) }
  | deadline {r now p} : .deadline g ∈ v.workers → v.pair = some p → p.status = .ASSEMBLING →
      p.bothLegsPresent = false →
      PairStep c g v (.worker (.deadline g) r now)
        { v with pair := some (p.expired c.incompleteReason), workers := v.workers.erase (.deadline g) }
  | sendResultIdle {b r now} : .sendResult g b ∈ v.workers →
      (∀ p, v.pair = some p → p.hasLeg b = false) →
      PairStep c g v (.worker (.sendResult g b) r now) { v with workers := v.workers.erase (.sendResult g b) }
  | sendSucceeded {b r now p} : .sendResult g b ∈ v.workers → v.pair = some p → p.hasLeg b = true →
      r.success = true →
      PairStep c g v (.worker (.sendResult g b) r now)
        { v with pair := some (p.acknowledged b r), workers := v.workers.erase (.sendResult g b) }
  | sendFailed {b r now p} : .sendResult g b ∈ v.workers → v.pair = some p → p.hasLeg b = true →
      r.success = false →
      PairStep c g v (.worker (.sendResult g b) r now)
        ({ v with workers := v.workers.erase (.sendResult g b) }.reject c g (p.identified b r) b now)
  | riskIdle {r now} : .riskWindow g ∈ v.workers →
      (∀ p, v.pair = some p → p.status ≠ .CEX_FILLED ∧ p.status ≠ .DEX_FILLED) →
      PairStep c g v (.worker (.riskWindow g) r now) { v with workers := v.workers.erase (.riskWindow g) }
  | riskCex {r now p} : .riskWindow g ∈ v.workers → v.pair = some p → p.status = .CEX_FILLED →
      PairStep c g v (.worker (.riskWindow g) r now)
        { { v with workers := v.workers.erase (.riskWindow g) }.unwind c g p now with
          pair := some p.riskUnwound }
  | riskDex {r now p} : .riskWindow g ∈ v.workers → v.pair = some p → p.status = .DEX_FILLED →
      PairStep c g v (.worker (.riskWindow g) r now)
        { v with pair := some p.riskFailed, workers := v.workers.erase (.riskWindow g) }
  | unwindSend {gw o r now} : .unwindSend g gw o ∈ v.workers →
      PairStep c g v (.worker (.unwindSend g gw o) r now)
        { v with
          log := .sendOrder g .unwind gw o :: v.log
          workers := .unwindResult g :: v.workers.erase (.unwindSend g gw o) }
  | unwindResultIdle {r now} : .unwindResult g ∈ v.workers → v.pair = none →
      PairStep c g v (.worker (.unwindResult g) r now) { v with workers := v.workers.erase (.unwindResult g) }
  | unwindResult {r now p} : .unwindResult g ∈ v.workers → v.pair = some p →
      PairStep c g v (.worker (.unwindResult g) r now)
        { v with
          pair := some { p with status := if r.success then .COMPLETED else .FAILED }
          workers := v.workers.erase (.unwindResult g) }
  | legRejected {x price qty now p b} : c.findLeg x = some (g, p, b) → v.pair = some p →
      PairStep c g v (.onFill x price qty true now) (v.reject c g p b now)
  | firstFill {x price qty now p b} : c.findLeg x = some (g, p, b) → v.pair = some p →
      p.status = .DISPATCHED →
      PairStep c g v (.onFill x price qty false now)
        { v with pair := some { fillLeg p b price qty now with status := ArbPair.oneSided b } }
  | secondFill {x price qty now p b} : c.findLeg x = some (g, p, b) → v.pair = some p →
      p.status = ArbPair.oneSided (!b) →
      PairStep c g v (.onFill x price qty false now)
        { v with
          pair := some { fillLeg p b price qty now with status := .ALL_FILLED }.finalized
          log := [.bookFill g (fillLeg p b price qty now).dexLeg.signal
              (fillLeg p b price qty now).dexLeg.avgFillPrice
              (fillLeg p b price qty now).dexLeg.filledQuantity,
            .bookFill g (fillLeg p b price qty now).cexLeg.signal
              (fillLeg p b price qty now).cexLeg.avgFillPrice
              (fillLeg p b price qty now).cexLeg.filledQuantity] ++ v.log }
  | lateFill {x price qty now p b} : c.findLeg x = some (g, p, b) → v.pair = some p →
      p.status ≠ .DISPATCHED → p.status ≠ ArbPair.oneSided (!b) →
      PairStep c g v (.onFill x price qty false now)
        { v with pair := some (fillLeg p b price qty now) }

/-! ## Views after the primitive updates -/

namespace ArbCoordinator

section
variable {c : ArbCoordinator} {g g₀ : CStr 15}

theorem view_setPair_self (p : ArbPair) : (c.setPair g p).view g = { c.view g with pair := some p } := by
  simp [view, setPair]

theorem view_setPair_ne (h : g₀ ≠ g) (p : ArbPair) : (c.setPair g₀ p).view g = c.view g := by
  simp [view, setPair, AList.lookup_insert_ne h.symm]

@[simp] theorem view_release (s : Signal) : (c.release s).view g = c.view g := rfl

theorem view_spawn_self {w : Worker} (h : w.groupId = g) :
    (c.spawn w).view g = { c.view g with workers := w :: (c.view g).workers } := by
  simp [view, spawn, h]

theorem view_spawn_ne {w : Worker} (h : w.groupId ≠ g) : (c.spawn w).view g = c.view g := by
  simp [view, spawn, h]

theorem view_record_self {x : ArbEffect} (h : x.groupId = g) :
    (c.record x).view g = { c.view g with log := x :: (c.view g).log } := by
  simp [view, record, h]

theorem view_record_ne {x : ArbEffect} (h : x.groupId ≠ g) : (c.record x).view g = c.view g := by
  simp [view, record, h]

@[simp] theorem view_setPortfolio (π : PortfolioGuard) : (c.setPortfolio π).view g = c.view g := rfl

@[simp] theorem view_setUuid (u : UuidGenerator) : (c.setUuid u).view g = c.view g := rfl

theorem view_join_self (w : Worker) :
    (c.join w).view g = { c.view g with workers := (c.view g).workers.erase w } := by
  simp only [view, join, List.erase_filter]

theorem view_join_ne {w : Worker} (h : w.groupId ≠ g) : (c.join w).view g = c.view g := by
  simp only [view, join, ← List.erase_filter]
  rw [List.erase_of_not_mem]
  simp [List.mem_filter, h]

theorem view_dropCall_self (d : DispatchCall) :
    (c.dropCall d).view g = { c.view g with calls := (c.view g).calls.erase d } := by
  simp only [view, dropCall, List.erase_filter]

theorem view_dropCall_ne {d : DispatchCall} (h : d.groupId ≠ g) : (c.dropCall d).view g = c.view g := by
  simp only [view, dropCall, ← List.erase_filter]
  rw [List.erase_of_not_mem]
  simp [List.mem_filter, h]

theorem view_pushCalls_self {l : List DispatchCall} (h : ∀ d ∈ l, d.groupId = g) :
    (c.pushCalls l).view g = { c.view g with calls := l ++ (c.view g).calls } := by
  have : l.filter (fun d => d.groupId = g) = l := List.filter_eq_self.mpr fun d hd => by simp [h d hd]
  simp only [view, pushCalls, List.filter_append, this]

theorem view_pushCalls_ne {ds : List DispatchCall} (h : ∀ d ∈ ds, d.groupId ≠ g) :
    (c.pushCalls ds).view g = c.view g := by
  have : ds.filter (fun d => d.groupId = g) = [] := List.filter_eq_nil_iff.mpr fun d hd => by simp [h d hd]
  simp only [view, pushCalls, List.filter_append, this, List.nil_append]

@[simp] theorem pairs_setUuid (u : UuidGenerator) : (c.setUuid u).pairs = c.pairs := rfl

@[simp] theorem pairs_join (w : Worker) : (c.join w).pairs = c.pairs := rfl

@[simp] theorem pairs_dropCall (d : DispatchCall) : (c.dropCall d).pairs = c.pairs := rfl

@[simp] theorem pushCalls_nil : c.pushCalls [] = c := rfl

theorem view_bookFill_self (o : Order) : (c.bookFill g o).view g =
    { c.view g with log := .bookFill g o.signal o.avgFillPrice o.filledQuantity :: (c.view g).log } :=
  view_record_self (by rfl)

theorem view_bookFill_ne (h : g₀ ≠ g) (o : Order) : (c.bookFill g₀ o).view g = c.view g :=
  view_record_ne (by exact h)

/-! ## Views after the handlers -/

theorem view_startUnwind_self {p : ArbPair} (hp : p.groupId = g) (now : Int) :
    (c.startUnwind p now).view g = (c.view g).unwind c g p now := by
  subst hp
  simp only [startUnwind, View.unwind]
  by_cases hgw : c.hasGateway p.cexLeg.signal.exchange = true
  · simp only [hgw, ite_true]
    rw [view_spawn_self (by rfl), view_record_self (by rfl)]; rfl
  · simp only [hgw, Bool.false_eq_true, ite_false]
    rw [view_record_self (by rfl)]; rfl

theorem view_startUnwind_ne {p : ArbPair} (hp : p.groupId ≠ g) (now : Int) :
    (c.startUnwind p now).view g = c.view g := by
  simp only [startUnwind]
  split
  · rw [view_spawn_ne (by exact hp), view_record_ne (by exact hp)]; rfl
  · rw [view_record_ne (by exact hp)]; rfl

theorem handleLegReject_snd (c : ArbCoordinator) (p : ArbPair) (b : Bool) (now : Int) :
    (c.handleLegReject p b now).2 = p.rejected b := by
  cases b with
  | true =>
    simp only [handleLegReject, ArbPair.rejected, ite_true, ite_self]
    split <;> rfl
  | false =>
    simp only [handleLegReject, ArbPair.rejected, ArbPair.RejectUnwinds, Bool.false_eq_true, ite_false,
      true_and]
    by_cases h₁ : p.hasCexLeg = true <;> by_cases h₂ : p.cexLeg.status = .FILLED <;> simp [h₁, h₂]

theorem view_handleLegReject_self {p : ArbPair} (hp : p.groupId = g) (b : Bool) (now : Int) :
    ((c.handleLegReject p b now).1.setPair g (c.handleLegReject p b now).2).view g =
      (c.view g).reject c g p b now := by
  rw [view_setPair_self, handleLegReject_snd]
  unfold View.reject
  cases b with
  | true =>
    simp only [handleLegReject, ArbPair.RejectUnwinds, ite_true, ite_self]
    split <;> simp
  | false =>
    simp only [handleLegReject, ArbPair.RejectUnwinds, Bool.false_eq_true, ite_false, true_and]
    split
    · next h =>
      rw [view_release, view_startUnwind_self (by exact hp)]
      rfl
    · split <;> rfl

theorem view_handleLegReject_ne (h : g₀ ≠ g) {p : ArbPair} (hp : p.groupId = g₀) (b : Bool) (now : Int) :
    ((c.handleLegReject p b now).1.setPair g₀ (c.handleLegReject p b now).2).view g = c.view g := by
  rw [view_setPair_ne h]
  cases b with
  | true =>
    simp only [handleLegReject, ite_true, ite_self]
    split <;> simp
  | false =>
    simp only [handleLegReject, Bool.false_eq_true, ite_false]
    split
    · rw [view_release, view_startUnwind_ne (by rw [show _ = p.groupId from rfl, hp]; exact h)]
    · split <;> rfl

@[simp] theorem view_releaseLeg (p : ArbPair) (b : Bool) : (c.releaseLeg p b).view g = c.view g := by
  unfold releaseLeg; split <;> rfl

theorem deadline_idle (h : ∀ p, c.pairs.lookup g = some p → p.status = .ASSEMBLING →
    p.bothLegsPresent = true) : c.deadline g = c := by
  unfold deadline
  split
  · rfl
  · next p hp =>
    rw [if_neg]
    rintro ⟨hs, hb⟩
    rw [h p hp hs] at hb; cases hb

theorem deadline_incomplete {p : ArbPair} (hp : c.pairs.lookup g = some p) (hs : p.status = .ASSEMBLING)
    (hb : p.bothLegsPresent = false) :
    c.deadline g = ((c.releaseLeg p true).releaseLeg p false).setPair g (p.expired c.incompleteReason) := by
  unfold deadline
  simp only [hp, hs, hb]
  cases h₁ : p.hasCexLeg <;> cases h₂ : p.hasDexLeg <;>
    simp [h₁, h₂, releaseLeg, ArbPair.expired, ArbPair.rejectOrder]

theorem dispatchEnter_idle {now : Int} (h : ∀ p, c.pairs.lookup g = some p → p.status ≠ .ASSEMBLING) :
    c.dispatchEnter g now = (c, none) := by
  unfold dispatchEnter
  split
  · rfl
  · next p hp => rw [if_pos (h p hp)]

theorem dispatchEnter_approved {now : Int} {p : ArbPair} (hp : c.pairs.lookup g = some p)
    (hs : p.status = .ASSEMBLING) (ha : c.Approved p) : c.dispatchEnter g now =
      (((c.setPortfolio (c.portfolio.checkAndReservePair p.cexLeg.signal p.dexLeg.signal).1).setPair g
          (p.dispatchedAt now)).record (.dispatched g),
        some (.lookup g (p.dispatchedAt now).cexLeg (p.dispatchedAt now).dexLeg)) := by
  unfold Approved at ha
  simp only [dispatchEnter, hp, hs, ha]
  rfl

theorem dispatchEnter_refused {now : Int} {p : ArbPair} (hp : c.pairs.lookup g = some p)
    (hs : p.status = .ASSEMBLING) (ha : ¬ c.Approved p) : c.dispatchEnter g now =
      ((c.setPortfolio (c.portfolio.checkAndReservePair p.cexLeg.signal p.dexLeg.signal).1).setPair g
          (p.refused (c.refusal p)), none) := by
  unfold Approved at ha
  simp only [dispatchEnter, hp, hs, ha]
  rfl

theorem addLeg_fst (c : ArbCoordinator) (s : Signal) (now : Int) : (c.addLeg s now).1 =
    if (c.addedPair s now).bothLegsPresent then
      ((c.addingTo s.groupId).setPair s.groupId (c.addedPair s now)).pushCalls [.enter s.groupId]
    else (c.addingTo s.groupId).setPair s.groupId (c.addedPair s now) := by
  rcases Option.eq_none_or_eq_some (c.pairs.lookup s.groupId) with hl | ⟨q, hl⟩ <;>
    cases he : getExchangeType s.exchange <;>
    simp only [addLeg, pairs_setUuid, addingTo, addedPair, hl, ArbPair.withLeg, newOrder, he] <;> rfl

theorem mem_pairs_of_findLeg {x : Bytes} {p : ArbPair} {b : Bool} (h : c.findLeg x = some (g, p, b)) :
    c.pairs.lookup g = some p ∧ p.matchLeg x = some b := by
  obtain ⟨⟨g', p'⟩, hm, he⟩ := List.exists_of_findSome?_eq_some h
  obtain ⟨b', hb, he⟩ := Option.map_eq_some_iff.mp he
  cases he
  exact ⟨AList.mem_lookup_iff.mpr hm, hb⟩

theorem hasLeg_of_matchLeg {x : Bytes} {p : ArbPair} {b : Bool} (h : p.matchLeg x = some b) :
    p.hasLeg b = true := by
  unfold ArbPair.matchLeg at h
  split at h
  · next hc => cases h; exact hc.1
  · split at h
    · next hd => cases h; exact hd.1
    · cases h

/-- The group id in a pair is its key in the map. -/
def Keyed (c : ArbCoordinator) : Prop := ∀ g p, c.pairs.lookup g = some p → p.groupId = g

theorem mem_workers_view {w : Worker} (hw : w ∈ c.workers) (hg : w.groupId = g) :
    w ∈ (c.view g).workers := List.mem_filter.mpr ⟨hw, by simpa using hg⟩

theorem mem_calls_view {d : DispatchCall} (hd : d ∈ c.calls) (hg : d.groupId = g) :
    d ∈ (c.view g).calls := List.mem_filter.mpr ⟨hd, by simpa using hg⟩

/-! ### The handlers on another pair -/

theorem view_addLeg_ne {s : Signal} (h : s.groupId ≠ g) (now : Int) :
    (c.addLeg s now).1.view g = c.view g := by
  have hw : (c.addingTo s.groupId).view g = c.view g := by
    unfold addingTo
    split
    · exact view_spawn_ne (by exact h)
    · rfl
  rw [addLeg_fst]
  split
  · rw [view_pushCalls_ne (by simpa [DispatchCall.groupId] using h), view_setPair_ne h, hw]
  · rw [view_setPair_ne h, hw]

theorem view_advance_ne {d : DispatchCall} (h : d.groupId ≠ g) (now : Int) :
    (c.advance now d).1.view g = c.view g := by
  have hsend : ∀ (b : Bool) (gw : Option Exchange) (o : Order),
      (c.sendLeg d.groupId b gw o).view g = c.view g := by
    intro b gw o
    cases gw with
    | none => rfl
    | some gw => exact (view_spawn_ne (by exact h)).trans (view_record_ne (by exact h))
  cases d with
  | enter g₀ =>
    simp only [advance, dispatchEnter]
    split
    · rfl
    · split
      · rfl
      · split
        · exact (view_setPair_ne h _).trans rfl
        · exact (view_record_ne (by exact h)).trans ((view_setPair_ne h _).trans rfl)
  | lookup g₀ o₁ o₂ => simp only [advance]; split <;> rfl
  | sendCex g₀ gw₁ gw₂ o₁ o₂ => exact hsend true gw₁ o₁
  | sendDex g₀ gw o => exact hsend false gw o
  | startMonitor g₀ => exact view_spawn_ne (by exact h)

theorem groupId_advance {now : Int} {d d' : DispatchCall} (h : (c.advance now d).2 = some d') :
    d'.groupId = d.groupId := by
  cases d with
  | enter g₀ =>
    simp only [advance, dispatchEnter] at h
    split at h
    · cases h
    · split at h
      · cases h
      · split at h <;> cases h
        rfl
  | lookup g₀ o₁ o₂ => simp only [advance] at h; split at h <;> cases h; rfl
  | sendCex g₀ gw₁ gw₂ o₁ o₂ => cases h; rfl
  | sendDex g₀ gw o => cases h; rfl
  | startMonitor g₀ => cases h

theorem groupId_setLeg (p : ArbPair) (b : Bool) (o : Order) : (p.setLeg b o).groupId = p.groupId := by
  cases b <;> rfl

theorem view_runWorker_ne (hk : c.Keyed) {w : Worker} (h : w.groupId ≠ g) (r : OrderResult) (now : Int) :
    (c.runWorker r now w).view g = c.view g := by
  cases w with
  | deadline g₀ =>
    change g₀ ≠ g at h
    rw [runWorker]
    by_cases hi : ∀ p, c.pairs.lookup g₀ = some p → p.status = .ASSEMBLING → p.bothLegsPresent = true
    · rw [deadline_idle hi]
    · simp only [not_forall, Bool.not_eq_true] at hi
      obtain ⟨p, hp, hs, hb⟩ := hi
      rw [deadline_incomplete hp hs hb, view_setPair_ne h, view_releaseLeg, view_releaseLeg]
  | sendResult g₀ b =>
    simp only [runWorker, sendResult]
    split
    · rfl
    · next p hp =>
      split
      · split
        · exact view_setPair_ne h _
        · exact view_handleLegReject_ne h (by rw [groupId_setLeg]; exact hk g₀ p hp) _ _
      · rfl
  | riskWindow g₀ =>
    change g₀ ≠ g at h
    simp only [runWorker, riskWindow]
    split
    · rfl
    · next p hp =>
      have hp' : p.groupId ≠ g := by rw [hk g₀ p hp]; exact h
      split
      · rw [view_setPair_ne h, view_startUnwind_ne (by exact hp'), view_release]
      · split
        · rw [view_setPair_ne h]; rfl
        · rfl
  | unwindSend g₀ gw o => exact (view_spawn_ne (by exact h)).trans (view_record_ne (by exact h))
  | unwindResult g₀ =>
    simp only [runWorker, unwindResult]
    split
    · rfl
    · exact view_setPair_ne h _

theorem view_onFill_ne (hk : c.Keyed) {x : Bytes} (h : (c.findLeg x).map (·.1) ≠ some g) (price qty : ℚ)
    (b : Bool) (now : Int) : (c.onFill x price qty b now).view g = c.view g := by
  unfold onFill
  split
  · rfl
  · next g₀ p isCex hf =>
    have hg : g₀ ≠ g := fun e => h (by rw [hf, ← e]; rfl)
    split
    · exact view_handleLegReject_ne hg (hk g₀ p (mem_pairs_of_findLeg hf).1) _ _
    · simp only
      split
      · exact view_setPair_ne hg _
      · split
        · rw [view_setPair_ne hg]
          exact (view_bookFill_ne hg _).trans (view_bookFill_ne hg _)
        · exact view_setPair_ne hg _

theorem view_step_ne (hk : c.Keyed) {e : ArbEvent} {c' : ArbCoordinator} (h : c.step e = some c')
    (ht : c.touched e ≠ some g) : c'.view g = c.view g := by
  cases e with
  | addLeg s now =>
    cases h
    exact view_addLeg_ne (fun he => ht (congrArg some he)) now
  | dispatch d now =>
    simp only [step] at h
    split at h <;> cases h
    have hd : d.groupId ≠ g := fun he => ht (congrArg some he)
    rw [view_pushCalls_ne, view_advance_ne hd, view_dropCall_ne hd]
    intro d' hd'
    rw [groupId_advance (Option.mem_toList.mp hd')]
    exact hd
  | worker w r now =>
    simp only [step] at h
    split at h <;> cases h
    have hw : w.groupId ≠ g := fun he => ht (congrArg some he)
    rw [view_runWorker_ne (by exact hk) hw, view_join_ne hw]
  | onFill x price qty b now =>
    cases h
    exact view_onFill_ne hk ht price qty b now
  | portfolio op => cases h; rfl
  | drawOrderId => cases h; rfl

/-! ### The handlers on their own pair -/

theorem view_addLeg_self {s : Signal} (hs : s.groupId = g) (now : Int) :
    PairStep c g (c.view g) (.addLeg s now) ((c.addLeg s now).1.view g) := by
  subst hs
  refine Eq.subst (motive := PairStep _ _ _ _) ?_ (.addLeg (p := c.addedPair s now) rfl rfl)
  have hw : (c.addingTo s.groupId).view s.groupId =
      { c.view s.groupId with
        workers := if (c.view s.groupId).pair.isNone then .deadline s.groupId :: (c.view s.groupId).workers
          else (c.view s.groupId).workers } := by
    unfold addingTo
    split
    · next h =>
      rw [view_spawn_self (by rfl), view_setUuid, if_pos (by exact h)]
    · next h => rw [if_neg (by exact h), view_setUuid]
  rw [addLeg_fst]
  by_cases hb : (c.addedPair s now).bothLegsPresent = true
  · simp only [if_pos hb]
    rw [view_pushCalls_self (l := [.enter s.groupId]) (by simp [DispatchCall.groupId]), view_setPair_self, hw]
    rfl
  · simp only [if_neg hb]
    rw [view_setPair_self, hw]

theorem view_sendLeg_self (b : Bool) (gw : Option Exchange) (o : Order) :
    (c.sendLeg g b gw o).view g = (c.view g).send g b gw o := by
  cases gw with
  | none => rfl
  | some gw => exact (view_spawn_self (by rfl)).trans (by rw [view_record_self (by rfl)]; rfl)

theorem view_dispatch_self {d : DispatchCall} (hd : d.groupId = g) (hm : d ∈ c.calls) (now : Int) :
    PairStep c g (c.view g) (.dispatch d now)
      ((((c.dropCall d).advance now d).1.pushCalls ((c.dropCall d).advance now d).2.toList).view g) := by
  have hm' := mem_calls_view hm hd
  cases d with
  | enter g₀ =>
    have hg : g₀ = g := hd
    subst hg
    rw [advance]
    by_cases hi : ∀ p, c.pairs.lookup g₀ = some p → p.status ≠ .ASSEMBLING
    · rw [dispatchEnter_idle (by exact hi), Option.toList_none, pushCalls_nil, view_dropCall_self]
      exact .enterReturns hm' hi
    · simp only [not_forall, ne_eq, not_not] at hi
      obtain ⟨p, hp, hs⟩ := hi
      by_cases ha : c.Approved p
      · rw [dispatchEnter_approved (by exact hp) hs (by exact ha)]
        simp only [Option.toList_some]
        rw [view_pushCalls_self (by simp [DispatchCall.groupId]), view_record_self (by rfl),
          view_setPair_self, view_setPortfolio, view_dropCall_self]
        exact .enterDispatches hm' hp hs ha
      · rw [dispatchEnter_refused (by exact hp) hs (by exact ha), Option.toList_none, pushCalls_nil, view_setPair_self,
          view_setPortfolio, view_dropCall_self]
        exact .enterRefused hm' hp hs ha
  | lookup g₀ o₁ o₂ =>
    have hg : g₀ = g := hd
    subst hg
    rcases Option.eq_none_or_eq_some (c.pairs.lookup g₀) with hp | ⟨p, hp⟩
    · simp only [advance, pairs_dropCall, hp, Option.toList_none, pushCalls_nil, view_dropCall_self]
      exact .lookupFails hm' hp
    · simp only [advance, pairs_dropCall, hp, Option.toList_some]
      rw [view_pushCalls_self (by simp [DispatchCall.groupId]), view_dropCall_self]
      exact .lookup hm' hp
  | sendCex g₀ gw₁ gw₂ o₁ o₂ =>
    have hg : g₀ = g := hd
    subst hg
    simp only [advance, Option.toList_some]
    rw [view_pushCalls_self (by simp [DispatchCall.groupId]), view_sendLeg_self, view_dropCall_self]
    cases gw₁ <;> exact .sendCex hm'
  | sendDex g₀ gw o =>
    have hg : g₀ = g := hd
    subst hg
    simp only [advance, Option.toList_some]
    rw [view_pushCalls_self (by simp [DispatchCall.groupId]), view_sendLeg_self, view_dropCall_self]
    cases gw <;> exact .sendDex hm'
  | startMonitor g₀ =>
    have hg : g₀ = g := hd
    subst hg
    simp only [advance, Option.toList_none, pushCalls_nil]
    rw [view_spawn_self (by rfl), view_dropCall_self]
    exact .startMonitor hm'

theorem view_worker_self (hk : c.Keyed) {w : Worker} (hw : w.groupId = g) (hm : w ∈ c.workers)
    (r : OrderResult) (now : Int) :
    PairStep c g (c.view g) (.worker w r now)
      (((c.join w).runWorker r now w).view g) := by
  have hm' := mem_workers_view hm hw
  have hv := view_join_self (c := c) (g := g) w
  cases w with
  | deadline g₀ =>
    have hg : g₀ = g := hw
    subst hg
    rw [runWorker]
    by_cases hi : ∀ p, c.pairs.lookup g₀ = some p → p.status = .ASSEMBLING → p.bothLegsPresent = true
    · rw [deadline_idle (by exact hi), hv]
      exact .deadlineIdle hm' hi
    · simp only [not_forall, Bool.not_eq_true] at hi
      obtain ⟨p, hp, hs, hb⟩ := hi
      rw [deadline_incomplete (by exact hp) hs hb, view_setPair_self, view_releaseLeg, view_releaseLeg, hv]
      exact .deadline hm' hp hs hb
  | sendResult g₀ b =>
    have hg : g₀ = g := hw
    subst hg
    simp only [runWorker, sendResult, pairs_join]
    cases hp : c.pairs.lookup g₀ with
    | none =>
      simp only [hv]
      exact .sendResultIdle hm' fun p h => by rw [show (c.view g₀).pair = none from hp] at h; cases h
    | some p =>
      have hpv : (c.view g₀).pair = some p := hp
      by_cases hb : p.hasLeg b = true
      · simp only [hb, ite_true]
        by_cases hr : r.success = true
        · simp only [hr, ite_true]
          rw [view_setPair_self, hv]
          exact .sendSucceeded hm' hpv hb hr
        · simp only [hr, Bool.false_eq_true, ite_false]
          rw [view_handleLegReject_self (by rw [groupId_setLeg]; exact hk g₀ p hp), hv]
          exact .sendFailed hm' hpv hb (Bool.not_eq_true _ ▸ hr)
      · simp only [hb, Bool.false_eq_true, ite_false, hv]
        refine .sendResultIdle hm' fun q h => ?_
        rw [hpv, Option.some.injEq] at h
        exact h ▸ (Bool.not_eq_true _ ▸ hb)
  | riskWindow g₀ =>
    have hg : g₀ = g := hw
    subst hg
    simp only [runWorker, riskWindow, pairs_join]
    cases hp : c.pairs.lookup g₀ with
    | none =>
      simp only [hv]
      exact .riskIdle hm' fun p h => by rw [show (c.view g₀).pair = none from hp] at h; cases h
    | some p =>
      have hpv : (c.view g₀).pair = some p := hp
      by_cases h₁ : p.status = .CEX_FILLED
      · simp only [h₁, ite_true]
        rw [view_setPair_self, view_startUnwind_self (by exact hk g₀ p hp), view_release, hv]
        exact .riskCex hm' hpv h₁
      · by_cases h₂ : p.status = .DEX_FILLED
        · simp only [h₂, reduceCtorEq, ite_false, ite_true]
          rw [view_setPair_self, view_release, view_release, hv]
          exact .riskDex hm' hpv h₂
        · simp only [h₁, h₂, ite_false, hv]
          refine .riskIdle hm' fun q h => ?_
          rw [hpv, Option.some.injEq] at h
          exact h ▸ ⟨h₁, h₂⟩
  | unwindSend g₀ gw o =>
    have hg : g₀ = g := hw
    subst hg
    rw [runWorker, view_spawn_self (by rfl), view_record_self (by rfl), hv]
    exact .unwindSend hm'
  | unwindResult g₀ =>
    have hg : g₀ = g := hw
    subst hg
    simp only [runWorker, unwindResult, pairs_join]
    cases hp : c.pairs.lookup g₀ with
    | none =>
      simp only [hv]
      exact .unwindResultIdle hm' hp
    | some p =>
      simp only [view_release]
      rw [view_setPair_self, hv]
      exact .unwindResult hm' hp

theorem view_onFill_self (hk : c.Keyed) {x : Bytes} (h : (c.findLeg x).map (·.1) = some g) (price qty : ℚ)
    (b : Bool) (now : Int) :
    PairStep c g (c.view g) (.onFill x price qty b now) ((c.onFill x price qty b now).view g) := by
  obtain ⟨⟨g', p, isCex⟩, hf, rfl⟩ := Option.map_eq_some_iff.mp h
  have hpv : (c.view g').pair = some p := (mem_pairs_of_findLeg hf).1
  simp only [onFill, hf]
  cases b with
  | true =>
    simp only [ite_true]
    rw [view_handleLegReject_self (hk g' p (mem_pairs_of_findLeg hf).1)]
    exact .legRejected hf hpv
  | false =>
    have hst : (fillLeg p isCex price qty now).status = p.status := by cases isCex <;> rfl
    simp only [Bool.false_eq_true, ite_false, hst]
    by_cases h₁ : p.status = .DISPATCHED
    · simp only [h₁, ite_true, view_setPair_self]
      exact .firstFill hf hpv h₁
    · by_cases h₂ : p.status = ArbPair.oneSided (!isCex)
      · have h₃ : ArbPair.oneSided (!isCex) ≠ .DISPATCHED := h₂ ▸ h₁
        simp only [h₂, h₃, ite_false, ite_true]
        rw [view_setPair_self]
        refine Eq.subst (motive := PairStep _ _ _ _) ?_ (.secondFill hf hpv h₂)
        simp only [finalizePair]
        rw [view_bookFill_self, view_bookFill_self]
        simp only [ArbPair.finalized]
        split <;> rfl
      · simp only [h₁, h₂, ite_false, view_setPair_self]
        exact .lateFill hf hpv h₁ h₂

/-- The inversion lemma. -/
theorem step_view (hk : c.Keyed) {e : ArbEvent} {c' : ArbCoordinator} (h : c.step e = some c')
    (g : CStr 15) : PairStep c g (c.view g) e (c'.view g) := by
  by_cases ht : c.touched e = some g
  · cases e with
    | addLeg s now => cases h; exact view_addLeg_self (Option.some.inj ht) now
    | dispatch d now =>
      simp only [step] at h
      split at h
      · next hm => cases h; exact view_dispatch_self (Option.some.inj ht) hm now
      · cases h
    | worker w r now =>
      simp only [step] at h
      split at h
      · next hm => cases h; exact view_worker_self hk (Option.some.inj ht) hm r now
      · cases h
    | onFill x price qty b now => cases h; exact view_onFill_self hk ht price qty b now
    | portfolio op => cases ht
    | drawOrderId => cases ht
  · rw [view_step_ne hk h ht]
    exact .other ht

/-! ## The gateways stay -/

/-- What a stretch of `dispatch_pair` leaves alone. -/
theorem advance_frame (c : ArbCoordinator) (now : Int) (d : DispatchCall) :
    (c.advance now d).1.hasGateway = c.hasGateway ∧ (c.advance now d).1.uuid = c.uuid ∧
      (c.advance now d).1.calls = c.calls := by
  cases d with
  | enter g₀ =>
    simp only [advance, dispatchEnter]
    split
    · exact ⟨rfl, rfl, rfl⟩
    · split
      · exact ⟨rfl, rfl, rfl⟩
      · split <;> exact ⟨rfl, rfl, rfl⟩
  | lookup g₀ o₁ o₂ => simp only [advance]; split <;> exact ⟨rfl, rfl, rfl⟩
  | sendCex g₀ gw₁ gw₂ o₁ o₂ => cases gw₁ <;> exact ⟨rfl, rfl, rfl⟩
  | sendDex g₀ gw o => cases gw <;> exact ⟨rfl, rfl, rfl⟩
  | startMonitor g₀ => exact ⟨rfl, rfl, rfl⟩

@[simp] theorem hasGateway_startUnwind (p : ArbPair) (now : Int) :
    (c.startUnwind p now).hasGateway = c.hasGateway := by
  simp only [startUnwind]
  split <;> rfl

theorem hasGateway_handleLegReject (p : ArbPair) (b : Bool) (now : Int) :
    (c.handleLegReject p b now).1.hasGateway = c.hasGateway := by
  cases b with
  | true =>
    simp only [handleLegReject, ite_true, ite_self]
    split <;> rfl
  | false =>
    simp only [handleLegReject, Bool.false_eq_true, ite_false]
    split
    · exact hasGateway_startUnwind ..
    · split <;> rfl

theorem hasGateway_step {e : ArbEvent} {c' : ArbCoordinator} (h : c.step e = some c') :
    c'.hasGateway = c.hasGateway := by
  cases e with
  | addLeg s now =>
    cases h
    rw [addLeg_fst]
    unfold addingTo
    split <;> split <;> rfl
  | dispatch d now =>
    simp only [step] at h
    split at h <;> cases h
    exact ((c.dropCall d).advance_frame now d).1
  | worker w r now =>
    simp only [step] at h
    split at h <;> cases h
    cases w with
    | deadline g₀ =>
      simp only [runWorker, deadline]
      split
      · rfl
      · split
        · split <;> split <;> rfl
        · rfl
    | sendResult g₀ b =>
      simp only [runWorker, sendResult]
      split
      · rfl
      · split
        · split
          · rfl
          · exact hasGateway_handleLegReject ..
        · rfl
    | riskWindow g₀ =>
      simp only [runWorker, riskWindow]
      split
      · rfl
      · split
        · exact hasGateway_startUnwind ..
        · split <;> rfl
    | unwindSend g₀ gw o => rfl
    | unwindResult g₀ => simp only [runWorker, unwindResult]; split <;> rfl
  | onFill x price qty isReject now =>
    cases h
    simp only [onFill]
    split
    · rfl
    · split
      · exact hasGateway_handleLegReject ..
      · split
        · rfl
        · split
          · simp only [finalizePair]; split <;> rfl
          · rfl
  | portfolio op => cases h; rfl
  | drawOrderId => cases h; rfl

/-! ## Handlers that keep the status -/

@[simp] theorem status_withLeg (p : ArbPair) (o : Order) : (p.withLeg o).status = p.status := by
  unfold ArbPair.withLeg; split <;> rfl

@[simp] theorem status_setLeg (p : ArbPair) (b : Bool) (o : Order) : (p.setLeg b o).status = p.status := by
  cases b <;> rfl

@[simp] theorem status_acknowledged (p : ArbPair) (b : Bool) (r : OrderResult) :
    (p.acknowledged b r).status = p.status := status_setLeg ..

@[simp] theorem status_fillLeg (p : ArbPair) (b : Bool) (price qty : ℚ) (now : Int) :
    (fillLeg p b price qty now).status = p.status := by
  cases b <;> rfl

/-! ## The map is keyed by group id -/

theorem keyed_init (config : ArbConfig) (portfolio : PortfolioGuard) (hasGateway : Exchange → Bool) :
    (init config portfolio hasGateway).Keyed := by
  intro g p h
  simp [init] at h

theorem groupId_withLeg (p : ArbPair) (o : Order) : (p.withLeg o).groupId = p.groupId := by
  unfold ArbPair.withLeg; split <;> rfl

theorem groupId_rejected (p : ArbPair) (b : Bool) : (p.rejected b).groupId = p.groupId := by
  cases b <;> rfl

theorem groupId_identified (p : ArbPair) (b : Bool) (r : OrderResult) :
    (p.identified b r).groupId = p.groupId := groupId_setLeg ..

theorem groupId_acknowledged (p : ArbPair) (b : Bool) (r : OrderResult) :
    (p.acknowledged b r).groupId = p.groupId := groupId_setLeg ..

theorem groupId_fillLeg (p : ArbPair) (b : Bool) (price qty : ℚ) (now : Int) :
    (fillLeg p b price qty now).groupId = p.groupId := by
  cases b <;> rfl

theorem pair_send (v : View) (b : Bool) (gw : Option Exchange) (o : Order) :
    (v.send g b gw o).pair = v.pair := by
  cases gw <;> rfl

theorem pair_reject (v : View) (p : ArbPair) (b : Bool) (now : Int) :
    (v.reject c g p b now).pair = some (p.rejected b) := rfl

theorem PairStep.groupId {v v' : View} {e : ArbEvent} (h : PairStep c g v e v')
    (hv : ∀ p, v.pair = some p → p.groupId = g) {p' : ArbPair} (hp' : v'.pair = some p') :
    p'.groupId = g := by
  cases h with
  | other _ => exact hv p' hp'
  | addLeg hs hp =>
    cases hp'
    rw [hp, groupId_withLeg]
    cases hv' : v.pair with
    | none => rfl
    | some q => exact hv q hv'
  | enterReturns _ _ => exact hv p' hp'
  | enterRefused _ h₁ _ _ => cases hp'; exact (hv _ h₁ :)
  | enterDispatches _ h₁ _ _ => cases hp'; exact (hv _ h₁ :)
  | lookupFails _ _ => exact hv p' hp'
  | lookup _ _ => exact hv p' hp'
  | sendCex _ => rw [pair_send] at hp'; exact hv p' hp'
  | sendDex _ => rw [pair_send] at hp'; exact hv p' hp'
  | startMonitor _ => exact hv p' hp'
  | deadlineIdle _ _ => exact hv p' hp'
  | deadline _ h₁ _ _ => cases hp'; exact (hv _ h₁ :)
  | sendResultIdle _ _ => exact hv p' hp'
  | sendSucceeded _ h₁ _ _ => cases hp'; rw [groupId_acknowledged]; exact (hv _ h₁ :)
  | sendFailed _ h₁ _ _ => cases hp'; rw [groupId_rejected, groupId_identified]; exact (hv _ h₁ :)
  | riskIdle _ _ => exact hv p' hp'
  | riskCex _ h₁ _ => cases hp'; exact (hv _ h₁ :)
  | riskDex _ h₁ _ => cases hp'; exact (hv _ h₁ :)
  | unwindSend _ => exact hv p' hp'
  | unwindResultIdle _ _ => exact hv p' hp'
  | unwindResult _ h₁ => cases hp'; exact (hv _ h₁ :)
  | legRejected _ h₁ => cases hp'; rw [groupId_rejected]; exact (hv _ h₁ :)
  | firstFill _ h₁ _ => cases hp'; exact (groupId_fillLeg ..).trans (hv _ h₁)
  | secondFill _ h₁ _ => cases hp'; exact (groupId_fillLeg ..).trans (hv _ h₁)
  | lateFill _ h₁ _ _ => cases hp'; exact (groupId_fillLeg ..).trans (hv _ h₁)

theorem Keyed.step (hk : c.Keyed) {e : ArbEvent} {c' : ArbCoordinator} (h : c.step e = some c') :
    c'.Keyed := fun g _ hp => PairStep.groupId (step_view hk h g) (hk g) hp

end

end ArbCoordinator

/-! ## The legs stay those that `add_leg` stored -/

/-- The legs have the same orders and signals, whatever became of them. -/
structure ArbPair.SameLegs (p p' : ArbPair) : Prop where
  hasLeg (b : Bool) : p'.hasLeg b = p.hasLeg b
  orderId (b : Bool) : (p'.leg b).orderId = (p.leg b).orderId
  signal (b : Bool) : (p'.leg b).signal = (p.leg b).signal

theorem ArbPair.SameLegs.refl (p : ArbPair) : p.SameLegs p := ⟨fun _ => rfl, fun _ => rfl, fun _ => rfl⟩

theorem ArbPair.SameLegs.trans {p q r : ArbPair} (h₁ : p.SameLegs q) (h₂ : q.SameLegs r) : p.SameLegs r where
  hasLeg b := (h₂.hasLeg b).trans (h₁.hasLeg b)
  orderId b := (h₂.orderId b).trans (h₁.orderId b)
  signal b := (h₂.signal b).trans (h₁.signal b)

theorem ArbPair.SameLegs.bothLegsPresent {p p' : ArbPair} (h : p.SameLegs p') :
    p'.bothLegsPresent = p.bothLegsPresent := by
  have hc := h.hasLeg true
  have hd := h.hasLeg false
  simp only [ArbPair.hasLeg_true, ArbPair.hasLeg_false] at hc hd
  simp only [ArbPair.bothLegsPresent, hc, hd]

theorem ArbPair.sameLegs_of_eq {p p' : ArbPair} (hc : p'.hasCexLeg = p.hasCexLeg)
    (hd : p'.hasDexLeg = p.hasDexLeg) (hci : p'.cexLeg.orderId = p.cexLeg.orderId)
    (hdi : p'.dexLeg.orderId = p.dexLeg.orderId) (hcs : p'.cexLeg.signal = p.cexLeg.signal)
    (hds : p'.dexLeg.signal = p.dexLeg.signal) : p.SameLegs p' := by
  refine ⟨fun b => ?_, fun b => ?_, fun b => ?_⟩
  · cases b with
    | true => exact hc
    | false => exact hd
  · cases b with
    | true => exact hci
    | false => exact hdi
  · cases b with
    | true => exact hcs
    | false => exact hds

theorem ArbPair.sameLegs_identified (p : ArbPair) (b : Bool) (r : OrderResult) :
    p.SameLegs (p.identified b r) := by
  cases b <;> exact sameLegs_of_eq rfl rfl rfl rfl rfl rfl

theorem ArbPair.sameLegs_acknowledged (p : ArbPair) (b : Bool) (r : OrderResult) :
    p.SameLegs (p.acknowledged b r) := by
  cases b with
  | true => exact sameLegs_of_eq rfl rfl rfl rfl rfl rfl
  | false =>
    simp only [acknowledged, Bool.false_eq_true, ite_false]
    split <;> exact sameLegs_of_eq rfl rfl rfl rfl rfl rfl

theorem ArbPair.sameLegs_rejected (p : ArbPair) (b : Bool) : p.SameLegs (p.rejected b) := by
  cases b with
  | true =>
    simp only [rejected, ite_true]
    split <;> exact sameLegs_of_eq rfl rfl rfl rfl rfl rfl
  | false =>
    simp only [rejected, Bool.false_eq_true, ite_false]
    by_cases h : p.hasCexLeg = true ∧ p.cexLeg.status ≠ .FILLED
    · simp only [if_pos h]; exact sameLegs_of_eq rfl rfl rfl rfl rfl rfl
    · simp only [if_neg h]; exact sameLegs_of_eq rfl rfl rfl rfl rfl rfl

theorem ArbPair.sameLegs_expired (p : ArbPair) (reason : CStr 63) : p.SameLegs (p.expired reason) := by
  unfold expired
  by_cases h₁ : p.hasCexLeg = true <;> by_cases h₂ : p.hasDexLeg = true <;> simp only [h₁, h₂] <;>
    exact sameLegs_of_eq (by simp [h₁]) (by simp [h₂]) rfl rfl rfl rfl

theorem ArbPair.sameLegs_fillLeg (p : ArbPair) (b : Bool) (price qty : ℚ) (now : Int) :
    p.SameLegs (fillLeg p b price qty now) := by
  cases b <;> exact sameLegs_of_eq rfl rfl rfl rfl rfl rfl

theorem ArbPair.sameLegs_self (o : Option ArbPair) : Option.Rel ArbPair.SameLegs o o := by
  cases o with
  | none => exact .none
  | some p => exact .some (.refl p)

theorem PairStep.legs {c : ArbCoordinator} {g : CStr 15} {v v' : View} {e : ArbEvent}
    (h : PairStep c g v e v') (hadd : ∀ s now, e = .addLeg s now → s.groupId ≠ g) :
    Option.Rel ArbPair.SameLegs v.pair v'.pair := by
  have moves : ∀ {p p'}, v.pair = some p → p.SameLegs p' → Option.Rel ArbPair.SameLegs v.pair (some p') :=
    fun hp hs => hp ▸ .some hs
  cases h with
  | other _ => exact ArbPair.sameLegs_self _
  | addLeg hs _ => exact absurd hs (hadd _ _ rfl)
  | enterReturns _ _ => exact ArbPair.sameLegs_self _
  | enterRefused _ h₁ _ _ => exact moves h₁ (ArbPair.sameLegs_of_eq rfl rfl rfl rfl rfl rfl)
  | enterDispatches _ h₁ _ _ => exact moves h₁ (ArbPair.sameLegs_of_eq rfl rfl rfl rfl rfl rfl)
  | lookupFails _ _ | lookup _ _ => exact ArbPair.sameLegs_self _
  | sendCex _ | sendDex _ => rw [pair_send]; exact ArbPair.sameLegs_self _
  | startMonitor _ | deadlineIdle _ _ => exact ArbPair.sameLegs_self _
  | deadline _ h₁ _ _ => exact moves h₁ (ArbPair.sameLegs_expired ..)
  | sendResultIdle _ _ => exact ArbPair.sameLegs_self _
  | sendSucceeded _ h₁ _ _ => exact moves h₁ (ArbPair.sameLegs_acknowledged ..)
  | sendFailed _ h₁ _ _ =>
    exact moves h₁ ((ArbPair.sameLegs_identified ..).trans (ArbPair.sameLegs_rejected ..))
  | riskIdle _ _ => exact ArbPair.sameLegs_self _
  | riskCex _ h₁ _ | riskDex _ h₁ _ => exact moves h₁ (ArbPair.sameLegs_of_eq rfl rfl rfl rfl rfl rfl)
  | unwindSend _ | unwindResultIdle _ _ => exact ArbPair.sameLegs_self _
  | unwindResult _ h₁ => exact moves h₁ (ArbPair.sameLegs_of_eq rfl rfl rfl rfl rfl rfl)
  | legRejected _ h₁ => exact moves h₁ (ArbPair.sameLegs_rejected ..)
  | firstFill _ h₁ _ =>
    exact moves h₁ ((ArbPair.sameLegs_fillLeg ..).trans (ArbPair.sameLegs_of_eq rfl rfl rfl rfl rfl rfl))
  | secondFill _ h₁ _ =>
    exact moves h₁ ((ArbPair.sameLegs_fillLeg ..).trans (ArbPair.sameLegs_of_eq rfl rfl rfl rfl rfl rfl))
  | lateFill _ h₁ _ _ => exact moves h₁ (ArbPair.sameLegs_fillLeg ..)

theorem PairStep.legs_before {c : ArbCoordinator} {g : CStr 15} {v v' : View} {e : ArbEvent}
    (h : PairStep c g v e v') (hadd : ∀ s now, e = .addLeg s now → s.groupId ≠ g) {p' : ArbPair}
    (hp' : v'.pair = some p') : ∃ p, v.pair = some p ∧ p.SameLegs p' := by
  have hr := h.legs hadd
  rw [hp'] at hr
  generalize v.pair = o at hr
  cases hr with
  | some hs => exact ⟨_, rfl, hs⟩

theorem PairStep.legs_after {c : ArbCoordinator} {g : CStr 15} {v v' : View} {e : ArbEvent}
    (h : PairStep c g v e v') (hadd : ∀ s now, e = .addLeg s now → s.groupId ≠ g) {p : ArbPair}
    (hp : v.pair = some p) : ∃ p', v'.pair = some p' ∧ p.SameLegs p' := by
  have hr := h.legs hadd
  rw [hp] at hr
  generalize v'.pair = o at hr
  cases hr with
  | some hs => exact ⟨_, rfl, hs⟩

/-- The leg a signal becomes: `true` for the CEX leg. -/
def Signal.isCexLeg (s : Signal) : Bool := getExchangeType s.exchange = .CEX

section
variable {c : ArbCoordinator} {g : CStr 15} {v v' : View} {e : ArbEvent}

theorem hasLeg_withLeg (p : ArbPair) (o : Order) : (p.withLeg o).hasLeg o.signal.isCexLeg = true := by
  unfold ArbPair.withLeg Signal.isCexLeg
  cases hx : getExchangeType o.signal.exchange <;> simp

theorem leg_withLeg (p : ArbPair) (o : Order) : (p.withLeg o).leg o.signal.isCexLeg = o := by
  unfold ArbPair.withLeg Signal.isCexLeg
  cases hx : getExchangeType o.signal.exchange <;> simp

theorem hasLeg_withLeg_ne (p : ArbPair) (o : Order) {b : Bool} (hb : b ≠ o.signal.isCexLeg) :
    (p.withLeg o).hasLeg b = p.hasLeg b := by
  unfold ArbPair.withLeg Signal.isCexLeg at *
  cases hx : getExchangeType o.signal.exchange <;> cases b <;> simp_all

theorem leg_withLeg_ne (p : ArbPair) (o : Order) {b : Bool} (hb : b ≠ o.signal.isCexLeg) :
    (p.withLeg o).leg b = p.leg b := by
  unfold ArbPair.withLeg Signal.isCexLeg at *
  cases hx : getExchangeType o.signal.exchange <;> cases b <;> simp_all

theorem addedPair_none {s : Signal} (h : c.pairs.lookup s.groupId = none) (now : Int) :
    c.addedPair s now = (c.newPair s.groupId now).withLeg (c.newOrder s now) := by
  rw [addedPair, h, Option.getD_none]

theorem addedPair_some {s : Signal} {p : ArbPair} (h : c.pairs.lookup s.groupId = some p) (now : Int) :
    c.addedPair s now = p.withLeg (c.newOrder s now) := by
  rw [addedPair, h, Option.getD_some]

theorem PairStep.leg_origin (h : PairStep c g v e v') {p' : ArbPair} {b : Bool} (hp' : v'.pair = some p')
    (hb : p'.hasLeg b = true) :
    (∃ p, v.pair = some p ∧ p.hasLeg b = true ∧ (p'.leg b).orderId = (p.leg b).orderId ∧
      (p'.leg b).signal = (p.leg b).signal) ∨
    ∃ s now, e = .addLeg s now ∧ s.groupId = g ∧ s.isCexLeg = b ∧
      (p'.leg b).orderId = storedOrderId c.uuid.orderCounter ∧ (p'.leg b).signal = s := by
  by_cases hadd : ∃ s now, e = .addLeg s now ∧ s.groupId = g
  · obtain ⟨s, now, rfl, hg⟩ := hadd
    cases h with
    | other ht => exact absurd (congrArg some hg) ht
    | @addLeg _ _ p _ hp =>
      cases hp'
      by_cases hbs : b = s.isCexLeg
      · have hl : p'.leg b = c.newOrder s now := by
          rw [hbs, hp]
          exact leg_withLeg _ (c.newOrder s now)
        exact .inr ⟨s, now, rfl, hg, hbs.symm, congrArg Order.orderId hl, congrArg Order.signal hl⟩
      · rw [hp, hasLeg_withLeg_ne _ (c.newOrder s now) hbs] at hb
        rw [hp, leg_withLeg_ne _ (c.newOrder s now) hbs]
        cases hv : v.pair with
        | none => rw [hv] at hb; cases b <;> cases hb
        | some q =>
          rw [hv, Option.getD_some] at hb
          exact .inl ⟨q, rfl, hb, rfl, rfl⟩
  · simp only [not_exists, not_and] at hadd
    obtain ⟨p, hp, hs⟩ := h.legs_before hadd hp'
    exact .inl ⟨p, hp, (hs.hasLeg b).symm.trans hb, hs.orderId b, hs.signal b⟩

end

/-! ## Rejects -/

namespace ArbCoordinator

/-- The event makes `handle_leg_reject` run for this leg of the pair `p` at
`g`: a reject message, or a failed send result. -/
def RejectOf (c : ArbCoordinator) (g : CStr 15) (p : ArbPair) (isCex : Bool) : ArbEvent → Prop
  | .worker (.sendResult g' b) r _ =>
    g' = g ∧ b = isCex ∧ r.success = false ∧ c.pairs.lookup g = some p ∧ p.hasLeg isCex = true
  | .onFill x _ _ isReject _ => isReject = true ∧ c.findLeg x = some (g, p, isCex)
  | _ => False

section
variable {c : ArbCoordinator} {g : CStr 15} {p : ArbPair} {e : ArbEvent}

theorem RejectOf.touched {b : Bool} (h : c.RejectOf g p b e) : c.touched e = some g := by
  cases e with
  | worker w r now =>
    cases w with
    | sendResult g' b' => exact congrArg some h.1
    | _ => exact h.elim
  | onFill x price qty isReject now => simp only [ArbCoordinator.touched, h.2, Option.map_some]
  | _ => exact h.elim

theorem status_rejected_cex (p : ArbPair) : (p.rejected true).status = .FAILED := rfl

theorem status_rejected_dex (p : ArbPair) :
    (p.rejected false).status = if p.RejectUnwinds false then .UNWINDING else .FAILED := rfl

@[simp] theorem rejectUnwinds_identified (p : ArbPair) (b b' : Bool) (r : OrderResult) :
    (p.identified b r).RejectUnwinds b' ↔ p.RejectUnwinds b' := by
  cases b <;> exact Iff.rfl

@[simp] theorem status_rejected_identified (p : ArbPair) (b b' : Bool) (r : OrderResult) :
    ((p.identified b r).rejected b').status = (p.rejected b').status := by
  cases b'
  · simp only [status_rejected_dex, rejectUnwinds_identified]
  · rfl

theorem status_rejected_of_not {b : Bool} (h : ¬ p.RejectUnwinds b) : (p.rejected b).status = .FAILED := by
  cases b with
  | true => rfl
  | false => rw [status_rejected_dex, if_neg h]

theorem RejectOf.lookup {b : Bool} (h : c.RejectOf g p b e) : c.pairs.lookup g = some p := by
  cases e with
  | worker w r now =>
    cases w with
    | sendResult g' b' => exact h.2.2.2.1
    | _ => exact h.elim
  | onFill x price qty isReject now => exact (mem_pairs_of_findLeg h.2).1
  | _ => exact h.elim

/-- A failed send result and a reject message both run `handle_leg_reject`. -/
theorem RejectOf.view {b : Bool} {c' : ArbCoordinator} (h : c.RejectOf g p b e) (hk : c.Keyed)
    (hs : c.step e = some c') :
    (∃ r now, e = .worker (.sendResult g b) r now ∧ r.success = false ∧ p.hasLeg b = true ∧ c'.view g =
      View.reject { c.view g with workers := (c.view g).workers.erase (.sendResult g b) } c g (p.identified b r)
        b now) ∨
    ∃ x price qty now, e = .onFill x price qty true now ∧ c.findLeg x = some (g, p, b) ∧
      c'.view g = (c.view g).reject c g p b now := by
  have hview := step_view hk hs g
  have ht := h.touched
  have hp : (c.view g).pair = some p := h.lookup
  generalize c'.view g = v' at hview ⊢
  cases e with
  | worker w r now =>
    cases w with
    | sendResult g' b' =>
      obtain ⟨rfl, rfl, hfail, -, hleg⟩ := h
      cases hview with
      | other hne => exact absurd ht hne
      | sendResultIdle _ hidle => rw [hidle p hp] at hleg; cases hleg
      | sendSucceeded _ _ _ hok => rw [hfail] at hok; cases hok
      | sendFailed _ hq _ _ =>
        obtain rfl := Option.some.inj (hp.symm.trans hq)
        exact .inl ⟨r, now, rfl, hfail, hleg, rfl⟩
    | _ => exact h.elim
  | onFill x price qty isReject now =>
    obtain ⟨rfl, hf⟩ := h
    cases hview with
    | other hne => exact absurd ht hne
    | legRejected hf' _ =>
      rw [hf] at hf'
      cases hf'
      exact .inr ⟨x, price, qty, now, rfl, hf, rfl⟩
  | _ => exact h.elim

end

end ArbCoordinator

/-! ## A sample pair -/

namespace Sample

def groupId : CStr 15 := .copy 15 (lit "ARB-1")

def cexSignal : Signal :=
  { signalId := storedSignalId 101, symbol := .copy 15 (lit "BTC"), side := .BUY, exchange := .BINANCE,
    quantity := 1, price := 100, groupId := groupId, hasGroupId := true }

def dexSignal : Signal :=
  { cexSignal with signalId := storedSignalId 102, side := .SELL, exchange := .HYPERLIQUID }

/-- The orders as `dispatch_pair` hands them to the gateways. -/
def cexOrder : Order :=
  { orderId := storedOrderId 1, signal := cexSignal, status := .SENT, createdAtNs := 1, sentAtNs := 2 }

def dexOrder : Order :=
  { orderId := storedOrderId 2, signal := dexSignal, status := .SENT, createdAtNs := 1, sentAtNs := 2 }

/-- The order that unwinds the CEX leg at the time `5`. -/
def unwindOrder : Order :=
  { orderId := storedOrderId 3, status := .SENT, sentAtNs := 5,
    signal := { cexSignal with signalId := storedSignalId 1, side := .SELL, price := 0 } }

def coordinator : ArbCoordinator := init {} (.init {}) fun _ => true

/-- Both legs arrive, the orders are sent and the monitor starts. -/
def dispatch : List ArbEvent :=
  [.addLeg cexSignal 1, .addLeg dexSignal 1, .dispatch (.enter groupId) 2,
   .dispatch (.lookup groupId cexOrder dexOrder) 2,
   .dispatch (.sendCex groupId (some .BINANCE) (some .HYPERLIQUID) cexOrder dexOrder) 2,
   .dispatch (.sendDex groupId (some .HYPERLIQUID) dexOrder) 2,
   .dispatch (.startMonitor groupId) 2]

def dispatched : ArbCoordinator := (Machine.run step coordinator dispatch).getD coordinator

def dispatchedPair : ArbPair := (dispatched.pairs.lookup groupId).getD {}

theorem dispatched_run : Machine.run step coordinator dispatch = some dispatched := by
  obtain ⟨c, hc⟩ := Option.isSome_iff_exists.mp
    (show (Machine.run step coordinator dispatch).isSome by decide +kernel)
  rw [dispatched, hc]; rfl

theorem dispatched_keyed : dispatched.Keyed :=
  Machine.inv_run (fun _ _ _ hk hs => hk.step hs) (keyed_init {} (.init {}) fun _ => true) dispatched_run

def cexAck : OrderResult :=
  { success := true, exchangeOrderId := .copy 31 (exIdOf cexOrder.orderId), status := .ACKNOWLEDGED }

def dexAck : OrderResult :=
  { success := true, exchangeOrderId := .copy 31 (hlIdOf dexOrder.orderId), status := .TX_PENDING }

/-- What the gateways answer to both sends. -/
def acknowledged : List ArbEvent :=
  [.worker (.sendResult groupId true) cexAck 3, .worker (.sendResult groupId false) dexAck 3]

def cexFill (now : Int) : ArbEvent := .onFill (exIdOf cexOrder.orderId) 100 1 false now

def dexFill (now : Int) : ArbEvent := .onFill (hlIdOf dexOrder.orderId) 100 1 false now

def dexReject (now : Int) : ArbEvent := .onFill (hlIdOf dexOrder.orderId) 0 0 true now

def riskUnwind : List ArbEvent :=
  [.worker (.riskWindow groupId) {} 5, .worker (.unwindSend groupId .BINANCE unwindOrder) {} 5,
   .worker (.unwindResult groupId) { success := true, status := .ACKNOWLEDGED } 6]

end Sample

end OrderExecution
