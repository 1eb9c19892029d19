import OrderExecution.PortfolioGuardSound
import OrderExecution.SingleSteps

/-!
# Whole calls of the manager

`call` runs a call of `process_signal` for a single-leg signal, a send result or
a message to its end, without another thread in between. Each is a run of
`step`, and `Processed` says what a call of `process_signal` leaves.
-/

namespace OrderExecution

open SignalReceiver Machine

namespace OrderManager

/-- A task goes on until its call of `process_single_leg` returns; the dispatch
thread has not begun. -/
def goOn (answers : List (Option CancelResult)) (now : Int) :
    Nat → OrderManager → SingleTask → OrderManager × Option SingleTask
  | 0, m, t => (m, some t)
  | _ + 1, m, .send gw o => (m, some (.send gw o))
  | fuel + 1, m, t =>
    match m.advance answers {} now t with
    | (m', none) => (m', none)
    | (m', some t') => goOn answers now fuel m' t'

def drawn (m : OrderManager) : OrderManager := m.setArb (m.arb.setUuid m.arb.uuid.orderId.2)

/-- `process_signal` of a single-leg signal. No call takes more than seven
critical sections. -/
def processCall (m : OrderManager) (s : Signal) (receiveNs now sentNow : Int)
    (answers : List (Option CancelResult)) : OrderManager :=
  let validation := validate m.signalConfig s receiveNs
  if !validation.valid then m.record (.processed { reason := validation.reason })
  else
    let r := goOn answers sentNow 8 m.drawn (.check (m.newOrder s now))
    r.1.spawn r.2.toList

/-- The dispatch thread: it sends the order and handles the result. -/
def resultCall (m : OrderManager) (gw : Exchange) (o : Order) (r : OrderResult) : OrderManager :=
  ((m.drop (.send gw o)).record (.sendOrder gw o)).sendResult o r

def messageCall (m : OrderManager) (f : Fill) (now : Int) : OrderManager := (m.onFill f now).finishFill f

end OrderManager

inductive CallEvent where
  | process (s : Signal) (receiveNs now sentNow : Int) (answers : List (Option CancelResult))
  | sendResult (gateway : Exchange) (order : Order) (result : OrderResult)
  | message (f : Fill) (now : Int)
  deriving DecidableEq

namespace OrderManager

/-- A manager of a process that may have drawn ids already. -/
def fresh (signalConfig : SignalConfig) (portfolioConfig : PortfolioConfig) (arbConfig : ArbConfig)
    (hasGateway : Exchange → Bool) (uuid : UuidGenerator) : OrderManager :=
  let m := init signalConfig portfolioConfig arbConfig hasGateway
  m.setArb (m.arb.setUuid uuid)

def call (m : OrderManager) : CallEvent → Option OrderManager
  | .process s receiveNs now sentNow answers =>
    if s.hasGroupId then none else some (m.processCall s receiveNs now sentNow answers)
  | .sendResult gw o r => if .send gw o ∈ m.tasks then some (m.resultCall gw o r) else none
  | .message f now => some (m.messageCall f now)

/-- The order a call of `process_single_leg` stores before it sends. -/
def sentOrder (m : OrderManager) (s : Signal) (now sentNow : Int) : Order :=
  { m.newOrder s now with status := .SENT, sentAtNs := sentNow }

def refusedOrder (m : OrderManager) (s : Signal) (now : Int) (reason : CStr 127) : Order :=
  { m.newOrder s now with status := .REJECTED, rejectReason := .copy 63 reason.bytes }

def strandedOrder (m : OrderManager) (s : Signal) (now sentNow : Int) : Order :=
  { m.sentOrder s now sentNow with status := .REJECTED, rejectReason := noGatewayReason s.exchange }

def checked (m : OrderManager) (s : Signal) (answers : List (Option CancelResult)) : OrderManager :=
  m.drawn.setResolver (m.resolver.check m.arb.hasGateway s answers).1

def admitted (m : OrderManager) (s : Signal) (now sentNow : Int) (answers : List (Option CancelResult)) :
    OrderManager :=
  let m₁ := (m.checked s answers).setArb
    ((m.checked s answers).arb.setPortfolio (m.arb.portfolio.checkAndReserve s).1)
  let m₂ := m₁.storeOrder (m.sentOrder s now sentNow)
  m₂.setResolver (m₂.resolver.registerOrder (m.sentOrder s now sentNow))

/-- The signal is valid, and passes the conflict check and the margin check. -/
structure Passes (m : OrderManager) (s : Signal) (receiveNs : Int) (answers : List (Option CancelResult)) : Prop where
  valid : (validate m.signalConfig s receiveNs).valid = true
  canProceed : (m.resolver.check m.arb.hasGateway s answers).2.canProceed = true
  approved : (m.arb.portfolio.checkAndReserve s).2.approved = true

instance (m : OrderManager) (s : Signal) (receiveNs : Int) (answers : List (Option CancelResult)) :
    Decidable (m.Passes s receiveNs answers) :=
  decidable_of_iff ((validate m.signalConfig s receiveNs).valid = true ∧
    (m.resolver.check m.arb.hasGateway s answers).2.canProceed = true ∧
    (m.arb.portfolio.checkAndReserve s).2.approved = true)
    ⟨fun h => ⟨h.1, h.2.1, h.2.2⟩, fun h => ⟨h.valid, h.canProceed, h.approved⟩⟩

/-- What a call of `process_signal` leaves. -/
inductive Processed (m : OrderManager) (s : Signal) (receiveNs now sentNow : Int)
    (answers : List (Option CancelResult)) : OrderManager → Prop where
  | invalid (r) : (validate m.signalConfig s receiveNs).valid = false →
      Processed m s receiveNs now sentNow answers (m.record (.processed r))
  | refused (reason r) : (validate m.signalConfig s receiveNs).valid = true →
      Processed m s receiveNs now sentNow answers
        (((m.checked s answers).storeOrder (m.refusedOrder s now reason)).record (.processed r))
  | stranded (r) : m.Passes s receiveNs answers → m.arb.hasGateway s.exchange = false →
      Processed m s receiveNs now sentNow answers
        ((((m.admitted s now sentNow answers).storeOrder (m.strandedOrder s now sentNow)).release s).record
          (.processed r))
  | sent (r) : m.Passes s receiveNs answers → m.arb.hasGateway s.exchange = true →
      Processed m s receiveNs now sentNow answers
        (((m.admitted s now sentNow answers).record (.processed r)).spawn
          [.send s.exchange (m.sentOrder s now sentNow)])

section
variable {m m' : OrderManager}

theorem goOn_more {t t' : SingleTask} {answers : List (Option CancelResult)} {now : Int}
    (ht : ∀ gw o, t ≠ .send gw o) (h : m.advance answers {} now t = (m', some t')) (fuel : Nat) :
    goOn answers now (fuel + 1) m t = goOn answers now fuel m' t' := by
  cases t with
  | send gw o => exact absurd rfl (ht gw o)
  | _ => simp only [goOn, h]

theorem goOn_end {t : SingleTask} {answers : List (Option CancelResult)} {now : Int}
    (ht : ∀ gw o, t ≠ .send gw o) (h : m.advance answers {} now t = (m', none)) (fuel : Nat) :
    goOn answers now (fuel + 1) m t = (m', none) := by
  cases t with
  | send gw o => exact absurd rfl (ht gw o)
  | _ => simp only [goOn, h]

section
variable {s : Signal} {receiveNs now sentNow : Int} {answers : List (Option CancelResult)}

theorem processCall_invalid (hv : (validate m.signalConfig s receiveNs).valid = false) :
    m.processCall s receiveNs now sentNow answers =
      m.record (.processed { reason := (validate m.signalConfig s receiveNs).reason }) := by
  simp only [processCall, hv, Bool.not_false, ite_true]

theorem processCall_valid (hv : (validate m.signalConfig s receiveNs).valid = true) :
    m.processCall s receiveNs now sentNow answers =
      (goOn answers sentNow 8 m.drawn (.check (m.newOrder s now))).1.spawn
        (goOn answers sentNow 8 m.drawn (.check (m.newOrder s now))).2.toList := by
  simp only [processCall, hv, Bool.not_true, Bool.false_eq_true, ite_false]

theorem advance_check : m.drawn.advance answers {} sentNow (.check (m.newOrder s now)) = (m.checked s answers,
    some (if (m.resolver.check m.arb.hasGateway s answers).2.canProceed then .reserve (m.newOrder s now)
      else .storeRefused (m.refusedOrder s now (m.resolver.check m.arb.hasGateway s answers).2.reason)
        (m.resolver.check m.arb.hasGateway s answers).2.reason)) := rfl

theorem goOn_check_refused (hc : (m.resolver.check m.arb.hasGateway s answers).2.canProceed = false) :
    goOn answers sentNow 8 m.drawn (.check (m.newOrder s now)) =
      (((m.checked s answers).storeOrder
          (m.refusedOrder s now (m.resolver.check m.arb.hasGateway s answers).2.reason)).record
        (.processed { orderId := storedOrderId m.arb.uuid.orderCounter,
                      reason := (m.resolver.check m.arb.hasGateway s answers).2.reason }), none) := by
  rw [goOn_more (by simp) advance_check, hc, if_neg Bool.false_ne_true, goOn_end (by simp) rfl]
  rfl

theorem goOn_check (hc : (m.resolver.check m.arb.hasGateway s answers).2.canProceed = true) :
    goOn answers sentNow 8 m.drawn (.check (m.newOrder s now)) =
      goOn answers sentNow 7 (m.checked s answers) (.reserve (m.newOrder s now)) := by
  rw [goOn_more (by simp) advance_check, hc, if_pos rfl]

theorem advance_reserve : (m.checked s answers).advance answers {} sentNow (.reserve (m.newOrder s now)) =
    ((m.checked s answers).setArb
        ((m.checked s answers).arb.setPortfolio (m.arb.portfolio.checkAndReserve s).1),
      some (if (m.arb.portfolio.checkAndReserve s).2.approved then .store (m.sentOrder s now sentNow)
        else .storeRefused (m.refusedOrder s now (m.arb.portfolio.checkAndReserve s).2.reason)
          (m.arb.portfolio.checkAndReserve s).2.reason)) := rfl

theorem goOn_reserve_refused (ha : (m.arb.portfolio.checkAndReserve s).2.approved = false) :
    goOn answers sentNow 7 (m.checked s answers) (.reserve (m.newOrder s now)) =
      (((m.checked s answers).storeOrder (m.refusedOrder s now (m.arb.portfolio.checkAndReserve s).2.reason)).record
        (.processed { orderId := storedOrderId m.arb.uuid.orderCounter,
                      reason := (m.arb.portfolio.checkAndReserve s).2.reason }), none) := by
  rw [goOn_more (by simp) advance_reserve, ha, if_neg Bool.false_ne_true, goOn_end (by simp) rfl,
    PortfolioGuard.checkAndReserve_refused ha]
  rfl

/-- Past the margin check the order is stored and registered. -/
theorem goOn_reserve (ha : (m.arb.portfolio.checkAndReserve s).2.approved = true) :
    goOn answers sentNow 7 (m.checked s answers) (.reserve (m.newOrder s now)) =
      goOn answers sentNow 4 (m.admitted s now sentNow answers) (.lookup (m.sentOrder s now sentNow)) := by
  have hregister : ∀ m₂ : OrderManager, m₂.advance answers {} sentNow (.register (m.sentOrder s now sentNow)) =
      (m₂.setResolver (m₂.resolver.registerOrder (m.sentOrder s now sentNow)),
        some (.lookup (m.sentOrder s now sentNow))) := fun _ => rfl
  rw [goOn_more (by simp) advance_reserve, ha, if_pos rfl, goOn_more (by simp) rfl, goOn_more (by simp) (hregister _)]
  rfl

theorem processCall_stranded (hp : m.Passes s receiveNs answers) (hg : m.arb.hasGateway s.exchange = false) :
    m.processCall s receiveNs now sentNow answers =
      (((m.admitted s now sentNow answers).storeOrder (m.strandedOrder s now sentNow)).release s).record
        (.processed { orderId := storedOrderId m.arb.uuid.orderCounter,
                      reason := .copy 127 (noGatewayReason s.exchange).bytes }) := by
  have hlookup : (m.admitted s now sentNow answers).advance answers {} sentNow
      (.lookup (m.sentOrder s now sentNow)) =
      (m.admitted s now sentNow answers, some (.storeRejected (m.strandedOrder s now sentNow))) := by
    have hf : (m.admitted s now sentNow answers).arb.findGateway s.exchange = none :=
      if_neg (hg ▸ Bool.false_ne_true)
    simp only [advance, show (m.sentOrder s now sentNow).signal = s from rfl, hf]
    rfl
  rw [processCall_valid hp.valid, goOn_check hp.canProceed, goOn_reserve hp.approved, goOn_more (by simp) hlookup,
    goOn_more (by simp) rfl, goOn_end (by simp) rfl]
  rfl

theorem processCall_sent (hp : m.Passes s receiveNs answers) (hg : m.arb.hasGateway s.exchange = true) :
    m.processCall s receiveNs now sentNow answers =
      ((m.admitted s now sentNow answers).record
        (.processed { success := true, orderId := storedOrderId m.arb.uuid.orderCounter })).spawn
        [.send s.exchange (m.sentOrder s now sentNow)] := by
  have hlookup : (m.admitted s now sentNow answers).advance answers {} sentNow
      (.lookup (m.sentOrder s now sentNow)) =
      ((m.admitted s now sentNow answers).record
        (.processed { success := true, orderId := (m.sentOrder s now sentNow).orderId }),
        some (.send s.exchange (m.sentOrder s now sentNow))) := by
    have hf : (m.admitted s now sentNow answers).arb.findGateway s.exchange = some s.exchange := if_pos hg
    simp only [advance, show (m.sentOrder s now sentNow).signal = s from rfl, hf]
  rw [processCall_valid hp.valid, goOn_check hp.canProceed, goOn_reserve hp.approved, goOn_more (by simp) hlookup]
  rfl

/-- A valid signal that does not pass is refused, with a reason. -/
theorem processCall_refused (now sentNow : Int) (hv : (validate m.signalConfig s receiveNs).valid = true)
    (hp : ¬ m.Passes s receiveNs answers) : ∃ reason, m.processCall s receiveNs now sentNow answers =
      ((m.checked s answers).storeOrder (m.refusedOrder s now reason)).record
        (.processed { orderId := storedOrderId m.arb.uuid.orderCounter, reason := reason }) := by
  rw [processCall_valid hv]
  cases hc : (m.resolver.check m.arb.hasGateway s answers).2.canProceed with
  | false => exact ⟨_, by rw [goOn_check_refused hc]; rfl⟩
  | true =>
    cases ha : (m.arb.portfolio.checkAndReserve s).2.approved with
    | false => exact ⟨_, by rw [goOn_check hc, goOn_reserve_refused ha]; rfl⟩
    | true => exact absurd ⟨hv, hc, ha⟩ hp

end

theorem processCall_spec (m : OrderManager) (s : Signal) (receiveNs now sentNow : Int)
    (answers : List (Option CancelResult)) :
    Processed m s receiveNs now sentNow answers (m.processCall s receiveNs now sentNow answers) := by
  cases hv : (validate m.signalConfig s receiveNs).valid with
  | false => rw [processCall_invalid hv]; exact .invalid _ hv
  | true =>
    by_cases hp : m.Passes s receiveNs answers
    · cases hg : m.arb.hasGateway s.exchange with
      | false => rw [processCall_stranded hp hg]; exact .stranded _ hp hg
      | true => rw [processCall_sent hp hg]; exact .sent _ hp hg
    · obtain ⟨reason, he⟩ := processCall_refused now sentNow hv hp
      rw [he]
      exact .refused reason _ hv

/-- A message that names no leg leaves the coordinator alone. -/
theorem onFill_unnamed {f : Fill} (h : m.arb.findLeg f.exchangeOrderId.bytes = none) (now : Int) :
    m.onFill f now = m := by
  unfold onFill ArbCoordinator.onFill
  simp only [h]
  rfl

/-! ## Calls as runs of critical sections -/

theorem drop_spawn (m : OrderManager) (t : SingleTask) : (m.spawn [t]).drop t = m := by
  simp [spawn, drop]

theorem run_goOn (answers : List (Option CancelResult)) (now : Int) (fuel : Nat) (m : OrderManager) (t : SingleTask) :
    ∃ es, run step (m.spawn [t]) es =
      some ((goOn answers now fuel m t).1.spawn (goOn answers now fuel m t).2.toList) := by
  induction fuel generalizing m t with
  | zero => exact ⟨[], rfl⟩
  | succ fuel ih =>
    by_cases ht : ∃ gw o, t = .send gw o
    · obtain ⟨gw, o, rfl⟩ := ht
      exact ⟨[], rfl⟩
    · have hne : ∀ gw o, t ≠ .send gw o := fun gw o he => ht ⟨gw, o, he⟩
      have hstep : step (m.spawn [t]) (.task t answers {} now) =
          some ((m.advance answers {} now t).1.spawn (m.advance answers {} now t).2.toList) := by
        have hm : t ∈ (m.spawn [t]).tasks := List.mem_cons_self ..
        simp only [step, hm, ite_true, drop_spawn]
      cases hr : m.advance answers {} now t with
      | mk m' next =>
        rw [hr] at hstep
        cases next with
        | none =>
          rw [goOn_end hne hr]
          exact ⟨_, run_one hstep⟩
        | some t' =>
          rw [goOn_more hne hr]
          obtain ⟨es, hes⟩ := ih m' t'
          exact ⟨_ :: es, run_trans (run_one hstep) hes⟩

theorem call_run {e : CallEvent} (h : m.call e = some m') : ∃ es, run step m es = some m' := by
  cases e with
  | process s receiveNs now sentNow answers =>
    simp only [call] at h
    split at h
    · cases h
    · next hg =>
      obtain rfl := Option.some.inj h
      unfold processCall
      simp only
      split
      · next hv =>
        refine ⟨[.processSignal s receiveNs now], run_one (congrArg some ?_)⟩
        simp only [processSignal, hv, ite_true]
      · next hv =>
        have hstart : step m (.processSignal s receiveNs now) = some (m.drawn.spawn [.check (m.newOrder s now)]) := by
          simp only [step, processSignal, hv, hg, Bool.false_eq_true, ite_false]
          rfl
        obtain ⟨es, hes⟩ := run_goOn answers sentNow 8 m.drawn (.check (m.newOrder s now))
        exact ⟨_ :: es, run_trans (run_one hstart) hes⟩
  | sendResult gw o r =>
    simp only [call] at h
    split at h
    · next hm =>
      obtain rfl := Option.some.inj h
      have hsend : step m (.task (.send gw o) [] {} 0) =
          some (((m.drop (.send gw o)).record (.sendOrder gw o)).spawn [.result o]) := by
        simp only [step, hm, ite_true]
        rfl
      have hresult : step (((m.drop (.send gw o)).record (.sendOrder gw o)).spawn [.result o])
          (.task (.result o) [] r 0) = some (m.resultCall gw o r) := by
        have hin : SingleTask.result o ∈ (((m.drop (.send gw o)).record (.sendOrder gw o)).spawn [.result o]).tasks :=
          List.mem_cons_self ..
        simp only [step, hin, ite_true, drop_spawn]
        rfl
      exact ⟨_, run_trans (run_one hsend) (run_one hresult)⟩
    · cases h
  | message f now =>
    obtain rfl := Option.some.inj h
    exact ⟨[.onFill f now, .finishFill f], rfl⟩

theorem calls_run {es : List CallEvent} (h : run call m es = some m') : ∃ fine, run step m fine = some m' :=
  run_simulated (C := fun _ _ => True) (I := fun _ => True) (f := id)
    (fun _ _ _ _ _ hs => ⟨trivial, call_run hs⟩) (along_of_mem (fun _ _ _ => trivial) m) trivial h

end

end OrderManager

end OrderExecution
