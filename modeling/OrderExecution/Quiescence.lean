import Mathlib.Algebra.BigOperators.Group.List.Basic
import OrderExecution.MarketSteps

/-!
# Every signal causes bounded work

`work` counts what a market has still to do: its tasks, the calls and threads of
the coordinator, the messages still open and the callbacks still pending, each
weighed by all that can follow from it. A signal adds at most 33, and every
other step takes at least one away, so the market comes to rest.
-/

namespace OrderExecution

open ArbCoordinator Machine SignalReceiver

/-! ## What follows from each part -/

/-- A message for a leg can start an unwind, and leaves a callback. -/
def LegRole.work : LegRole → Nat
  | .cexLeg | .dexLeg => 6
  | .unwind => 2

def Worker.work : Worker → Nat
  | .deadline _ => 1
  | .sendResult _ _ => 5
  | .riskWindow _ => 5
  | .unwindSend _ _ _ => 4
  | .unwindResult _ => 1

def DispatchCall.work : DispatchCall → Nat
  | .enter _ => 32
  | .lookup _ _ _ => 31
  | .sendCex _ _ _ _ _ => 30
  | .sendDex _ _ _ => 18
  | .startMonitor _ => 6

/-- Its order, unless that is closed. -/
def ArbEffect.work (closed : List (CStr 15)) : ArbEffect → Nat
  | .sendOrder _ role _ o => if o.orderId ∈ closed then 0 else role.work
  | _ => 0

def SingleTask.work : SingleTask → Nat
  | .check _ => 13
  | .reserve _ => 12
  | .storeRefused _ _ => 1
  | .store _ => 11
  | .register _ => 10
  | .lookup _ => 9
  | .storeRejected _ => 2
  | .release _ => 1
  | .send _ _ => 8
  | .result _ => 1

def ManagerEffect.work (closed : List (CStr 15)) : ManagerEffect → Nat
  | .sendOrder _ o => if o.orderId ∈ closed then 0 else 6
  | _ => 0

def ArbCoordinator.work (closed : List (CStr 15)) (c : ArbCoordinator) : Nat :=
  (c.calls.map DispatchCall.work).sum + (c.workers.map Worker.work).sum + (c.log.map (ArbEffect.work closed)).sum

def OrderManager.work (closed : List (CStr 15)) (m : OrderManager) : Nat :=
  (m.tasks.map SingleTask.work).sum + (m.log.map (ManagerEffect.work closed)).sum

def Market.work (m : Market) : Nat :=
  m.om.arb.work m.closed + m.om.work m.closedSingles + m.pending.length

namespace ArbCoordinator

section
variable {c c' : ArbCoordinator} {closed : List (CStr 15)}

@[simp] theorem work_setPair (g : CStr 15) (p : ArbPair) : (c.setPair g p).work closed = c.work closed := rfl

@[simp] theorem work_release (s : Signal) : (c.release s).work closed = c.work closed := rfl

@[simp] theorem work_setPortfolio (π : PortfolioGuard) : (c.setPortfolio π).work closed = c.work closed := rfl

@[simp] theorem work_setUuid (u : UuidGenerator) : (c.setUuid u).work closed = c.work closed := rfl

@[simp] theorem work_spawn (w : Worker) : (c.spawn w).work closed = c.work closed + w.work := by
  simp only [work, spawn, List.map_cons, List.sum_cons]
  omega

@[simp] theorem work_record (x : ArbEffect) : (c.record x).work closed = c.work closed + x.work closed := by
  simp only [work, record, List.map_cons, List.sum_cons]
  omega

@[simp] theorem work_pushCalls (l : List DispatchCall) :
    (c.pushCalls l).work closed = c.work closed + (l.map DispatchCall.work).sum := by
  simp only [work, pushCalls, List.map_append, List.sum_append]
  omega

@[simp] theorem work_bookFill (g : CStr 15) (o : Order) : (c.bookFill g o).work closed = c.work closed :=
  work_record ..

theorem work_join {w : Worker} (hw : w ∈ c.workers) : (c.join w).work closed + w.work = c.work closed := by
  have h := List.sum_map_erase Worker.work hw
  simp only [work, join]
  omega

theorem work_dropCall {d : DispatchCall} (hd : d ∈ c.calls) : (c.dropCall d).work closed + d.work = c.work closed := by
  have h := List.sum_map_erase DispatchCall.work hd
  simp only [work, dropCall]
  omega

theorem work_startUnwind (p : ArbPair) (now : Int) : (c.startUnwind p now).work closed ≤ c.work closed + 4 := by
  simp only [startUnwind]
  split
  · simp [ArbEffect.work, Worker.work]
  · simp [ArbEffect.work]

theorem work_handleLegReject (p : ArbPair) (isCex : Bool) (now : Int) :
    (c.handleLegReject p isCex now).1.work closed ≤ c.work closed + 4 := by
  cases isCex with
  | true =>
    simp only [handleLegReject, if_true]
    split <;> split <;> simp
  | false =>
    simp only [handleLegReject, Bool.false_eq_true, if_false, work_release]
    split
    · exact work_startUnwind ..
    · split <;> simp

theorem work_sendLeg (g : CStr 15) (isCex : Bool) (gw : Option Exchange) (o : Order) :
    (c.sendLeg g isCex gw o).work closed ≤ c.work closed + 11 := by
  cases gw with
  | none => simp [sendLeg]
  | some gw =>
    simp only [sendLeg, work_spawn, work_record, ArbEffect.work, Worker.work]
    split
    · omega
    · cases isCex <;> simp [LegRole.work]

/-- A stretch of `dispatch_pair` leaves less to do than it had. -/
theorem work_advance (now : Int) (d : DispatchCall) :
    ((c.advance now d).1.pushCalls (c.advance now d).2.toList).work closed + 1 ≤ c.work closed + d.work := by
  rw [work_pushCalls]
  cases d with
  | enter g =>
    simp only [advance, dispatchEnter, DispatchCall.work]
    split
    · simp
    · split
      · simp
      · split
        · simp
        · simp [ArbEffect.work, DispatchCall.work]
  | lookup g o₁ o₂ =>
    simp only [advance, DispatchCall.work]
    split
    · simp
    · simp [DispatchCall.work]
  | sendCex g gw₁ gw₂ o₁ o₂ =>
    have h := @work_sendLeg c closed g true gw₁ o₁
    simp only [advance, DispatchCall.work, Option.toList_some, List.map_cons, List.map_nil, List.sum_cons, List.sum_nil]
    omega
  | sendDex g gw o =>
    have h := @work_sendLeg c closed g false gw o
    simp only [advance, DispatchCall.work, Option.toList_some, List.map_cons, List.map_nil, List.sum_cons, List.sum_nil]
    omega
  | startMonitor g => simp [advance, DispatchCall.work, Worker.work]

theorem work_deadline (g : CStr 15) : (c.deadline g).work closed = c.work closed := by
  simp only [deadline]
  split
  · rfl
  · split
    · split <;> split <;> simp
    · rfl

theorem work_sendResult (g : CStr 15) (isCex : Bool) (r : OrderResult) (now : Int) :
    (c.sendResult g isCex r now).work closed ≤ c.work closed + 4 := by
  simp only [sendResult]
  split
  · simp
  · split
    · split
      · simp
      · exact work_handleLegReject ..
    · simp

theorem work_riskWindow (g : CStr 15) (now : Int) : (c.riskWindow g now).work closed ≤ c.work closed + 4 := by
  simp only [riskWindow]
  split
  · simp
  · split
    · rw [work_setPair]
      exact work_startUnwind ..
    · split <;> simp

/-- A thread leaves less to do than it had. -/
theorem work_runWorker (r : OrderResult) (now : Int) (w : Worker) :
    (c.runWorker r now w).work closed + 1 ≤ c.work closed + w.work := by
  cases w with
  | deadline g => simp [runWorker, work_deadline, Worker.work]
  | sendResult g isCex =>
    have h := @work_sendResult c closed g isCex r now
    simp only [runWorker, Worker.work]
    omega
  | riskWindow g =>
    have h := @work_riskWindow c closed g now
    simp only [runWorker, Worker.work]
    omega
  | unwindSend g gw o =>
    simp only [runWorker, work_spawn, work_record, ArbEffect.work, Worker.work, LegRole.work]
    split <;> omega
  | unwindResult g =>
    simp only [runWorker, unwindResult, Worker.work]
    split <;> simp

theorem work_onFill (x : Bytes) (price qty : ℚ) (isReject : Bool) (now : Int) :
    (c.onFill x price qty isReject now).work closed ≤ c.work closed + 4 := by
  simp only [onFill]
  split
  · simp
  · split
    · exact work_handleLegReject ..
    · split
      · simp
      · split
        · simp [finalizePair]
        · simp

theorem work_addLeg (s : Signal) (now : Int) : (c.addLeg s now).1.work closed ≤ c.work closed + 33 := by
  rw [addLeg_fst]
  have hadd : (c.addingTo s.groupId).work closed ≤ c.work closed + 1 := by
    unfold addingTo
    split <;> simp [Worker.work]
  split
  · simp only [work_pushCalls, work_setPair, DispatchCall.work, List.map_cons, List.map_nil, List.sum_cons,
      List.sum_nil]
    omega
  · simp only [work_setPair]
    omega

/-- A step of the coordinator's own threads leaves less to do. -/
theorem work_own {e : ArbEvent} (h : c.step e = some c') (he : e.isOwn = true) :
    c'.work closed + 1 ≤ c.work closed := by
  cases e with
  | dispatch d now =>
    simp only [step] at h
    split at h <;> cases h
    next hd =>
      have hdrop : (c.dropCall d).work closed + d.work = c.work closed := work_dropCall hd
      have hadv := @work_advance (c.dropCall d) closed now d
      omega
  | worker w r now =>
    simp only [step] at h
    split at h <;> cases h
    next hw =>
      have hjoin : (c.join w).work closed + w.work = c.work closed := work_join hw
      have hrun := @work_runWorker (c.join w) closed r now w
      omega
  | _ => cases he

end

end ArbCoordinator

namespace OrderManager

section
variable {m : OrderManager} {closed : List (CStr 15)}

@[simp] theorem work_setArb (c : ArbCoordinator) : (m.setArb c).work closed = m.work closed := rfl

@[simp] theorem work_storeOrder (o : Order) : (m.storeOrder o).work closed = m.work closed := rfl

@[simp] theorem work_setOrder (id : CStr 15) (o : Order) : (m.setOrder id o).work closed = m.work closed := rfl

@[simp] theorem work_setResolver (r : ConflictResolver) : (m.setResolver r).work closed = m.work closed := rfl

@[simp] theorem work_updateStatus (id : CStr 15) (status : OrderStatus) :
    (m.updateStatus id status).work closed = m.work closed := rfl

@[simp] theorem work_release (s : Signal) : (m.release s).work closed = m.work closed := rfl

@[simp] theorem work_record (x : ManagerEffect) : (m.record x).work closed = m.work closed + x.work closed := by
  simp only [work, record, List.map_cons, List.sum_cons]
  omega

@[simp] theorem work_spawn (ts : List SingleTask) :
    (m.spawn ts).work closed = m.work closed + (ts.map SingleTask.work).sum := by
  simp only [work, spawn, List.map_append, List.sum_append]
  omega

theorem work_drop {t : SingleTask} (ht : t ∈ m.tasks) : (m.drop t).work closed + t.work = m.work closed := by
  have h := List.sum_map_erase SingleTask.work ht
  simp only [work, drop]
  omega

/-- A critical section of a task leaves less to do than the task had. -/
theorem work_advance (answers : List (Option CancelResult)) (r : OrderResult) (now : Int) (t : SingleTask) :
    ((m.advance answers r now t).1.spawn (m.advance answers r now t).2.toList).work closed + 1 ≤
      m.work closed + t.work := by
  rw [work_spawn]
  cases t with
  | check o =>
    simp only [advance, work_setResolver, SingleTask.work]
    split <;> simp [SingleTask.work]
  | reserve o =>
    simp only [advance, work_setArb, SingleTask.work]
    split <;> simp [SingleTask.work]
  | storeRefused o reason => simp [advance, SingleTask.work, ManagerEffect.work]
  | store o => simp [advance, SingleTask.work]
  | register o => simp [advance, SingleTask.work]
  | lookup o =>
    simp only [advance]
    split <;> simp [SingleTask.work, ManagerEffect.work]
  | storeRejected o => simp [advance, SingleTask.work]
  | release o => simp [advance, SingleTask.work, ManagerEffect.work]
  | send gw o =>
    simp only [advance, work_record, ManagerEffect.work, SingleTask.work, Option.toList_some, List.map_cons,
      List.map_nil, List.sum_cons, List.sum_nil]
    split <;> omega
  | result o =>
    simp only [advance, sendResult, SingleTask.work, Option.toList_none, List.map_nil, List.sum_nil]
    split
    · omega
    · split <;> simp

/-- A task is no work for the coordinator. -/
theorem arbWork_advance (answers : List (Option CancelResult)) (r : OrderResult) (now : Int) (t : SingleTask) :
    (m.advance answers r now t).1.arb.work closed = m.arb.work closed := by
  cases t with
  | lookup o =>
    simp only [advance]
    split <;> rfl
  | result o =>
    simp only [advance, sendResult]
    split
    · rfl
    · split <;> rfl
  | _ => rfl

theorem work_finishFill (f : Fill) : (m.finishFill f).work closed = m.work closed := by
  simp only [finishFill]
  split
  · rfl
  · split <;> simp [bookFill, ManagerEffect.work]

theorem arbWork_finishFill (f : Fill) : (m.finishFill f).arb.work closed = m.arb.work closed := by
  simp only [finishFill]
  split
  · rfl
  · split <;> rfl

end

end OrderManager

/-! ## Closing an order -/

theorem sum_map_add_le {α : Type} [DecidableEq α] {l : List α} {f f' : α → Nat} {x : α} {k : Nat} (hx : x ∈ l)
    (hle : ∀ y, f y ≤ f' y) (hk : f x + k ≤ f' x) : (l.map f).sum + k ≤ (l.map f').sum := by
  have h := List.sum_map_erase f hx
  have h' := List.sum_map_erase f' hx
  have hrest : ((l.erase x).map f).sum ≤ ((l.erase x).map f').sum := List.sum_le_sum fun y _ => hle y
  omega

theorem ArbCoordinator.work_close {c : ArbCoordinator} {closed : List (CStr 15)} {g : CStr 15} {role : LegRole}
    {o : Order} (hs : c.Sent g role o) (ho : o.orderId ∉ closed) :
    c.work (o.orderId :: closed) + role.work ≤ c.work closed := by
  obtain ⟨x, hx, hsend⟩ := hs
  have hlog : (c.log.map (ArbEffect.work (o.orderId :: closed))).sum + role.work ≤
      (c.log.map (ArbEffect.work closed)).sum := by
    refine sum_map_add_le hx (fun y => ?_) ?_
    · cases y with
      | sendOrder g' role' gw o' =>
        simp only [ArbEffect.work, List.mem_cons]
        split
        · exact Nat.zero_le _
        · next hn => rw [if_neg fun h => hn (.inr h)]
      | _ => exact Nat.le_refl _
    · cases x with
      | sendOrder g' role' gw o' =>
        obtain ⟨rfl, rfl, rfl⟩ := hsend
        simp [ArbEffect.work, ho]
      | _ => exact hsend.elim
  simp only [work]
  omega

theorem OrderManager.work_close {m : OrderManager} {closed : List (CStr 15)} {o : Order} (hs : m.Sent o)
    (ho : o.orderId ∉ closed) : m.work (o.orderId :: closed) + 6 ≤ m.work closed := by
  have hlog : (m.log.map (ManagerEffect.work (o.orderId :: closed))).sum + 6 ≤
      (m.log.map (ManagerEffect.work closed)).sum := by
    refine sum_map_add_le hs (fun y => ?_) ?_
    · cases y with
      | sendOrder gw o' =>
        simp only [ManagerEffect.work, List.mem_cons]
        split
        · exact Nat.zero_le _
        · next hn => rw [if_neg fun h => hn (.inr h)]
      | _ => exact Nat.le_refl _
    · simp [ManagerEffect.work, ho]
  simp only [work]
  omega

/-- A call of `process_signal`. -/
def MarketEvent.isSignal : MarketEvent → Bool
  | .code (.processSignal _ _ _) => true
  | _ => false

namespace Market

/-- Nothing is under way, and no gateway has a message left. -/
structure AtRest (m : Market) : Prop where
  tasks : m.om.tasks = []
  calls : m.om.arb.calls = []
  workers : m.om.arb.workers = []
  pending : m.pending = []
  legs : ∀ g role o, m.om.arb.Sent g role o → o.orderId ∈ m.closed
  singles : ∀ o, m.om.Sent o → o.orderId ∈ m.closedSingles

section
variable {m m' : Market} {me : MarketEvent}

theorem work_task {t : SingleTask} {answers : List (Option CancelResult)} {r : OrderResult} {now : Int}
    {om : OrderManager} (h : m.om.step (.task t answers r now) = some om) :
    om.work m.closedSingles + 1 ≤ m.om.work m.closedSingles ∧ om.arb.work m.closed = m.om.arb.work m.closed := by
  simp only [OrderManager.step] at h
  split at h <;> cases h
  next ht =>
    have hdrop : (m.om.drop t).work m.closedSingles + t.work = m.om.work m.closedSingles := OrderManager.work_drop ht
    have hadv := @OrderManager.work_advance (m.om.drop t) m.closedSingles answers r now t
    exact ⟨by omega, OrderManager.arbWork_advance (m := m.om.drop t) answers r now t⟩

theorem work_signal {s : Signal} {receiveNs now : Int} {om : OrderManager}
    (h : m.om.step (.processSignal s receiveNs now) = some om) :
    om.arb.work m.closed + om.work m.closedSingles ≤ m.om.arb.work m.closed + m.om.work m.closedSingles + 33 := by
  cases h
  simp only [OrderManager.processSignal]
  split
  · simp [ManagerEffect.work]
  · split
    · have hadd := @work_addLeg m.om.arb m.closed s now
      simp only [OrderManager.work_record, OrderManager.work_setArb, ManagerEffect.work, OrderManager.arb_record]
      exact Nat.le_trans (Nat.add_le_add_right hadd _) (by omega)
    · simp only [OrderManager.work_spawn, OrderManager.work_setArb, SingleTask.work, List.map_cons, List.map_nil,
        List.sum_cons, List.sum_nil]
      show (m.om.arb.setUuid _).work m.closed + _ ≤ _
      rw [work_setUuid]
      omega

/-- A message of an unwind order finds no leg, one of a leg can start an unwind. -/
theorem Orderly.work_legMessage (h : m.Orderly) {g : CStr 15} {role : LegRole} {o : Order} {f : Fill}
    (hs : m.om.arb.Sent g role o) (hx : f.exchangeOrderId.bytes = o.exchangeId) (now : Int) (closed : List (CStr 15)) :
    (m.om.onFill f now).arb.work closed + 2 ≤ m.om.arb.work closed + role.work := by
  show (m.om.arb.onFill f.exchangeOrderId.bytes f.fillPrice f.filledQty f.isReject now).work closed + 2 ≤ _
  have hfill := @work_onFill m.om.arb closed f.exchangeOrderId.bytes f.fillPrice f.filledQty
    f.isReject now
  cases role with
  | cexLeg => exact Nat.add_le_add_right hfill 2
  | dexLeg => exact Nat.add_le_add_right hfill 2
  | unwind =>
    cases hf : m.om.arb.findLeg f.exchangeOrderId.bytes with
    | none => simp only [ArbCoordinator.onFill, hf]; exact Nat.le_refl _
    | some e =>
      obtain ⟨g₀, p, b⟩ := e
      rw [hx] at hf
      obtain ⟨-, hb⟩ := World.message_unique (w := m.world) h.tagged hs hf
      cases b <;> cases hb

theorem Orderly.work_step (h : m.Orderly) (hs : m.step me = some m') :
    m'.work + 1 ≤ m.work + if me.isSignal then 34 else 0 := by
  cases steps_of_step hs with
  | @code e om hmsg hh hom =>
    cases e with
    | processSignal s receiveNs now =>
      have hsig := work_signal hom
      simp only [MarketEvent.isSignal, work, if_true]
      omega
    | task t answers r now =>
      obtain ⟨htask, harb⟩ := work_task hom
      simp only [MarketEvent.isSignal, work, Bool.false_eq_true, if_false]
      omega
    | arb a =>
      simp only [OrderManager.step] at hom
      split at hom
      · next ha =>
        obtain ⟨c, hc, rfl⟩ := Option.map_eq_some_iff.mp hom
        have hown : c.work m.closed + 1 ≤ m.om.arb.work m.closed := work_own hc ha
        simp only [MarketEvent.isSignal, work, Bool.false_eq_true, if_false, OrderManager.work_setArb]
        show c.work m.closed + _ + _ + 1 ≤ _
        omega
      · cases hom
    | onFill f now => cases hmsg
    | finishFill f => cases hmsg
  | @legMessage g role o f now hsent hopen hx =>
    have hmsg := h.work_legMessage hsent hx now (o.orderId :: m.closed)
    have hclose := ArbCoordinator.work_close hsent hopen
    have hpend : ((o, f) :: m.pending).length = m.pending.length + 1 := rfl
    have hom : (m.om.onFill f now).work m.closedSingles = m.om.work m.closedSingles := rfl
    simp only [MarketEvent.isSignal, work, Bool.false_eq_true, if_false]
    omega
  | @noLegMessage g role o hsent hopen =>
    have hclose := ArbCoordinator.work_close hsent hopen
    have hpos : 1 ≤ role.work := by cases role <;> decide
    simp only [MarketEvent.isSignal, work, Bool.false_eq_true, if_false]
    omega
  | @message o f now hsent hopen hx =>
    have hfill := @work_onFill m.om.arb m.closed f.exchangeOrderId.bytes f.fillPrice f.filledQty
      f.isReject now
    have harb : (m.om.onFill f now).arb =
        m.om.arb.onFill f.exchangeOrderId.bytes f.fillPrice f.filledQty f.isReject now := rfl
    have hclose := OrderManager.work_close hsent hopen
    have hpend : ((o, f) :: m.pending).length = m.pending.length + 1 := rfl
    have hom : (m.om.onFill f now).work (o.orderId :: m.closedSingles) = m.om.work (o.orderId :: m.closedSingles) := rfl
    simp only [MarketEvent.isSignal, work, Bool.false_eq_true, if_false, harb]
    omega
  | @noMessage o hsent hopen =>
    have hclose := OrderManager.work_close hsent hopen
    simp only [MarketEvent.isSignal, work, Bool.false_eq_true, if_false]
    omega
  | @finish o f hp =>
    have hom := @OrderManager.work_finishFill m.om m.closedSingles f
    have harb := @OrderManager.arbWork_finishFill m.om m.closed f
    have hpend := List.length_erase_of_mem hp
    have hpos := List.length_pos_of_mem hp
    simp only [MarketEvent.isSignal, work, Bool.false_eq_true, if_false]
    omega

theorem counter_step (hn : m.om.arb.uuid.orderCounter < 10 ^ 11) (hs : m.step me = some m') :
    m'.om.arb.uuid.orderCounter ≤ m.om.arb.uuid.orderCounter + 1 := by
  rcases arb_step hs with ⟨-, harb⟩ | ⟨a, -, hstep⟩
  · rw [harb]; exact Nat.le_succ _
  · rw [orderCounter_step hstep]
    split <;> omega

theorem step_code {e : ManagerEvent} {om : OrderManager} (hm : e.isMessage = false) (hh : e.Honest)
    (hom : m.om.step e = some om) : ∃ m', m.step (.code e) = some m' := by
  have hs : m.step (.code e) = (m.om.step e).map _ := if_pos ⟨by simp [hm], hh⟩
  rw [hom] at hs
  exact ⟨_, hs⟩

/-- A market that is not at rest can go on without a new signal. -/
theorem exists_step_of_not_atRest (h : ¬ m.AtRest) : ∃ me m', me.isSignal = false ∧ m.step me = some m' := by
  by_contra hstuck
  simp only [not_exists, not_and] at hstuck
  refine h ⟨?_, ?_, ?_, ?_, ?_, ?_⟩
  · refine List.eq_nil_iff_forall_not_mem.mpr fun t ht => ?_
    have hhonest : (ManagerEvent.task t [] {} 0).Honest := by cases t <;> trivial
    obtain ⟨m', hs⟩ := step_code (m := m) rfl hhonest (if_pos ht)
    exact hstuck _ m' rfl hs
  · refine List.eq_nil_iff_forall_not_mem.mpr fun d hd => ?_
    obtain ⟨m', hs⟩ := step_code (m := m) (e := .arb (.dispatch d 0)) rfl trivial (by
      simp only [OrderManager.step, ArbEvent.isOwn, if_true, ArbCoordinator.step, if_pos hd, Option.map_some]
      rfl)
    exact hstuck _ m' rfl hs
  · refine List.eq_nil_iff_forall_not_mem.mpr fun w hw => ?_
    obtain ⟨m', hs⟩ := step_code (m := m) (e := .arb (.worker w {} 0)) rfl trivial (by
      simp only [OrderManager.step, ArbEvent.isOwn, if_true, ArbCoordinator.step, if_pos hw, Option.map_some]
      rfl)
    exact hstuck _ m' rfl hs
  · refine List.eq_nil_iff_forall_not_mem.mpr fun x hx => ?_
    exact hstuck (.finish x.1 x.2) _ rfl (if_pos hx)
  · intro g role o hs
    by_contra ho
    exact hstuck (.noLegMessage g role o) _ rfl (if_pos ⟨hs, ho⟩)
  · intro o hs
    by_contra ho
    exact hstuck (.noMessage o) _ rfl (if_pos ⟨hs, ho⟩)

theorem AtRest.step_eq_none (h : m.AtRest) (he : me.isSignal = false) : m.step me = none := by
  cases hs : m.step me with
  | none => rfl
  | some m' =>
    cases steps_of_step hs with
    | @code e om hmsg _ hom =>
      cases e with
      | processSignal s receiveNs now => cases he
      | task t answers r now => simp [OrderManager.step, h.tasks] at hom
      | arb a => cases a <;> simp [OrderManager.step, ArbEvent.isOwn, ArbCoordinator.step, h.calls, h.workers] at hom
      | onFill f now => cases hmsg
      | finishFill f => cases hmsg
    | legMessage hsent hopen _ => exact absurd (h.legs _ _ _ hsent) hopen
    | noLegMessage hsent hopen => exact absurd (h.legs _ _ _ hsent) hopen
    | message hsent hopen _ => exact absurd (h.singles _ hsent) hopen
    | noMessage hsent hopen => exact absurd (h.singles _ hsent) hopen
    | finish hp => rw [h.pending] at hp; cases hp

end

end Market

def signals (es : List MarketEvent) : Nat := es.countP MarketEvent.isSignal

theorem signals_concat (es : List MarketEvent) (e : MarketEvent) :
    signals (es ++ [e]) = signals es + if e.isSignal then 1 else 0 := by
  simp [signals, List.countP_append, List.countP_singleton]

section
variable (signalConfig : SignalConfig) (portfolioConfig : PortfolioConfig) (arbConfig : ArbConfig)
  (hasGateway : Exchange → Bool)

theorem run_spends {es : List MarketEvent} {m : Market}
    (hr : run Market.step (.init signalConfig portfolioConfig arbConfig hasGateway) es = some m)
    (hfew : 34 * signals es < 10 ^ 11 - 1) :
    m.Orderly ∧ es.length + m.work ≤ 34 * signals es ∧ m.om.arb.uuid.orderCounter ≤ es.length + 1 := by
  induction es using List.reverseRecOn generalizing m with
  | nil =>
    cases hr
    exact ⟨Market.orderly_init .., Nat.le_refl _, Nat.le_refl _⟩
  | append_singleton es e ih =>
    obtain ⟨t, ht, hs⟩ := run_snoc hr
    have hcount := signals_concat es e
    obtain ⟨ho, hlen, hctr⟩ := ih ht (by omega)
    have hn : t.om.arb.uuid.orderCounter < 10 ^ 11 := by omega
    have hwork := ho.work_step hs
    have hnext := Market.counter_step hn hs
    rw [List.length_append, List.length_singleton]
    refine ⟨ho.step hn hs, ?_, by omega⟩
    cases he : e.isSignal with
    | true => simp only [he, if_true] at hwork hcount; omega
    | false => simp only [he, Bool.false_eq_true, if_false] at hwork hcount; omega

/-- A run can be continued to rest without new signals. -/
theorem exists_run_to_rest {es : List MarketEvent} {m : Market}
    (hr : run Market.step (.init signalConfig portfolioConfig arbConfig hasGateway) es = some m)
    (hfew : 34 * signals es < 10 ^ 11 - 1) :
    ∃ es' m', (∀ me ∈ es', me.isSignal = false) ∧ run Market.step m es' = some m' ∧ m'.AtRest := by
  by_cases hrest : m.AtRest
  · refine ⟨[], m, ?_, rfl, hrest⟩
    intro me hme
    cases hme
  · obtain ⟨me, m', he, hs⟩ := Market.exists_step_of_not_atRest hrest
    have hr' := run_trans hr (run_one hs)
    have hcount : signals (es ++ [me]) = signals es := by simp [signals_concat, he]
    have hfew' : 34 * signals (es ++ [me]) < 10 ^ 11 - 1 := by rw [hcount]; exact hfew
    have hlonger : (es ++ [me]).length = es.length + 1 := by simp
    have hbound := (run_spends signalConfig portfolioConfig arbConfig hasGateway hr' hfew').2.1
    obtain ⟨es', m'', hnone, hrun, hend⟩ := exists_run_to_rest hr' hfew'
    refine ⟨me :: es', m'', fun x hx => ?_, run_trans (run_one hs) hrun, hend⟩
    rcases List.mem_cons.mp hx with rfl | hx
    · exact he
    · exact hnone x hx
termination_by 34 * signals es - es.length
decreasing_by omega

/-- Without new signals every run ends, and it can end only at rest. -/
theorem comes_to_rest {es : List MarketEvent} {m : Market}
    (hr : run Market.step (.init signalConfig portfolioConfig arbConfig hasGateway) es = some m)
    (hfew : 34 * signals es < 10 ^ 11 - 1) :
    es.length ≤ 34 * signals es ∧ (m.AtRest ↔ ∀ me, me.isSignal = false → m.step me = none) ∧
      ∃ es' m', (∀ me ∈ es', me.isSignal = false) ∧ run Market.step m es' = some m' ∧ m'.AtRest := by
  obtain ⟨-, hlen, -⟩ := run_spends signalConfig portfolioConfig arbConfig hasGateway hr hfew
  refine ⟨by omega, ⟨fun h me he => h.step_eq_none he, fun h => ?_⟩,
    exists_run_to_rest signalConfig portfolioConfig arbConfig hasGateway hr hfew⟩
  by_contra hrest
  obtain ⟨me, m', he, hs⟩ := Market.exists_step_of_not_atRest hrest
  rw [h me he] at hs
  cases hs

end

/-- One signal, whose order is sent and filled. -/
theorem comes_to_rest_filled : ∃ m, run Market.step Sample.market
    (Sample.sending ++ [Sample.task (.result Sample.singleSent) Sample.taken,
      .finish Sample.singleSent Sample.singleFill]) = some m ∧
    ∃ es' m', (∀ me ∈ es', me.isSignal = false) ∧ run Market.step m es' = some m' ∧ m'.AtRest := by
  obtain ⟨m, hm⟩ := Option.isSome_iff_exists.mp (show (run Market.step Sample.market
    (Sample.sending ++ [Sample.task (.result Sample.singleSent) Sample.taken,
      .finish Sample.singleSent Sample.singleFill])).isSome by decide +kernel)
  exact ⟨m, hm, (comes_to_rest {} {} {} (fun _ => true) hm (by decide +kernel)).2.2⟩

end OrderExecution
