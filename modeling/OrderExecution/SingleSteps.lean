import OrderExecution.ArbSteps
import OrderExecution.OrderManager

/-!
# What a step of the manager does to one order

`single id` is what the manager holds about the single-leg order `id`;
`SingleStep` says all that an event can do to it.
-/

namespace OrderExecution

open SignalReceiver

def ManagerEffect.orderId : ManagerEffect → Option (CStr 15)
  | .processed _ => none
  | .sendOrder _ o => some o.orderId
  | .bookFill id _ _ _ => some id

/-- What the manager holds about one single-leg order. -/
structure SingleView where
  tasks : List SingleTask
  order : Option Order
  log : List ManagerEffect

def OrderManager.single (m : OrderManager) (id : CStr 15) : SingleView where
  tasks := m.tasks.filter (·.order.orderId = id)
  order := m.orders.lookup id
  log := m.log.filter (·.orderId = some id)

def OrderManager.newOrder (m : OrderManager) (s : Signal) (now : Int) : Order :=
  { orderId := storedOrderId m.arb.uuid.orderCounter, signal := s, status := .CREATED, createdAtNs := now }

def OrderManager.touched (m : OrderManager) : ManagerEvent → Option (CStr 15)
  | .processSignal s receiveNs _ =>
    if (validate m.signalConfig s receiveNs).valid ∧ !s.hasGroupId then
      some (storedOrderId m.arb.uuid.orderCounter) else none
  | .task t _ _ _ => some t.order.orderId
  | .finishFill f => (m.findOrder f.exchangeOrderId).map (·.1)
  | .arb _ | .onFill _ _ => none

/-- A task goes on, and leaves `orders_` as it is. -/
inductive SingleTask.Moves : SingleTask → SingleTask → Prop where
  | checked (o) : Moves (.check o) (.reserve o)
  | refused {t : SingleTask} (reason) : t = .check t.order ∨ t = .reserve t.order →
      Moves t (.storeRefused { t.order with status := .REJECTED, rejectReason := .copy 63 reason.bytes } reason)
  | reserved (o now) : Moves (.reserve o) (.store { o with status := .SENT, sentAtNs := now })
  | registered (o) : Moves (.register o) (.lookup o)
  | found (o) : Moves (.lookup o) (.send o.signal.exchange o)
  | missing (o) : Moves (.lookup o)
      (.storeRejected { o with
        status := .REJECTED, rejectReason := OrderManager.noGatewayReason o.signal.exchange })

/-- A task stores its order, and goes on. -/
inductive SingleTask.Stores : SingleTask → Order → Option SingleTask → Prop where
  | refused (o reason) : Stores (.storeRefused o reason) o none
  | sent (o) : Stores (.store o) o (some (.register o))
  | rejected (o) : Stores (.storeRejected o) o (some (.release o))

/-- What an event does to the view of the order `id`. -/
inductive SingleStep (m : OrderManager) (id : CStr 15) (v : SingleView) : ManagerEvent → SingleView → Prop where
  | other {e} : m.touched e ≠ some id → SingleStep m id v e v
  | enter {s receiveNs now} : Accepted m.signalConfig s receiveNs → s.hasGroupId = false →
      storedOrderId m.arb.uuid.orderCounter = id →
      SingleStep m id v (.processSignal s receiveNs now) { v with tasks := .check (m.newOrder s now) :: v.tasks }
  | move {t t' answers r now} : t ∈ v.tasks → t.Moves t' →
      SingleStep m id v (.task t answers r now) { v with tasks := t' :: v.tasks.erase t }
  | store {t o next answers r now} : t ∈ v.tasks → t.Stores o next →
      SingleStep m id v (.task t answers r now)
        { v with tasks := next.toList ++ v.tasks.erase t, order := some o }
  | release {o answers r now} : .release o ∈ v.tasks →
      SingleStep m id v (.task (.release o) answers r now) { v with tasks := v.tasks.erase (.release o) }
  | send {gw o answers r now} : .send gw o ∈ v.tasks →
      SingleStep m id v (.task (.send gw o) answers r now)
        { v with tasks := .result o :: v.tasks.erase (.send gw o), log := .sendOrder gw o :: v.log }
  | resultIdle {o answers r now} : .result o ∈ v.tasks → v.order = none →
      SingleStep m id v (.task (.result o) answers r now) { v with tasks := v.tasks.erase (.result o) }
  | result {o answers r now order} : .result o ∈ v.tasks → v.order = some order →
      SingleStep m id v (.task (.result o) answers r now)
        { v with tasks := v.tasks.erase (.result o), order := some (order.answeredBy o.signal.exchange r) }
  | rejected {f order} : m.findOrder f.exchangeOrderId = some (id, order) → v.order = some order →
      f.isReject = true →
      SingleStep m id v (.finishFill f) { v with order := some { order with status := .REJECTED } }
  | filled {f order} : m.findOrder f.exchangeOrderId = some (id, order) → v.order = some order →
      f.isReject = false →
      SingleStep m id v (.finishFill f)
        { v with order := some (order.filledBy f), log := .bookFill id order.signal f.fillPrice f.filledQty :: v.log }

namespace OrderManager

section
variable {m m' : OrderManager} {id : CStr 15} {e : ManagerEvent}

@[simp] theorem single_setArb (c : ArbCoordinator) : (m.setArb c).single id = m.single id := rfl

@[simp] theorem single_setResolver (r : ConflictResolver) : (m.setResolver r).single id = m.single id := rfl

@[simp] theorem single_release (s : Signal) : (m.release s).single id = m.single id := rfl

@[simp] theorem single_updateStatus (i : CStr 15) (status : OrderStatus) :
    (m.updateStatus i status).single id = m.single id := rfl

@[simp] theorem single_processed (r : ProcessResult) : (m.record (.processed r)).single id = m.single id := by
  simp [single, record, ManagerEffect.orderId]

theorem single_record_self {x : ManagerEffect} (h : x.orderId = some id) :
    (m.record x).single id = { m.single id with log := x :: (m.single id).log } := by
  simp [single, record, h]

theorem single_record_ne {x : ManagerEffect} (h : x.orderId ≠ some id) :
    (m.record x).single id = m.single id := by
  simp [single, record, h]

theorem single_setOrder_self (o : Order) :
    (m.setOrder id o).single id = { m.single id with order := some o } := by
  simp [single, setOrder]

theorem single_setOrder_ne {i : CStr 15} (h : i ≠ id) (o : Order) :
    (m.setOrder i o).single id = m.single id := by
  simp [single, setOrder, AList.lookup_insert_ne h.symm]

theorem single_spawn_self {ts : List SingleTask} (h : ∀ t ∈ ts, t.order.orderId = id) :
    (m.spawn ts).single id = { m.single id with tasks := ts ++ (m.single id).tasks } := by
  have : ts.filter (fun t => t.order.orderId = id) = ts := List.filter_eq_self.mpr fun t ht => by simp [h t ht]
  simp only [single, spawn, List.filter_append, this]

theorem single_spawn_ne {ts : List SingleTask} (h : ∀ t ∈ ts, t.order.orderId ≠ id) :
    (m.spawn ts).single id = m.single id := by
  have : ts.filter (fun t => t.order.orderId = id) = [] := List.filter_eq_nil_iff.mpr fun t ht => by simp [h t ht]
  simp only [single, spawn, List.filter_append, this, List.nil_append]

theorem single_drop_self (t : SingleTask) :
    (m.drop t).single id = { m.single id with tasks := (m.single id).tasks.erase t } := by
  simp only [single, drop, List.erase_filter]

theorem single_drop_ne {t : SingleTask} (h : t.order.orderId ≠ id) : (m.drop t).single id = m.single id := by
  simp only [single, drop, ← List.erase_filter]
  rw [List.erase_of_not_mem]
  simp [List.mem_filter, h]

theorem mem_tasks_single {t : SingleTask} (ht : t ∈ m.tasks) (h : t.order.orderId = id) :
    t ∈ (m.single id).tasks := List.mem_filter.mpr ⟨ht, by simpa using h⟩

theorem lookup_of_findOrder {x : CStr 31} {o : Order} (h : m.findOrder x = some (id, o)) :
    m.orders.lookup id = some o ∧ o.exchangeOrderId = x := by
  unfold findOrder at h
  obtain ⟨⟨i, o'⟩, hf, he⟩ := Option.map_eq_some_iff.mp h
  simp only [Prod.mk.injEq] at he
  obtain ⟨rfl, rfl⟩ := he
  exact ⟨AList.mem_lookup_iff.mpr (List.mem_of_find?_eq_some hf), by simpa using List.find?_some hf⟩

/-! ## An event about another order -/

theorem orderId_advance (answers : List (Option CancelResult)) (r : OrderResult) (now : Int) {t t' : SingleTask}
    (h : (m.advance answers r now t).2 = some t') : t'.order.orderId = t.order.orderId := by
  cases t <;> simp only [advance] at h <;> grind [SingleTask.order]

theorem single_sendResult_ne {o : Order} (h : o.orderId ≠ id) (r : OrderResult) :
    (m.sendResult o r).single id = m.single id := by
  unfold sendResult
  split
  · rfl
  · simp only
    split
    · exact single_setOrder_ne h _
    · rw [single_updateStatus, single_release, single_setOrder_ne h]

theorem single_advance_ne {t : SingleTask} (h : t.order.orderId ≠ id) (answers : List (Option CancelResult))
    (r : OrderResult) (now : Int) : (m.advance answers r now t).1.single id = m.single id := by
  cases t with
  | storeRefused o reason => simp only [advance, single_processed]; exact single_setOrder_ne h _
  | store o => exact single_setOrder_ne h _
  | lookup o => simp only [advance]; split <;> simp
  | storeRejected o => exact single_setOrder_ne h _
  | send gw o => exact single_record_ne fun he => h (Option.some.inj he)
  | result o => exact single_sendResult_ne h r
  | _ => simp [advance]

theorem single_step_ne (h : m.step e = some m') (ht : m.touched e ≠ some id) : m'.single id = m.single id := by
  cases e with
  | processSignal s receiveNs now =>
    cases h
    simp only [processSignal]
    split
    · simp
    · next hv =>
      split
      · simp
      · next hg =>
        rw [single_spawn_ne, single_setArb]
        intro t htm he
        rw [List.mem_singleton.mp htm] at he
        exact ht ((if_pos ⟨by simpa using hv, by simpa using hg⟩).trans (congrArg some he))
  | task t answers r now =>
    simp only [step] at h
    have hne : t.order.orderId ≠ id := fun he => ht (congrArg some he)
    split at h
    · cases h
      rw [single_spawn_ne, single_advance_ne hne, single_drop_ne hne]
      intro t' ht'
      rw [orderId_advance answers r now (Option.mem_toList.mp ht')]
      exact hne
    · cases h
  | arb a =>
    simp only [step] at h
    split at h
    · obtain ⟨c, -, rfl⟩ := Option.map_eq_some_iff.mp h
      simp
    · cases h
  | onFill f now => cases h; simp [onFill]
  | finishFill f =>
    cases h
    unfold finishFill
    simp only [touched] at ht
    split
    · rfl
    · next i o hf =>
      have hne : i ≠ id := fun he => ht (by rw [hf, Option.map_some, he])
      split
      · rw [single_release, single_setOrder_ne hne]
      · rw [single_updateStatus, bookFill, single_record_ne (by simpa [ManagerEffect.orderId] using hne),
          single_setArb, single_setOrder_ne hne]

/-! ## An event about the order -/

theorem single_task_self {t : SingleTask} (hid : t.order.orderId = id) (hm : t ∈ m.tasks)
    (answers : List (Option CancelResult)) (r : OrderResult) (now : Int) :
    SingleStep m id (m.single id) (.task t answers r now)
      ((((m.drop t).advance answers r now t).1.spawn ((m.drop t).advance answers r now t).2.toList).single id) := by
  have hv := mem_tasks_single hm hid
  have hnext : ∀ t' ∈ ((m.drop t).advance answers r now t).2.toList, t'.order.orderId = id := fun t' ht' =>
    (orderId_advance answers r now (Option.mem_toList.mp ht')).trans hid
  rw [single_spawn_self hnext]
  -- a task that goes on leaves the order, or it writes it
  have hmove : ∀ {t'}, ((m.drop t).advance answers r now t).2 = some t' → t.Moves t' →
      ((m.drop t).advance answers r now t).1.single id = (m.drop t).single id →
      SingleStep m id (m.single id) (.task t answers r now)
        { ((m.drop t).advance answers r now t).1.single id with
          tasks := ((m.drop t).advance answers r now t).2.toList ++
            (((m.drop t).advance answers r now t).1.single id).tasks } := by
    intro t' h₁ h₂ h₃
    rw [h₁, h₃, single_drop_self]
    exact .move hv h₂
  have hstore : ∀ {o next}, ((m.drop t).advance answers r now t).2 = next → t.Stores o next →
      ((m.drop t).advance answers r now t).1.single id = { (m.drop t).single id with order := some o } →
      SingleStep m id (m.single id) (.task t answers r now)
        { ((m.drop t).advance answers r now t).1.single id with
          tasks := ((m.drop t).advance answers r now t).2.toList ++
            (((m.drop t).advance answers r now t).1.single id).tasks } := by
    intro o next h₁ h₂ h₃
    rw [h₁, h₃, single_drop_self]
    exact .store hv h₂
  cases t with
  | check o =>
    refine hmove rfl ?_ (by simp [advance])
    split
    · exact .checked o
    · exact .refused _ (.inl rfl)
  | reserve o =>
    refine hmove rfl ?_ (by simp [advance])
    split
    · exact .reserved o now
    · exact .refused _ (.inr rfl)
  | storeRefused o reason =>
    refine hstore rfl (.refused o reason) ?_
    rw [← single_setOrder_self, ← hid]
    simp [advance, storeOrder, SingleTask.order]
  | store o =>
    refine hstore rfl (.sent o) ?_
    rw [← single_setOrder_self, ← hid]
    rfl
  | register o => exact hmove rfl (.registered o) (by simp [advance])
  | lookup o =>
    by_cases hg : m.arb.hasGateway o.signal.exchange = true
    · have hf : (m.drop (.lookup o)).arb.findGateway o.signal.exchange = some o.signal.exchange := if_pos hg
      refine hmove (by simp only [advance, hf]) (.found o) (by simp [advance, hf])
    · have hf : (m.drop (.lookup o)).arb.findGateway o.signal.exchange = none := if_neg hg
      refine hmove (by simp only [advance, hf]) (.missing o) (by simp [advance, hf])
  | storeRejected o =>
    refine hstore rfl (.rejected o) ?_
    rw [← single_setOrder_self, ← hid]
    rfl
  | release o =>
    simp only [advance, single_processed, single_release, Option.toList_none, List.nil_append]
    rw [single_drop_self]
    exact .release hv
  | send gw o =>
    have hr : ManagerEffect.orderId (.sendOrder gw o) = some id := congrArg some hid
    simp only [advance, single_record_self hr, Option.toList_some, List.singleton_append]
    rw [single_drop_self]
    exact .send hv
  | result o =>
    have hid' : o.orderId = id := hid
    simp only [advance, sendResult, Option.toList_none, List.nil_append]
    split
    · next hl =>
      rw [single_drop_self]
      exact .resultIdle hv (hid' ▸ hl)
    · next order hl =>
      have hset : ∀ m₀ : OrderManager, m₀ = m.drop (.result o) →
          (if r.success = true then m₀.setOrder o.orderId (order.answeredBy o.signal.exchange r)
            else ((m₀.setOrder o.orderId (order.answeredBy o.signal.exchange r)).release o.signal).updateStatus
              o.orderId .REJECTED).single id =
          { m.single id with
            tasks := (m.single id).tasks.erase (.result o),
            order := some (order.answeredBy o.signal.exchange r) } := by
        rintro m₀ rfl
        rw [hid']
        split
        · rw [single_setOrder_self, single_drop_self]
        · rw [single_updateStatus, single_release, single_setOrder_self, single_drop_self]
      rw [hset _ rfl]
      exact .result hv (hid' ▸ hl)

theorem single_finishFill_self {f : Fill} {order : Order} (hf : m.findOrder f.exchangeOrderId = some (id, order)) :
    SingleStep m id (m.single id) (.finishFill f) ((m.finishFill f).single id) := by
  have hl : (m.single id).order = some order := (lookup_of_findOrder hf).1
  simp only [finishFill, hf]
  cases hr : f.isReject with
  | true =>
    rw [if_pos rfl, single_release, single_setOrder_self]
    exact .rejected hf hl hr
  | false =>
    rw [if_neg (by decide), single_updateStatus, bookFill, single_record_self rfl, single_setArb,
      single_setOrder_self]
    exact .filled hf hl hr

/-- The inversion lemma. -/
theorem single_step (h : m.step e = some m') (id : CStr 15) : SingleStep m id (m.single id) e (m'.single id) := by
  by_cases ht : m.touched e = some id
  · cases e with
    | processSignal s receiveNs now =>
      cases h
      simp only [touched] at ht
      split at ht
      · next hv =>
        simp only [Option.some.injEq] at ht
        have hg : s.hasGroupId = false := by simpa using hv.2
        simp only [processSignal, hv.1, hg, Bool.not_true, Bool.false_eq_true, ite_false]
        rw [single_spawn_self]
        · exact .enter (validate_valid_iff.mp hv.1) hg ht
        · intro t htm
          rw [List.mem_singleton.mp htm]
          exact ht
      · cases ht
    | task t answers r now =>
      simp only [step] at h
      split at h
      · next hm => cases h; exact single_task_self (Option.some.inj ht) hm answers r now
      · cases h
    | arb a => cases ht
    | onFill f now => cases ht
    | finishFill f =>
      cases h
      obtain ⟨⟨i, order⟩, hf, rfl⟩ := Option.map_eq_some_iff.mp ht
      exact single_finishFill_self hf
  · rw [single_step_ne h ht]
    exact .other ht

end

end OrderManager

end OrderExecution
