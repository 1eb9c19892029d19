import OrderExecution.Attribution
import OrderExecution.Machine

/-!
# A cancel and a fill of one order

A gateway looks at its set of cancelled orders in one critical section and
makes the callback in another, and `cancel_order` looks at neither. A cancel
that comes before the look keeps the fill away; a later one is confirmed all
the same.
-/

namespace OrderExecution

open Machine

inductive MockGateway where
  | cex (gw : MockCexGateway)
  | dex (gw : MockDexGateway)

namespace MockGateway

def cancelledOrders : MockGateway → List Bytes
  | .cex gw => gw.cancelledOrders
  | .dex gw => gw.cancelledOrders

def sendOrder (o : Order) (txHash : CStr 31) (draw : ℚ) (latencyNs : Int) : MockGateway → OrderResult
  | .cex gw => gw.sendOrder o draw latencyNs
  | .dex _ => MockDexGateway.sendOrder o txHash latencyNs

def cancelOrder (exchangeOrderId : Bytes) : MockGateway → MockGateway × CancelResult
  | .cex gw => (.cex (gw.cancelOrder exchangeOrderId).1, (gw.cancelOrder exchangeOrderId).2)
  | .dex gw => (.dex (gw.cancelOrder exchangeOrderId).1, (gw.cancelOrder exchangeOrderId).2)

/-- What the scheduled thread does up to its callback. -/
def confirm (o : Order) (txHash : CStr 31) (draw : ℚ) (now : Int) : MockGateway → Option Fill
  | .cex gw => gw.scheduleFill o now
  | .dex gw => gw.scheduleBlockConfirm o txHash draw now

section
variable {gw : MockGateway} {o : Order} {f : Fill} {txHash : CStr 31} {draw : ℚ} {now : Int} {id : Bytes}

theorem confirm_not_cancelled (h : f ∈ gw.confirm o txHash draw now) :
    f.exchangeOrderId.bytes ∉ gw.cancelledOrders := by
  cases gw with
  | cex gw =>
    have hf : f ∈ gw.scheduleFill o now := h
    unfold MockCexGateway.scheduleFill at hf
    split at hf
    · cases hf
    · next hc =>
      rw [← Option.some.inj hf]
      simp only [bytes_copy_exIdOf]
      exact hc
  | dex gw =>
    have hf : f ∈ gw.scheduleBlockConfirm o txHash draw now := h
    unfold MockDexGateway.scheduleBlockConfirm at hf
    split at hf
    · cases hf
    · next hc =>
      split at hf <;> rw [← Option.some.inj hf] <;> simp only [bytes_copy_hlIdOf] <;> exact hc

theorem cancelOrder_cancelled : (gw.cancelOrder id).1.cancelledOrders = id :: gw.cancelledOrders := by
  cases gw <;> rfl

theorem cancelOrder_success : (gw.cancelOrder id).2.success = true := by
  cases gw <;> rfl

end

end MockGateway

/-- A gateway and its threads. `threads` have not looked at the cancelled orders
yet, `callbacks` have and are about to report a fill. `confirmed` and `fills` are
what the callers have seen: the ids of the successful cancels, and the fills. -/
structure GatewayState where
  gateway : MockGateway
  threads : List (Order × CStr 31) := []
  callbacks : List Fill := []
  confirmed : List Bytes := []
  fills : List Fill := []

inductive GatewayEvent where
  | sendOrder (o : Order) (txHash : CStr 31) (draw : ℚ) (latencyNs : Int)
  | check (o : Order) (txHash : CStr 31) (draw : ℚ) (now : Int)
  | callback (f : Fill)
  | cancelOrder (exchangeOrderId : Bytes)

namespace GatewayState

def step (s : GatewayState) : GatewayEvent → Option GatewayState
  | .sendOrder o txHash draw latencyNs =>
    -- a rejected order starts no thread
    if (s.gateway.sendOrder o txHash draw latencyNs).success then
      some { s with threads := (o, txHash) :: s.threads }
    else some s
  | .check o txHash draw now =>
    if (o, txHash) ∈ s.threads then
      some { s with
        threads := s.threads.erase (o, txHash)
        callbacks := (s.gateway.confirm o txHash draw now).toList ++ s.callbacks }
    else none
  | .callback f =>
    if f ∈ s.callbacks then some { s with callbacks := s.callbacks.erase f, fills := f :: s.fills } else none
  | .cancelOrder id =>
    let (gateway, result) := s.gateway.cancelOrder id
    some { s with
      gateway := gateway
      confirmed := if result.success then id :: s.confirmed else s.confirmed }

/-- No fill of a positive quantity has the id. -/
def NoFill (fills : List Fill) (id : Bytes) : Prop :=
  ∀ f ∈ fills, f.exchangeOrderId.bytes = id → f.filledQty ≤ 0

instance (fills : List Fill) (id : Bytes) : Decidable (NoFill fills id) :=
  inferInstanceAs (Decidable (∀ f ∈ fills, _))

/-- No order has both a confirmed cancel and a fill. -/
def Exclusive (s : GatewayState) : Prop := ∀ id ∈ s.confirmed, NoFill s.fills id

instance (s : GatewayState) : Decidable s.Exclusive := inferInstanceAs (Decidable (∀ id ∈ s.confirmed, _))

/-- A cancel comes before the thread of its order has found the order uncancelled. -/
def InTime (s : GatewayState) : GatewayEvent → Prop
  | .cancelOrder id => NoFill s.callbacks id ∧ NoFill s.fills id
  | _ => True

instance (s : GatewayState) : (e : GatewayEvent) → Decidable (s.InTime e)
  | .cancelOrder id => inferInstanceAs (Decidable (NoFill s.callbacks id ∧ NoFill s.fills id))
  | .sendOrder .. => isTrue trivial
  | .check .. => isTrue trivial
  | .callback .. => isTrue trivial

section
variable {s s' t : GatewayState} {e : GatewayEvent} {es : List GatewayEvent} {id : Bytes} {f : Fill}

theorem step_sendOrder {o : Order} {txHash : CStr 31} {draw : ℚ} {latencyNs : Int}
    (hs : s.step (.sendOrder o txHash draw latencyNs) = some s') :
    ∃ threads, s' = { s with threads := threads } := by
  unfold step at hs
  simp only at hs
  split at hs
  · exact ⟨_, (Option.some.inj hs).symm⟩
  · exact ⟨s.threads, (Option.some.inj hs).symm⟩

theorem step_check {o : Order} {txHash : CStr 31} {draw : ℚ} {now : Int}
    (hs : s.step (.check o txHash draw now) = some s') : ∃ threads, s' = { s with
      threads := threads, callbacks := (s.gateway.confirm o txHash draw now).toList ++ s.callbacks } := by
  unfold step at hs
  simp only at hs
  split at hs
  · exact ⟨_, (Option.some.inj hs).symm⟩
  · cases hs

theorem step_callback (hs : s.step (.callback f) = some s') :
    f ∈ s.callbacks ∧ s' = { s with callbacks := s.callbacks.erase f, fills := f :: s.fills } := by
  unfold step at hs
  simp only at hs
  split at hs
  · next hf => exact ⟨hf, (Option.some.inj hs).symm⟩
  · cases hs

/-- Every cancel is confirmed. -/
theorem step_cancelOrder (hs : s.step (.cancelOrder id) = some s') :
    s' = { s with gateway := (s.gateway.cancelOrder id).1, confirmed := id :: s.confirmed } := by
  have hstep : some { s with
      gateway := (s.gateway.cancelOrder id).1
      confirmed := if (s.gateway.cancelOrder id).2.success then id :: s.confirmed else s.confirmed } = some s' := hs
  rw [MockGateway.cancelOrder_success, if_pos rfl] at hstep
  exact (Option.some.inj hstep).symm

theorem NoFill.sub {l l' : List Fill} (h : NoFill l id) (hsub : ∀ f ∈ l', f ∈ l) : NoFill l' id :=
  fun f hf => h f (hsub f hf)

theorem NoFill.append {l l' : List Fill} (h : NoFill l id) (h' : NoFill l' id) : NoFill (l ++ l') id := by
  intro f hf
  rcases List.mem_append.mp hf with hf | hf
  · exact h f hf
  · exact h' f hf

theorem NoFill.cons {l : List Fill} (hf : f.exchangeOrderId.bytes = id → f.filledQty ≤ 0) (h : NoFill l id) :
    NoFill (f :: l) id := by
  intro f' hf'
  rcases List.mem_cons.mp hf' with rfl | hf'
  · exact hf
  · exact h f' hf'

/-- What the gateway has confirmed it has in its set, and no thread that looked
at the set is about to fill it. -/
structure Inv (s : GatewayState) : Prop where
  recorded : ∀ id ∈ s.confirmed, id ∈ s.gateway.cancelledOrders
  pending : ∀ id ∈ s.confirmed, NoFill s.callbacks id
  exclusive : s.Exclusive

theorem inv_init (gw : MockGateway) : Inv { gateway := gw } where
  recorded := fun _ h => by cases h
  pending := fun _ h => by cases h
  exclusive := fun _ h => by cases h

theorem Inv.step (h : s.Inv) (ht : s.InTime e) (hs : s.step e = some s') : s'.Inv := by
  cases e with
  | sendOrder o txHash draw latencyNs =>
    obtain ⟨threads, rfl⟩ := step_sendOrder hs
    exact ⟨h.recorded, h.pending, h.exclusive⟩
  | check o txHash draw now =>
    obtain ⟨threads, rfl⟩ := step_check hs
    refine ⟨h.recorded, fun id hid => ?_, h.exclusive⟩
    refine NoFill.append (fun f hf hfid => ?_) (h.pending id hid)
    have hnot : f.exchangeOrderId.bytes ∉ s.gateway.cancelledOrders :=
      MockGateway.confirm_not_cancelled (Option.mem_toList.mp hf)
    exact absurd (hfid ▸ h.recorded id hid) hnot
  | callback f =>
    obtain ⟨hf, rfl⟩ := step_callback hs
    refine ⟨h.recorded, fun id hid => (h.pending id hid).sub fun _ => List.mem_of_mem_erase, fun id hid => ?_⟩
    exact (h.exclusive id hid).cons (h.pending id hid f hf)
  | cancelOrder id =>
    obtain rfl := step_cancelOrder hs
    obtain ⟨hcallbacks, hfills⟩ := ht
    refine ⟨fun x hx => ?_, fun x hx => ?_, fun x hx => ?_⟩
    · rw [MockGateway.cancelOrder_cancelled]
      rcases List.mem_cons.mp hx with rfl | hx
      · exact List.mem_cons_self ..
      · exact List.mem_cons_of_mem _ (h.recorded x hx)
    · rcases List.mem_cons.mp hx with rfl | hx
      · exact hcallbacks
      · exact h.pending x hx
    · rcases List.mem_cons.mp hx with rfl | hx
      · exact hfills
      · exact h.exclusive x hx

/-- The fills of the threads that found their order uncancelled. -/
def passed (s : GatewayState) : List Fill := s.callbacks ++ s.fills

/-- `s'` knows of the cancels and the fills that `s` knows of. -/
structure Extends (s s' : GatewayState) : Prop where
  confirmed : ∀ id ∈ s.confirmed, id ∈ s'.confirmed
  passed : ∀ f ∈ s.passed, f ∈ s'.passed

theorem step_extends (hs : s.step e = some s') : s.Extends s' := by
  cases e with
  | sendOrder o txHash draw latencyNs =>
    obtain ⟨threads, rfl⟩ := step_sendOrder hs
    exact ⟨fun _ h => h, fun _ h => h⟩
  | check o txHash draw now =>
    obtain ⟨threads, rfl⟩ := step_check hs
    refine ⟨fun _ h => h, fun f hf => ?_⟩
    unfold passed
    rw [List.append_assoc]
    exact List.mem_append_right _ hf
  | callback f =>
    obtain ⟨-, rfl⟩ := step_callback hs
    refine ⟨fun _ h => h, fun f' hf' => ?_⟩
    unfold passed at hf' ⊢
    rcases List.mem_append.mp hf' with hf' | hf'
    · by_cases hff : f' = f
      · exact List.mem_append_right _ (hff ▸ List.mem_cons_self ..)
      · exact List.mem_append_left _ ((List.mem_erase_of_ne hff).mpr hf')
    · exact List.mem_append_right _ (List.mem_cons_of_mem _ hf')
  | cancelOrder id =>
    obtain rfl := step_cancelOrder hs
    exact ⟨fun _ h => List.mem_cons_of_mem _ h, fun _ h => h⟩

theorem run_extends (hr : run step s es = some s') : s.Extends s' := by
  induction es generalizing s with
  | nil =>
    obtain rfl := Option.some.inj hr
    exact ⟨fun _ h => h, fun _ h => h⟩
  | cons e es ih =>
    obtain ⟨t, ht, hr⟩ := run_cons hr
    have h := step_extends ht
    have h' := ih hr
    exact ⟨fun id hid => h'.confirmed id (h.confirmed id hid), fun f hf => h'.passed f (h.passed f hf)⟩

/-- Once the callbacks are made, a cancel that came too late shows. -/
theorem Exclusive.inTime (h : s'.Exclusive) (hdone : s'.callbacks = []) (ht : s.step e = some t)
    (hr : run step t es = some s') : s.InTime e := by
  cases e with
  | sendOrder o txHash draw latencyNs => trivial
  | check o txHash draw now => trivial
  | callback f => trivial
  | cancelOrder id =>
    have hconfirmed : id ∈ s'.confirmed := by
      refine (run_extends hr).confirmed id ?_
      obtain rfl := step_cancelOrder ht
      exact List.mem_cons_self ..
    have hpassed : NoFill s.passed id := by
      intro f hf
      have hf' : f ∈ s'.passed := (run_extends hr).passed f ((step_extends ht).passed f hf)
      unfold passed at hf'
      rw [hdone, List.nil_append] at hf'
      exact h id hconfirmed f hf'
    exact ⟨hpassed.sub fun _ => List.mem_append_left _, hpassed.sub fun _ => List.mem_append_right _⟩

/-- Cancels in time exclude fills, in every state of the run; and once the
callbacks are made, only they do. -/
theorem cancel_excludes_fill_iff (gw : MockGateway) (es : List GatewayEvent) (s : GatewayState)
    (hr : run step { gateway := gw } es = some s) :
    (Along step InTime { gateway := gw } es → s.Exclusive) ∧
      (s.callbacks = [] → (s.Exclusive ↔ Along step InTime { gateway := gw } es)) := by
  have henough : Along step InTime { gateway := gw } es → s.Exclusive := fun h =>
    (inv_along (fun _ _ _ hI hC hs => hI.step hC hs) h (inv_init gw) hr).exclusive
  refine ⟨henough, fun hdone => ⟨fun h => along_iff.mpr fun es₁ e es₂ t he ht => ?_, henough⟩⟩
  rw [he] at hr
  obtain ⟨u, hu, hr⟩ := run_append_some hr
  rw [ht] at hu
  obtain rfl := Option.some.inj hu
  obtain ⟨v, hv, hr⟩ := run_cons hr
  exact h.inTime hdone hv hr

end

end GatewayState

namespace Sample

open GatewayState

def workingOrder : Order := { orderId := storedOrderId 1, signal := single, status := .SENT }

def workingFill : Fill :=
  { exchangeOrderId := .copy 31 (exIdOf (storedOrderId 1)), filledQty := 1, fillPrice := 100, isFinal := true }

/-- The thread finds the order uncancelled and only then reports the fill. -/
def lateCancel : List GatewayEvent :=
  [.sendOrder workingOrder .empty 1 0, .check workingOrder .empty 1 0, .cancelOrder (exIdOf (storedOrderId 1)),
    .callback workingFill]

def earlyCancel : List GatewayEvent :=
  [.sendOrder workingOrder .empty 1 0, .cancelOrder (exIdOf (storedOrderId 1)), .check workingOrder .empty 1 0]

def outcome (es : List GatewayEvent) : GatewayState :=
  (run step { gateway := .cex {} } es).getD { gateway := .cex {} }

theorem cancel_excludes_fill_early : (outcome earlyCancel).Exclusive :=
  (cancel_excludes_fill_iff (.cex {}) earlyCancel (outcome earlyCancel) rfl).1 (by decide +kernel)

theorem not_cancel_excludes_fill : ¬ ∀ (gw : MockGateway) (es : List GatewayEvent) (s : GatewayState),
    run step { gateway := gw } es = some s → s.Exclusive := by
  intro h
  have hlate : (outcome lateCancel).Exclusive := h (.cex {}) lateCancel (outcome lateCancel) rfl
  exact absurd hlate (by decide +kernel)

end Sample

end OrderExecution
