import OrderExecution.ArbLedger

/-!
# The coordinator and the exchanges

`World` is the coordinator together with the gateways it sends to: an order
that was handed to a gateway is filled once, rejected once or neither, at any
later time, and messages about orders of other users of the gateways come in
between. The fills that the gateways deliver are kept in `fills`.
-/

namespace OrderExecution

open ArbCoordinator Machine

structure FillRecord where
  groupId : CStr 15
  role : LegRole
  order : Order
  qty : ℚ
  deriving DecidableEq

/-- `closed` are the orders whose one message was delivered or will never come,
`others` the ids drawn by other users of the generator. -/
structure World where
  arb : ArbCoordinator
  others : List (CStr 15) := []
  closed : List (CStr 15) := []
  fills : List FillRecord := []

def ArbEffect.IsSend (g : CStr 15) (role : LegRole) (o : Order) : ArbEffect → Prop
  | .sendOrder g' role' _ o' => g' = g ∧ role' = role ∧ o' = o
  | _ => False

instance (g : CStr 15) (role : LegRole) (o : Order) : ∀ x, Decidable (ArbEffect.IsSend g role o x)
  | .sendOrder g' role' _ o' => inferInstanceAs (Decidable (g' = g ∧ role' = role ∧ o' = o))
  | .dispatched _ | .startUnwind _ | .bookFill _ _ _ _ => isFalse id

def ArbCoordinator.Sent (c : ArbCoordinator) (g : CStr 15) (role : LegRole) (o : Order) : Prop :=
  ∃ x ∈ c.log, x.IsSend g role o

instance (c : ArbCoordinator) (g : CStr 15) (role : LegRole) (o : Order) : Decidable (c.Sent g role o) :=
  inferInstanceAs (Decidable (∃ x ∈ c.log, x.IsSend g role o))

inductive WorldEvent where
  /-- A step of the coordinator's own code. -/
  | code (e : ArbEvent)
  | message (g : CStr 15) (role : LegRole) (o : Order) (price qty : ℚ) (isReject : Bool) (now : Int)
  | noMessage (g : CStr 15) (role : LegRole) (o : Order)
  | otherMessage (isCex : Bool) (id : CStr 15) (price qty : ℚ) (isReject : Bool) (now : Int)
  deriving DecidableEq

def ArbEvent.isMessage : ArbEvent → Bool
  | .onFill _ _ _ _ _ => true
  | _ => false

/-- The step of the coordinator in it. -/
def WorldEvent.arbEvent : WorldEvent → Option ArbEvent
  | .code e => some e
  | .message _ _ o price qty isReject now => some (.onFill o.exchangeId price qty isReject now)
  | .noMessage _ _ _ => none
  | .otherMessage isCex id price qty isReject now =>
    some (.onFill (exchangeIdOf isCex id) price qty isReject now)

namespace World

def init (config : ArbConfig) (portfolio : PortfolioGuard) (hasGateway : Exchange → Bool) : World where
  arb := .init config portfolio hasGateway

def step (w : World) : WorldEvent → Option World
  | .code e =>
    if e.isMessage then none
    else (w.arb.step e).map fun c => { w with
      arb := c
      others := if e = .drawOrderId then storedOrderId w.arb.uuid.orderCounter :: w.others else w.others }
  | .message g role o price qty isReject now =>
    if w.arb.Sent g role o ∧ o.orderId ∉ w.closed then
      some { w with
        arb := w.arb.onFill o.exchangeId price qty isReject now
        closed := o.orderId :: w.closed
        fills := if isReject then w.fills else ⟨g, role, o, qty⟩ :: w.fills }
    else none
  | .noMessage g role o =>
    if w.arb.Sent g role o ∧ o.orderId ∉ w.closed then some { w with closed := o.orderId :: w.closed }
    else none
  | .otherMessage isCex id price qty isReject now =>
    if id ∈ w.others then
      some { w with arb := w.arb.onFill (exchangeIdOf isCex id) price qty isReject now }
    else none

def filled (W : Signal → ℚ → ℚ) (w : World) (g : CStr 15) (role : LegRole) : ℚ :=
  ((w.fills.filter fun r => r.groupId = g ∧ r.role = role).map fun r => W r.order.signal r.qty).sum

/-- A step `we` of the world from `w` to `w'`, with what it found. -/
inductive Steps (w : World) : WorldEvent → World → Prop
  | code {e c} : e.isMessage = false → w.arb.step e = some c → Steps w (.code e)
      { w with
        arb := c
        others := if e = .drawOrderId then storedOrderId w.arb.uuid.orderCounter :: w.others else w.others }
  | message {g role o price qty isReject now} : w.arb.Sent g role o → o.orderId ∉ w.closed →
      Steps w (.message g role o price qty isReject now)
        { w with
          arb := w.arb.onFill o.exchangeId price qty isReject now
          closed := o.orderId :: w.closed
          fills := if isReject then w.fills else ⟨g, role, o, qty⟩ :: w.fills }
  | noMessage {g role o} : w.arb.Sent g role o → o.orderId ∉ w.closed →
      Steps w (.noMessage g role o) { w with closed := o.orderId :: w.closed }
  | otherMessage {isCex id price qty isReject now} : id ∈ w.others →
      Steps w (.otherMessage isCex id price qty isReject now)
        { w with arb := w.arb.onFill (exchangeIdOf isCex id) price qty isReject now }

section
variable {w w' : World} {we : WorldEvent} {g : CStr 15}

theorem steps_of_step (h : w.step we = some w') : w.Steps we w' := by
  cases we with
  | code e =>
    simp only [step] at h
    split at h
    · cases h
    · next hm =>
      obtain ⟨c, hc, rfl⟩ := Option.map_eq_some_iff.mp h
      exact .code (Bool.not_eq_true _ ▸ hm) hc
  | message g role o price qty isReject now =>
    simp only [step] at h
    split at h <;> cases h
    next hc => exact .message hc.1 hc.2
  | noMessage g role o =>
    simp only [step] at h
    split at h <;> cases h
    next hc => exact .noMessage hc.1 hc.2
  | otherMessage isCex id price qty isReject now =>
    simp only [step] at h
    split at h <;> cases h
    next hid => exact .otherMessage hid

theorem arb_step (h : w.step we = some w') :
    (∃ e, we.arbEvent = some e ∧ w.arb.step e = some w'.arb ∧ w'.others =
      if e = .drawOrderId then storedOrderId w.arb.uuid.orderCounter :: w.others else w.others) ∨
    (we.arbEvent = none ∧ w'.arb = w.arb ∧ w'.others = w.others) := by
  cases steps_of_step h with
  | code _ hc => exact .inl ⟨_, rfl, hc, rfl⟩
  | message _ _ | otherMessage _ => exact .inl ⟨_, rfl, rfl, rfl⟩
  | noMessage _ _ => exact .inr ⟨rfl, rfl, rfl⟩

theorem sent_uses {c : ArbCoordinator} {role : LegRole} {o : Order} (h : c.Sent g role o) :
    (c.view g).Uses role o.orderId := by
  obtain ⟨x, hx, hs⟩ := h
  cases x with
  | sendOrder g' role' gw o' =>
    obtain ⟨rfl, rfl, rfl⟩ := hs
    refine .inr ⟨o', View.mem_orders.mpr (.inr (.inr ⟨_, List.mem_filter.mpr ⟨hx, ?_⟩, ?_⟩)), rfl⟩
    · simp [ArbEffect.groupId]
    · simp [ArbEffect.orders]
  | _ => exact hs.elim

theorem sent_log {c : ArbCoordinator} {role : LegRole} {o : Order} (h : c.Sent g role o) :
    ∃ gw, .sendOrder g role gw o ∈ (c.view g).log := by
  obtain ⟨x, hx, hs⟩ := h
  cases x with
  | sendOrder g' role' gw o' =>
    obtain ⟨rfl, rfl, rfl⟩ := hs
    exact ⟨gw, List.mem_filter.mpr ⟨hx, by simp [ArbEffect.groupId]⟩⟩
  | _ => exact hs.elim

/-- The pair's ledger is in order, and every fill is of an order that was sent,
at most one for each. -/
structure Ledger (W : Signal → ℚ → ℚ) (R : ℚ → ℚ → Prop) (g : CStr 15) (w : World) : Prop where
  tagged : Tagged w.arb w.others
  sent : ∀ r ∈ w.fills, w.arb.Sent r.groupId r.role r.order ∧ r.order.orderId ∈ w.closed
  once : (w.fills.map (·.order.orderId)).Nodup
  dispatched : .dispatched g ∈ (w.arb.view g).log ∨ (w.arb.view g).Undispatched g
  asAdded : (w.arb.view g).AsAdded w.arb.hasGateway g
  unwinding : (w.arb.view g).Unwinding → (w.arb.view g).unwindOrders ≠ []
  balanced : (w.arb.view g).Balanced W R w.arb.hasGateway (w.filled W g .cexLeg) (w.filled W g .dexLeg)

structure Keeps (R : ℚ → ℚ → Prop) (g : CStr 15) (w : World) (we : WorldEvent) : Prop where
  fewIds : w.arb.uuid.orderCounter < 10 ^ 11
  kept : ∀ e ∈ we.arbEvent, LegsKept g w.arb e
  covered : ∀ e ∈ we.arbEvent, LegsCovered R g w.arb e

variable {W : Signal → ℚ → ℚ} {R : ℚ → ℚ → Prop}

theorem message_unique (h : Tagged w.arb w.others) {g' g₀ : CStr 15} {role : LegRole} {o : Order}
    (hs : w.arb.Sent g' role o) {p : ArbPair} {b : Bool} (hf : w.arb.findLeg o.exchangeId = some (g₀, p, b)) :
    g₀ = g' ∧ legRole b = role := by
  obtain ⟨id, hx, hu⟩ := findLeg_uses hf
  obtain ⟨-, rfl⟩ := exchangeIdOf_inj ((Order.exchangeId_eq o).symm.trans hx)
  exact h.unique _ _ _ _ _ hu (sent_uses hs)

theorem Ledger.message_finds (h : w.Ledger W R g) {b : Bool} {o : Order} (hs : w.arb.Sent g (legRole b) o) :
    ∃ p, w.arb.findLeg o.exchangeId = some (g, p, b) ∧ o.signal = (p.leg b).signal := by
  obtain ⟨gw, hlog⟩ := sent_log hs
  obtain ⟨p, hp, hb, hid, hsig⟩ := h.asAdded.orders b o
    (View.mem_orders.mpr (.inr (.inr ⟨_, hlog, by simp [ArbEffect.orders]⟩)))
  have htyped : o.signal.isCexLeg = b := by
    rw [hsig]; exact h.asAdded.typed p b hp hb
  refine ⟨p, ?_, hsig⟩
  rw [Order.exchangeId_eq, htyped, hid]
  exact findLeg_leg h.tagged hp hb

theorem filled_cons (r : FillRecord) (w : World) (role : LegRole) :
    World.filled W { w with fills := r :: w.fills } g role =
      w.filled W g role + if r.groupId = g ∧ r.role = role then W r.order.signal r.qty else 0 := by
  unfold filled
  by_cases hr : r.groupId = g ∧ r.role = role
  · rw [if_pos hr, List.filter_cons_of_pos (by simpa using hr), List.map_cons, List.sum_cons, add_comm]
  · rw [if_neg hr, List.filter_cons_of_neg (by simpa using hr), add_zero]

theorem Ledger.filled_step (h : w.Ledger W R g) (hs : w.step we = some w') (b : Bool) :
    w'.filled W g (legRole b) =
      w.filled W g (legRole b) + (we.arbEvent.map (legFill W w.arb g b)).getD 0 := by
  cases steps_of_step hs with
  | @code e _ hm _ =>
    have : legFill W w.arb g b e = 0 := by
      cases e with
      | onFill x price qty isReject now => cases hm
      | _ => rfl
    simp only [WorldEvent.arbEvent, Option.map_some, Option.getD_some, this, add_zero]
    rfl
  | @message g' role o price qty isReject now hsent _ =>
    simp only [WorldEvent.arbEvent, Option.map_some, Option.getD_some]
    cases isReject with
    | true => rw [legFill_reject, add_zero]; rfl
    | false =>
      simp only [Bool.false_eq_true, ite_false]
      refine (filled_cons ⟨g', role, o, qty⟩ w (legRole b)).trans (congrArg _ ?_)
      by_cases hr : g' = g ∧ role = legRole b
      · obtain ⟨rfl, rfl⟩ := hr
        obtain ⟨p, hf, hsig⟩ := h.message_finds hsent
        rw [if_pos ⟨rfl, rfl⟩, legFill_fill hf, if_pos rfl, hsig]
      · -- no leg of another pair or role has the order's exchange id
        rw [if_neg hr]
        simp only [legFill]
        split
        · rfl
        · next g₀ p b₀ hf =>
          obtain ⟨rfl, hb⟩ := message_unique h.tagged hsent hf
          rw [if_neg]
          rintro ⟨rfl, rfl, -⟩
          exact hr ⟨rfl, hb.symm⟩
  | noMessage _ _ =>
    simp only [WorldEvent.arbEvent, Option.map_none, Option.getD_none, add_zero]
    rfl
  | @otherMessage isCex id price qty isReject now hid =>
    have : legFill W w.arb g b (.onFill (exchangeIdOf isCex id) price qty isReject now) = 0 := by
      simp only [legFill]
      split
      · rfl
      · next g₀ p b₀ hf =>
        obtain ⟨id', hx, hu⟩ := findLeg_uses hf
        obtain ⟨-, rfl⟩ := exchangeIdOf_inj hx
        exact absurd hid (h.tagged.apart _ _ _ hu)
    simp only [WorldEvent.arbEvent, Option.map_some, Option.getD_some, this, add_zero]
    rfl

theorem Ledger.fills_step (h : w.Ledger W R g) (hs : w.step we = some w') :
    (∀ r ∈ w'.fills, w'.arb.Sent r.groupId r.role r.order ∧ r.order.orderId ∈ w'.closed) ∧
      (w'.fills.map (·.order.orderId)).Nodup := by
  have hlog : ∀ {g role o}, w.arb.Sent g role o → w'.arb.Sent g role o := by
    rintro g role o ⟨x, hx, hsend⟩
    rcases arb_step hs with ⟨e, -, he, -⟩ | ⟨-, he, -⟩
    · exact ⟨x, log_mono h.tagged.keyed he hx, hsend⟩
    · exact ⟨x, he ▸ hx, hsend⟩
  -- a step adds one fill at most, of an order that was not closed before
  suffices hnew : (∀ r ∈ w'.fills, r ∈ w.fills ∨
      w.arb.Sent r.groupId r.role r.order ∧ r.order.orderId ∈ w'.closed ∧ r.order.orderId ∉ w.closed) ∧
      w.closed ⊆ w'.closed ∧
      (w'.fills = w.fills ∨ ∃ r, w'.fills = r :: w.fills ∧ r.order.orderId ∉ w.closed) by
    obtain ⟨hmem, hsub, hfills⟩ := hnew
    refine ⟨fun r hr => ?_, ?_⟩
    · rcases hmem r hr with hr | ⟨hsent, hcl, -⟩
      · exact ⟨hlog (h.sent r hr).1, hsub (h.sent r hr).2⟩
      · exact ⟨hlog hsent, hcl⟩
    · rcases hfills with he | ⟨r, he, hr⟩
      · rw [he]; exact h.once
      · rw [he, List.map_cons, List.nodup_cons]
        refine ⟨fun hm => ?_, h.once⟩
        obtain ⟨r', hr', hid⟩ := List.mem_map.mp hm
        exact hr (hid ▸ (h.sent r' hr').2)
  cases steps_of_step hs with
  | code _ _ | otherMessage _ => exact ⟨fun r hr => .inl hr, List.Subset.refl _, .inl rfl⟩
  | @message g' role o price qty isReject now hsent hopen =>
    cases isReject with
    | true => exact ⟨fun r hr => .inl hr, List.subset_cons_self .., .inl rfl⟩
    | false =>
      refine ⟨fun r hr => ?_, List.subset_cons_self .., .inr ⟨⟨g', role, o, qty⟩, rfl, hopen⟩⟩
      rcases List.mem_cons.mp hr with rfl | hr
      · exact .inr ⟨hsent, List.mem_cons_self .., hopen⟩
      · exact .inl hr
  | noMessage _ _ => exact ⟨fun r hr => .inl hr, List.subset_cons_self .., .inl rfl⟩

theorem Ledger.message_sent (h : w.Ledger W R g) (hs : w.step we = some w') {x : Bytes} {price qty : ℚ}
    {isReject : Bool} {now : Int} {p : ArbPair} {b : Bool} (he : we.arbEvent = some (.onFill x price qty isReject now))
    (hf : w.arb.findLeg x = some (g, p, b)) : ∃ gw o, .sendOrder g (legRole b) gw o ∈ (w.arb.view g).log := by
  cases steps_of_step hs with
  | code hm _ => cases he; cases hm
  | @message _ _ o _ _ _ _ hsent _ =>
    cases he
    obtain ⟨rfl, rfl⟩ := message_unique h.tagged hsent hf
    obtain ⟨gw, hlog⟩ := sent_log hsent
    exact ⟨gw, o, hlog⟩
  | noMessage _ _ => cases he
  | otherMessage hid =>
    cases he
    obtain ⟨id', hx, hu⟩ := findLeg_uses hf
    obtain ⟨-, rfl⟩ := exchangeIdOf_inj hx
    exact absurd hid (h.tagged.apart _ _ _ hu)

theorem Ledger.filled_undispatched (h : w.Ledger W R g) (hu : (w.arb.view g).Undispatched g) (role : LegRole) :
    w.filled W g role = 0 := by
  have hnil : (w.fills.filter fun r => r.groupId = g ∧ r.role = role) = [] := by
    refine List.filter_eq_nil_iff.mpr fun r hr hc => ?_
    simp only [Bool.decide_and, Bool.and_eq_true, decide_eq_true_eq] at hc
    obtain ⟨gw, hlog⟩ := sent_log (h.sent r hr).1
    rw [hc.1, hu.log] at hlog
    cases hlog
  rw [filled, hnil]
  rfl

theorem Ledger.step (h : w.Ledger W R g) (hW : Cancels W) (hk : w.Keeps R g we) (hs : w.step we = some w') :
    w'.Ledger W R g := by
  obtain ⟨hsent, honce⟩ := h.fills_step hs
  have hcex := h.filled_step hs true
  have hdex := h.filled_step hs false
  rcases arb_step hs with ⟨e, he, hstep, hoth⟩ | ⟨he, harb, hoth⟩
  · have hgw : w'.arb.hasGateway = w.arb.hasGateway := hasGateway_step hstep
    have hview := step_view h.tagged.keyed hstep g
    have hkept := hk.kept e he
    have hlog : .dispatched g ∈ (w.arb.view g).log → .dispatched g ∈ w.arb.log := List.mem_of_mem_filter
    simp only [he, Option.map_some, Option.getD_some] at hcex hdex
    refine ⟨?_, hsent, honce, ?_, ?_, ?_, ?_⟩
    · rw [hoth]; exact h.tagged.step hk.fewIds hstep
    · refine hview.dispatched h.dispatched ?_
      rintro x price qty isReject now p b rfl hf
      obtain ⟨gw, o, hx⟩ := h.message_sent hs he hf
      exact List.ne_nil_of_mem hx
    · rw [hgw]
      exact h.asAdded.step hview rfl (h.tagged.complete g) hkept (h.dispatched.imp_left hlog)
    · refine hview.unwinding_orders (fun w hw => ?_) h.unwinding
      simpa using (List.mem_filter.mp hw).2
    · rw [hgw, show LegRole.cexLeg = legRole true from rfl, show LegRole.dexLeg = legRole false from rfl, hcex, hdex]
      refine h.balanced.step hW hview rfl (h.tagged.complete g) h.asAdded h.unwinding hkept
        (h.dispatched.imp hlog fun hu => ⟨hu, h.filled_undispatched hu _, h.filled_undispatched hu _⟩)
        (hk.covered e he) ?_
      rintro x price qty now p rfl hf
      exact .inl (h.message_sent hs he hf)
  · simp only [he, Option.map_none, Option.getD_none, add_zero] at hcex hdex
    refine ⟨?_, hsent, honce, ?_, ?_, ?_, ?_⟩
    · rw [harb, hoth]; exact h.tagged
    · rw [harb]; exact h.dispatched
    · rw [harb]; exact h.asAdded
    · rw [harb]; exact h.unwinding
    · rw [harb, show LegRole.cexLeg = legRole true from rfl, show LegRole.dexLeg = legRole false from rfl, hcex, hdex]
      exact h.balanced

end

end World

end OrderExecution
