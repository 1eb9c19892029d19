import OrderExecution.ArbMargin
import OrderExecution.MarketSteps

/-!
# A single-leg order that is sent and filled once

The send result and the fill come from two threads. Only the send result writes
the exchange id by which the fill finds the order, so a fill that is looked up
first finds nothing: it is booked nowhere, and the order stays in flight.
-/

namespace OrderExecution

open ArbCoordinator Machine SignalReceiver

/-- `PortfolioGuard::on_fill` for the order. -/
def ManagerEffect.books (id : CStr 15) : ManagerEffect → Bool
  | .bookFill i _ _ _ => i = id
  | .processed _ | .sendOrder _ _ => false

namespace Market

/-- The order is filled, its fill is booked once, and its margin is reserved no
more. -/
def FilledOnce (m : Market) (o : Order) : Prop :=
  (m.om.orders.lookup o.orderId).map (·.status) = some .FILLED ∧ m.om.log.countP (·.books o.orderId) = 1 ∧
    m.om.arb.portfolio.reservedUnder (marginKey o.signal) = none

instance (m : Market) (o : Order) : Decidable (m.FilledOnce o) := inferInstanceAs (Decidable (_ ∧ _ ∧ _))

/-- No signal but the order's has its margin key. -/
def OwnKey (o : Order) (m : Market) : MarketEvent → Prop
  | .code (.processSignal s _ _) => marginKey s = marginKey o.signal →
      s.hasGroupId = false ∧ storedOrderId m.om.arb.uuid.orderCounter = o.orderId
  | _ => True

instance (o : Order) (m : Market) : ∀ e, Decidable (OwnKey o m e)
  | .code (.processSignal s _ _) => inferInstanceAs (Decidable (marginKey s = marginKey o.signal →
      s.hasGroupId = false ∧ storedOrderId m.om.arb.uuid.orderCounter = o.orderId))
  | .code (.task _ _ _ _) | .code (.arb _) | .code (.onFill _ _) | .code (.finishFill _) => isTrue trivial
  | .legMessage _ _ _ _ _ | .noLegMessage _ _ _ | .message _ _ _ | .noMessage _ | .finish _ _ => isTrue trivial

/-- The send result of the order is processed before a fill of it is looked up. -/
def ResultFirst (o : Order) (es : List MarketEvent) : Prop :=
  ∃ es₁ es₂ answers r now, es = es₁ ++ .code (.task (.result o) answers r now) :: es₂ ∧ ∀ f, .finish o f ∉ es₁

/-! ## The margin of the order -/

/-- Only the order's own task can reserve under its key. -/
structure OwnsKey (o : Order) (m : Market) : Prop where
  wf : m.om.arb.portfolio.Wf
  tasks : ∀ t ∈ m.om.tasks, marginKey t.order.signal = marginKey o.signal → t.order.orderId = o.orderId
  legs : ∀ g p b, m.om.arb.pairs.lookup g = some p → p.hasLeg b = true →
    marginKey (p.leg b).signal ≠ marginKey o.signal

section
variable {m m' : Market} {me : MarketEvent} {o : Order}

theorem OwnsKey.step (h : OwnsKey o m) (ho : m.Orderly) (hown : OwnKey o m me) (hs : m.step me = some m') :
    OwnsKey o m' where
  wf := by
    rcases arb_step hs with ⟨-, harb⟩ | ⟨a, -, hstep⟩
    · rw [harb]; exact h.wf
    · rw [portfolio_step hstep]; exact h.wf.applyAll _
  tasks := by
    intro t ht hk
    rcases om_step hs with ⟨-, hom⟩ | ⟨e, he, hom⟩
    · exact h.tasks t (hom ▸ ht) hk
    · rcases OrderManager.task_origin hom ht with ⟨t₀, ht₀, hid, hsig⟩ | ⟨receiveNs, now, rfl, -, hid⟩
      · rw [← hid]
        exact h.tasks t₀ ht₀ (by rw [hsig]; exact hk)
      · cases me <;> cases he
        rw [hid]
        exact (hown hk).2
  legs := by
    intro g p b hp hb
    rcases arb_step hs with ⟨-, harb⟩ | ⟨a, ha, hstep⟩
    · exact h.legs g p b (harb ▸ hp) hb
    · rcases (step_view ho.tagged.keyed hstep g).leg_origin hp hb with
        ⟨q, hq, hbq, -, hsig⟩ | ⟨s, now, rfl, -, -, -, hsig⟩
      · rw [hsig]
        exact h.legs g q b hq hbq
      · rw [hsig]
        intro hk
        rcases om_step hs with ⟨hnone, -⟩ | ⟨e, he, hom⟩
        · rw [arbEvent, hnone] at ha; cases ha
        · rw [arbEvent, he, Option.bind_some] at ha
          obtain ⟨receiveNs, rfl, -, hg⟩ := OrderManager.arbEvent_addLeg hom ha
          cases me <;> cases he
          exact absurd (hown hk).1 (by rw [hg]; decide)

theorem OwnsKey.unreserved_step (h : OwnsKey o m) (ho : m.Orderly) (hs : m.step me = some m')
    (ht : (m.om.single o.orderId).tasks = [])
    (hk : m.om.arb.portfolio.reservedUnder (marginKey o.signal) = none) :
    m'.om.arb.portfolio.reservedUnder (marginKey o.signal) = none := by
  rcases arb_step hs with ⟨-, harb⟩ | ⟨a, ha, hstep⟩
  · rw [harb]; exact hk
  · rw [portfolio_step hstep]
    by_cases hop : ∃ op, a = .portfolio op
    · obtain ⟨op, rfl⟩ := hop
      simp only [guardOps, PortfolioGuard.applyAll_cons, PortfolioGuard.applyAll_nil]
      have hcase : op.frees = true ∨ ∃ s, op = .checkAndReserve s ∧ marginKey o.signal ≠ marginKey s := by
        rcases om_step hs with ⟨hnone, -⟩ | ⟨e, he, hom⟩
        · rw [arbEvent, hnone] at ha; cases ha
        · rw [arbEvent, he, Option.bind_some] at ha
          rcases OrderManager.arbEvent_portfolio hom ha with ⟨o', ho', rfl | rfl⟩ | ⟨f, i, o', rfl, -, rfl⟩
          · refine .inr ⟨_, rfl, fun hkey => ?_⟩
            obtain ⟨t, hm, rfl⟩ := List.mem_map.mp ho'
            have hm' := OrderManager.mem_tasks_single hm (h.tasks t hm hkey.symm)
            rw [ht] at hm'
            cases hm'
          · exact .inl rfl
          · left
            split <;> rfl
      rcases hcase with hf | ⟨s, rfl, hne⟩
      · exact PortfolioGuard.reservedUnder_frees_none h.wf hf hk
      · rw [PortfolioGuard.reservedUnder_apply_ne h.wf (by simpa [GuardOp.signals] using hne)]
        exact hk
    · rw [PortfolioGuard.reservedUnder_applyAll_ne h.wf]
      · exact hk
      · intro op hmem s hsig hkey
        obtain ⟨g, p, b, -, hp, hb, rfl⟩ :=
          guardOps_signals ho.tagged.complete hstep (fun op he => hop ⟨op, he⟩) hmem hsig
        exact h.legs g p b hp hb hkey.symm

end

/-! ## The one message of the order -/

def callbacks (m : Market) (o : Order) : List (Order × Fill) := m.pending.filter (·.1 = o)

/-- At most one message about the order came, and it was counted. -/
def MessagedOnce (o : Order) (m : Market) : Prop :=
  o.orderId ∈ m.others → (m.callbacks o).length ≤ 1 ∧ (m.callbacks o ≠ [] → o.orderId ∈ m.closedSingles)

/-- The order was sent, and its message was looked up. -/
structure Over (o : Order) (m : Market) : Prop where
  sent : m.om.Sent o
  closed : o.orderId ∈ m.closedSingles
  callbacks : m.callbacks o = []

section
variable {m m' : Market} {me : MarketEvent} {o : Order}

theorem callbacks_step (h : m.Orderly) (hid : o.orderId ∈ m.others) (hs : m.step me = some m') :
    (m'.callbacks o = m.callbacks o ∧ m.closedSingles ⊆ m'.closedSingles ∧ ∀ f, me ≠ .finish o f) ∨
    (∃ f, m'.callbacks o = (o, f) :: m.callbacks o ∧ o.orderId ∉ m.closedSingles ∧ o.orderId ∈ m'.closedSingles) ∨
    ∃ f, me = .finish o f ∧ (o, f) ∈ m.callbacks o ∧ m'.callbacks o = (m.callbacks o).erase (o, f) ∧
      m'.closedSingles = m.closedSingles := by
  cases steps_of_step hs with
  | code _ _ _ | noLegMessage _ _ => exact .inl ⟨rfl, List.Subset.refl _, fun f hf => by cases hf⟩
  | @legMessage g role o₂ f now hsent _ _ =>
    have hne : o₂ ≠ o := by
      rintro rfl
      exact h.not_arbSent hid g role hsent
    exact .inl ⟨List.filter_cons_of_neg (by simpa using hne), List.Subset.refl _, fun f hf => by cases hf⟩
  | @message o₂ f now _ hopen _ =>
    by_cases he : o₂ = o
    · subst he
      exact .inr (.inl ⟨f, List.filter_cons_of_pos (by simp), hopen, List.mem_cons_self ..⟩)
    · exact .inl ⟨List.filter_cons_of_neg (by simpa using he), List.subset_cons_self .., fun f hf => by cases hf⟩
  | noMessage _ _ => exact .inl ⟨rfl, List.subset_cons_self .., fun f hf => by cases hf⟩
  | @finish o₂ f hp =>
    by_cases he : o₂ = o
    · subst he
      exact .inr (.inr ⟨f, rfl, List.mem_filter.mpr ⟨hp, by simp⟩, by simp only [callbacks, List.erase_filter], rfl⟩)
    · refine .inl ⟨?_, List.Subset.refl _, ?_⟩
      · simp only [callbacks, ← List.erase_filter]
        exact List.erase_of_not_mem (by simp [List.mem_filter, he])
      · rintro f' hf
        cases hf
        exact he rfl

theorem Orderly.callbacks_fresh (h : m.Orderly) (hn : m.om.arb.uuid.orderCounter < 10 ^ 11)
    (hid : storedOrderId m.om.arb.uuid.orderCounter = o.orderId) : m.callbacks o = [] := by
  refine List.filter_eq_nil_iff.mpr fun x hx he => ?_
  have hxo : x.1 = o := by simpa using he
  exact h.pending_not_fresh hn hx (by rw [hxo, hid])

theorem MessagedOnce.step (h : MessagedOnce o m) (ho : m.Orderly) (hn : m.om.arb.uuid.orderCounter < 10 ^ 11)
    (hs : m.step me = some m') : MessagedOnce o m' := by
  intro hid'
  by_cases hid : o.orderId ∈ m.others
  · obtain ⟨hlen, hclosed⟩ := h hid
    rcases callbacks_step ho hid hs with ⟨he, hsub, -⟩ | ⟨f, he, hnot, hin⟩ | ⟨f, -, -, he, hcl⟩
    · rw [he]
      exact ⟨hlen, fun hne => hsub (hclosed hne)⟩
    · have hnil : m.callbacks o = [] := by
        by_contra hne
        exact hnot (hclosed hne)
      rw [he, hnil]
      exact ⟨le_refl 1, fun _ => hin⟩
    · rw [he, hcl]
      refine ⟨(List.length_erase_le ..).trans hlen, fun hne => hclosed fun hnil => ?_⟩
      rw [hnil] at hne
      exact hne rfl
  · have hothers := others_step hs
    rw [hothers] at hid'
    split at hid'
    · next ha =>
      have hnew : storedOrderId m.om.arb.uuid.orderCounter = o.orderId := by
        rcases List.mem_cons.mp hid' with he | hm
        · exact he.symm
        · exact absurd hm hid
      have hsame : m'.callbacks o = m.callbacks o := by
        cases steps_of_step hs with
        | code _ _ _ => rfl
        | finish _ =>
          obtain ⟨x, -, hx⟩ := Option.map_eq_some_iff.mp ha
          cases hx
        | _ => cases ha
      rw [hsame, ho.callbacks_fresh hn hnew]
      exact ⟨Nat.zero_le _, fun hne => absurd rfl hne⟩
    · exact absurd hid' hid

theorem Over.step (h : Over o m) (ho : m.Orderly) (hs : m.step me = some m') : Over o m' := by
  rcases callbacks_step ho (ho.sent_others h.sent) hs with ⟨he, hsub, -⟩ | ⟨f, -, hnot, -⟩ | ⟨f, -, hf, -⟩
  · exact ⟨Sent.step hs h.sent, hsub h.closed, he.trans h.callbacks⟩
  · exact absurd h.closed hnot
  · rw [h.callbacks] at hf
    cases hf

theorem MessagedOnce.over (h : MessagedOnce o m) (ho : m.Orderly) (hsent : m.om.Sent o) {f : Fill}
    (hs : m.step (.finish o f) = some m') : Over o m' := by
  obtain ⟨hlen, hclosed⟩ := h (ho.sent_others hsent)
  rcases callbacks_step ho (ho.sent_others hsent) hs with ⟨-, -, hne⟩ | ⟨f', -, hnot, hin⟩ | ⟨f', hf, hm, he, hcl⟩
  · exact absurd rfl (hne f)
  · cases steps_of_step hs
    exact absurd hin hnot
  · refine ⟨Sent.step hs hsent, ?_, ?_⟩
    · rw [hcl]
      exact hclosed (List.ne_nil_of_mem hm)
    · rw [he, List.eq_nil_iff_length_eq_zero, List.length_erase_of_mem hm]
      omega

end

/-! ## The fate of the order -/

/-- How far the order came: its send result and its message are processed or
not, and which of them came first. -/
inductive Fate where
  | unanswered
  | answered
  | filled
  | lost
  deriving DecidableEq

def Fate.Holds (o : Order) (m : Market) : Fate → Prop
  | .unanswered => (∀ order, m.om.orders.lookup o.orderId = some order → order.exchangeOrderId = .empty) ∧
      (∀ x ∈ (m.om.single o.orderId).log, x.books o.orderId = false) ∧ MessagedOnce o m
  | .answered => ∃ order, m.om.single o.orderId = ⟨[], some order, [.sendOrder o.signal.exchange o]⟩ ∧
      o.Unsent o.orderId ∧ o.Answered order ∧ order.exchangeOrderId.bytes = o.exchangeId ∧ MessagedOnce o m
  | .filled => ∃ order price qty, m.om.single o.orderId =
        ⟨[], some order, [.bookFill o.orderId o.signal price qty, .sendOrder o.signal.exchange o]⟩ ∧
      order.status = .FILLED ∧ m.om.arb.portfolio.reservedUnder (marginKey o.signal) = none ∧ Over o m
  | .lost => (∀ x ∈ (m.om.single o.orderId).log, x.books o.orderId = false) ∧
      (Over o m ∨ ∃ g role, m.om.arb.Sent g role o)

structure Ready (o : Order) (m : Market) : Prop where
  orderly : m.Orderly
  key : OwnsKey o m

def Keep (o : Order) (m : Market) (me : MarketEvent) : Prop :=
  m.om.arb.uuid.orderCounter < 10 ^ 11 ∧ OwnKey o m me

section
variable {m m' : Market} {me : MarketEvent} {o : Order} {id : CStr 15}

theorem Ready.step (h : Ready o m) (hk : Keep o m me) (hs : m.step me = some m') : Ready o m' :=
  ⟨h.orderly.step hk.1 hs, h.key.step h.orderly hk.2 hs⟩

def IsResult (id : CStr 15) (me : MarketEvent) : Prop :=
  ∃ o answers r now, me = .code (.task (.result o) answers r now) ∧ o.orderId = id

theorem log_step (h : m.Orderly) (hs : m.step me = some m') {x : ManagerEffect}
    (hx : x ∈ (m'.om.single id).log) : x ∈ (m.om.single id).log ∨ x.books id = false ∨
      ∃ o f, me = .finish o f ∧ (o, f) ∈ m.pending ∧ o.orderId = id ∧ m.om.Sent o := by
  rcases single_step hs id with hv | ⟨e, he, hstep⟩
  · rw [hv] at hx
    exact .inl hx
  · generalize m'.om.single id = v' at hstep hx
    cases hstep with
    | send _ =>
      rcases List.mem_cons.mp hx with rfl | hx
      · exact .inr (.inl rfl)
      · exact .inl hx
    | filled hf _ _ =>
      obtain ⟨o, rfl, hp, hid, hsent⟩ := finish_of_managerEvent h hs he hf
      exact .inr (.inr ⟨o, _, rfl, hp, hid, hsent⟩)
    | _ => exact .inl hx

/-! ## One step -/

theorem lost_step (h : Fate.lost.Holds o m) (hr : Ready o m) (hs : m.step me = some m') :
    Fate.lost.Holds o m' := by
  obtain ⟨hlog, hover⟩ := h
  refine ⟨fun x hx => ?_, ?_⟩
  · rcases log_step hr.orderly hs hx with hx | hx | ⟨o', f, -, hp, hid, hsent⟩
    · exact hlog x hx
    · exact hx
    · exfalso
      rcases hover with hover | ⟨g, role, harb⟩
      · obtain rfl := hr.orderly.sent_inj hsent hover.sent hid
        have : (o', f) ∈ m.callbacks o' := List.mem_filter.mpr ⟨hp, by simp⟩
        rw [hover.callbacks] at this
        cases this
      · exact hr.orderly.not_arbSent (hid ▸ hr.orderly.sent_others hsent) g role harb
  · rcases hover with hover | ⟨g, role, y, hy, hsend⟩
    · exact .inl (hover.step hr.orderly hs)
    · rcases arb_step hs with ⟨-, harb⟩ | ⟨a, -, hstep⟩
      · exact .inr ⟨g, role, y, harb ▸ hy, hsend⟩
      · exact .inr ⟨g, role, y, log_mono hr.orderly.tagged.keyed hstep hy, hsend⟩

theorem filled_step (h : Fate.filled.Holds o m) (hr : Ready o m) (hk : Keep o m me) (hs : m.step me = some m') :
    Fate.filled.Holds o m' := by
  obtain ⟨order, price, qty, hv, hst, hfree, hover⟩ := h
  have hid := hr.orderly.sent_others hover.sent
  have ht : (m.om.single o.orderId).tasks = [] := by rw [hv]
  rcases view_step hr.orderly hk.1 hs hid ht with hv' | ⟨o', f, order', -, hp, hid', hsent, -⟩
  · exact ⟨order, price, qty, hv'.trans hv, hst, hr.key.unreserved_step hr.orderly hs ht hfree,
      hover.step hr.orderly hs⟩
  · obtain rfl := hr.orderly.sent_inj hsent hover.sent hid'
    have : (o', f) ∈ m.callbacks o' := List.mem_filter.mpr ⟨hp, by simp⟩
    rw [hover.callbacks] at this
    cases this

theorem answered_step (h : Fate.answered.Holds o m) (hr : Ready o m) (hk : Keep o m me)
    (hne : ∀ f, me ≠ .finish o f) (hs : m.step me = some m') : Fate.answered.Holds o m' := by
  obtain ⟨order, hv, hu, ha, hn, hm⟩ := h
  have hsent : m.om.Sent o := OrderManager.sent_single.mpr (by rw [hv]; exact List.mem_singleton_self _)
  have ht : (m.om.single o.orderId).tasks = [] := by rw [hv]
  rcases view_step hr.orderly hk.1 hs (hr.orderly.sent_others hsent) ht with
    hv' | ⟨o', f, order', rfl, -, hid', hsent', -⟩
  · exact ⟨order, hv'.trans hv, hu, ha, hn, hm.step hr.orderly hk.1 hs⟩
  · obtain rfl := hr.orderly.sent_inj hsent' hsent hid'
    exact absurd rfl (hne f)

theorem answered_finish (h : Fate.answered.Holds o m) (hr : Ready o m) {f : Fill}
    (hfull : f.filledQty = o.signal.quantity) (hs : m.step (.finish o f) = some m') : Fate.filled.Holds o m' := by
  obtain ⟨order, hv, hu, ha, hn, hm⟩ := h
  have hsent : m.om.Sent o := OrderManager.sent_single.mpr (by rw [hv]; exact List.mem_singleton_self _)
  have hl : m.om.orders.lookup o.orderId = some order := congrArg SingleView.order hv
  have hpos : f.isReject = false := by
    have := hu.quantity
    simp only [Fill.isReject, decide_eq_false_iff_not, not_and, hfull]
    intro h0
    rw [h0] at this
    exact absurd this (lt_irrefl 0)
  have hover := hm.over hr.orderly hsent hs
  cases steps_of_step hs with
  | finish hp =>
    have hx : order.exchangeOrderId = f.exchangeOrderId := CStr.ext (hn.trans (hr.orderly.pending _ hp).1.symm)
    have hf : m.om.findOrder f.exchangeOrderId = some (o.orderId, order) := by
      rw [← hx]
      exact hr.orderly.findOrder_self hl (hn ▸ o.exchangeId_ne_nil)
    refine ⟨order.filledBy f, f.fillPrice, f.filledQty, ?_, (filledBy_fields order f).2.2.2, ?_, hover⟩
    · have hstep := OrderManager.single_finishFill_self hf
      generalize (m.om.finishFill f).single o.orderId = v' at hstep ⊢
      rw [hv] at hstep
      cases hstep with
      | other ht => exact absurd (by rw [OrderManager.touched, hf, Option.map_some]) ht
      | rejected _ _ hrej => rw [hpos] at hrej; cases hrej
      | filled _ hl' _ =>
        cases hl'
        rw [ha.signal]
    · simp only [OrderManager.finishFill, hf, hpos, Bool.false_eq_true, ite_false]
      rw [← ha.signal]
      exact PortfolioGuard.reservedUnder_onFill_self hr.key.wf order.signal _ _

theorem unanswered_finish (h : Fate.unanswered.Holds o m) (hr : Ready o m) {f : Fill}
    (hs : m.step (.finish o f) = some m') : Fate.lost.Holds o m' := by
  obtain ⟨hx, hlog, hm⟩ := h
  have hp : (o, f) ∈ m.pending := by
    cases steps_of_step hs with
    | finish hp => exact hp
  refine ⟨fun x hmem => ?_, ?_⟩
  · rcases single_step hs o.orderId with hv | ⟨e, he, hstep⟩
    · rw [hv] at hmem
      exact hlog x hmem
    · cases he
      generalize m'.om.single o.orderId = v' at hstep hmem
      cases hstep with
      | other _ => exact hlog x hmem
      | rejected _ _ _ => exact hlog x hmem
      | filled hf hl _ =>
        exfalso
        obtain ⟨-, hxo⟩ := OrderManager.lookup_of_findOrder hf
        rw [hx _ hl] at hxo
        have := (hr.orderly.pending _ hp).1
        rw [← hxo] at this
        exact o.exchangeId_ne_nil this.symm
  · rcases (hr.orderly.pending _ hp).2 with hsent | ⟨g, role, y, hy, hsend⟩
    · exact .inl (hm.over hr.orderly hsent hs)
    · rcases arb_step hs with ⟨-, harb⟩ | ⟨a, -, hstep⟩
      · exact .inr ⟨g, role, y, harb ▸ hy, hsend⟩
      · exact .inr ⟨g, role, y, log_mono hr.orderly.tagged.keyed hstep hy, hsend⟩

theorem unanswered_result (h : Fate.unanswered.Holds o m) (hr : Ready o m) (hk : Keep o m me)
    {answers : List (Option CancelResult)} {r : OrderResult} {now : Int} (hok : r.success = true)
    (hs : m.step (.code (.task (.result o) answers r now)) = some m') : Fate.answered.Holds o m' := by
  obtain ⟨-, -, hm⟩ := h
  have hm' := hm.step hr.orderly hk.1 hs
  have hhonest : r.Answers o := hr.orderly.honest hs rfl
  rcases om_step hs with ⟨hnone, -⟩ | ⟨e, he, hom⟩
  · cases hnone
  · cases he
    have htask : .result o ∈ (m.om.single o.orderId).tasks := by
      simp only [OrderManager.step] at hom
      split at hom
      · next ht => exact OrderManager.mem_tasks_single ht rfl
      · cases hom
    have hlife := hr.orderly.life o.orderId
    have hstep := OrderManager.single_step hom o.orderId
    generalize hw : m'.om.single o.orderId = v' at hstep
    generalize m.om.single o.orderId = v at hlife htask hstep
    obtain ⟨rfl, hu, -⟩ := hlife.of_result htask
    cases hstep with
    | other ht => exact absurd rfl ht
    | move _ hmv => cases hmv with | refused _ hc => rcases hc with hc | hc <;> cases hc
    | store _ hst => cases hst
    | resultIdle _ hn => cases hn
    | result _ hl =>
      cases hl
      have ha := answered_answeredBy hhonest
      refine ⟨_, hw.trans ?_, hu, ha, ?_, hm'⟩
      · simp only [List.erase_cons_head]
      · unfold OrderResult.Answers at hhonest
        rw [hok, if_pos rfl] at hhonest
        unfold Order.answeredBy
        simp only [hok, ite_true]
        split <;> exact hhonest

theorem unanswered_step (h : Fate.unanswered.Holds o m) (hr : Ready o m) (hk : Keep o m me)
    (hne : ¬ IsResult o.orderId me) (hs : m.step me = some m') : Fate.unanswered.Holds o m' := by
  obtain ⟨hx, hlog, hm⟩ := h
  have hx' : ∀ {order}, (m.om.single o.orderId).order = some order → order.exchangeOrderId = .empty := hx _
  have hm' := hm.step hr.orderly hk.1 hs
  suffices (∀ order, (m'.om.single o.orderId).order = some order → order.exchangeOrderId = .empty) ∧
      ∀ x ∈ (m'.om.single o.orderId).log, x.books o.orderId = false from ⟨this.1, this.2, hm'⟩
  rcases single_step hs o.orderId with hv | ⟨e, he, hstep⟩
  · rw [hv]
    exact ⟨fun order hl => hx' hl, hlog⟩
  · have hlife := hr.orderly.life o.orderId
    have hhonest := hr.orderly.honest hs he
    generalize m'.om.single o.orderId = v' at hstep
    cases hstep with
    | other _ => exact ⟨fun order hl => hx' hl, hlog⟩
    | enter _ _ _ => exact ⟨fun order hl => hx' hl, hlog⟩
    | move _ _ | release _ | resultIdle _ _ => exact ⟨fun order hl => hx' hl, hlog⟩
    | @store t o₀ next _ _ _ ht hst =>
      refine ⟨fun order hl => ?_, hlog⟩
      cases hl
      have := (hlife.tasks_unsent ht).exchangeOrderId
      cases hst <;> exact this
    | send _ =>
      refine ⟨fun order hl => hx' hl, fun x hmem => ?_⟩
      rcases List.mem_cons.mp hmem with rfl | hmem
      · rfl
      · exact hlog x hmem
    | @result o₀ answers r now order ht _ =>
      exfalso
      cases me <;> cases he
      exact hne ⟨o₀, answers, r, now, rfl, (hlife.tasks_unsent ht).orderId⟩
    | rejected hf hl _ | filled hf hl _ =>
      exfalso
      have hxo := (OrderManager.lookup_of_findOrder hf).2
      rw [hx' hl] at hxo
      exact hhonest (by rw [← hxo]; rfl)

end

structure Spent (id : CStr 15) (m : Market) : Prop where
  drawn : id ∈ m.others
  tasks : (m.om.single id).tasks = []

section
variable {m m' : Market} {me : MarketEvent} {o : Order} {id : CStr 15} {es : List MarketEvent}

theorem Spent.step (h : Spent id m) (ho : m.Orderly) (hn : m.om.arb.uuid.orderCounter < 10 ^ 11)
    (hs : m.step me = some m') : Spent id m' where
  drawn := by
    rw [others_step hs]
    split
    · exact List.mem_cons_of_mem _ h.drawn
    · exact h.drawn
  tasks := by
    rcases view_step ho hn hs h.drawn h.tasks with hv | ⟨o, f, order, -, -, -, -, -, hv⟩
    · rw [hv]; exact h.tasks
    · rw [hv]
      split <;> exact h.tasks

theorem Spent.not_isResult (h : Spent id m) (hs : m.step me = some m') : ¬ IsResult id me := by
  rintro ⟨o, answers, r, now, rfl, rfl⟩
  rcases om_step hs with ⟨hnone, -⟩ | ⟨e, he, hom⟩
  · cases hnone
  · cases he
    simp only [OrderManager.step] at hom
    split at hom
    · next ht =>
      have := OrderManager.mem_tasks_single ht rfl
      rw [show SingleTask.order (.result o) = o from rfl, h.tasks] at this
      cases this
    · cases hom

theorem IsResult.spent (h : IsResult id me) (ho : m.Orderly) (hn : m.om.arb.uuid.orderCounter < 10 ^ 11)
    (hs : m.step me = some m') : Spent id m' := by
  obtain ⟨o, answers, r, now, rfl, rfl⟩ := h
  have ho' := ho.step hn hs
  rcases om_step hs with ⟨hnone, -⟩ | ⟨e, he, hom⟩
  · cases hnone
  · cases he
    have htask : .result o ∈ (m.om.single o.orderId).tasks := by
      simp only [OrderManager.step] at hom
      split at hom
      · next ht => exact OrderManager.mem_tasks_single ht rfl
      · cases hom
    have hdrawn : o.orderId ∈ m.others := by
      by_contra hm
      rw [ho.drawn _ hm] at htask
      cases htask
    refine ⟨?_, ?_⟩
    · rw [others_step hs]
      split
      · exact List.mem_cons_of_mem _ hdrawn
      · exact hdrawn
    · have hlife := ho.life o.orderId
      have hstep := OrderManager.single_step hom o.orderId
      have hone : (m.om.single o.orderId).tasks = [.result o] := hlife.tasks_eq htask
      generalize m'.om.single o.orderId = v' at hstep
      cases hstep with
      | other ht => exact absurd rfl ht
      | move _ hmv => cases hmv with | refused _ hc => rcases hc with hc | hc <;> cases hc
      | store _ hst => cases hst
      | resultIdle _ _ | result _ _ => simp only [hone, List.erase_cons_head]

/-! ## The run -/

theorem run_lost (h : Fate.lost.Holds o m) (hr : Ready o m) (hk : Along Market.step (Keep o) m es)
    (hrun : run Market.step m es = some m') : Fate.lost.Holds o m' :=
  (inv_along (C := Keep o) (I := fun m => Ready o m ∧ Fate.lost.Holds o m)
    (fun _ _ _ hi hc hs => ⟨hi.1.step hc hs, lost_step hi.2 hi.1 hs⟩) hk ⟨hr, h⟩ hrun).2

theorem run_filled (h : Fate.filled.Holds o m) (hr : Ready o m) (hk : Along Market.step (Keep o) m es)
    (hrun : run Market.step m es = some m') : Fate.filled.Holds o m' :=
  (inv_along (C := Keep o) (I := fun m => Ready o m ∧ Fate.filled.Holds o m)
    (fun _ _ _ hi hc hs => ⟨hi.1.step hc hs, filled_step hi.2 hi.1 hc hs⟩) hk ⟨hr, h⟩ hrun).2

theorem run_spent (h : Spent id m) (ho : m.Orderly)
    (hk : Along Market.step (fun m _ => m.om.arb.uuid.orderCounter < 10 ^ 11) m es)
    (hrun : run Market.step m es = some m') : ∀ me ∈ es, ¬ IsResult id me := by
  induction es generalizing m with
  | nil => exact fun me hme => by cases hme
  | cons e es ih =>
    obtain ⟨t, ht, hrun⟩ := run_cons hrun
    intro me hme
    rcases List.mem_cons.mp hme with rfl | hme
    · exact h.not_isResult ht
    · exact ih (h.step ho hk.1 ht) (ho.step hk.1 ht) (hk.2 t ht) hrun me hme

theorem run_answered (h : Fate.answered.Holds o m) (hr : Ready o m) (hk : Along Market.step (Keep o) m es)
    (hfull : ∀ f, .finish o f ∈ es → f.filledQty = o.signal.quantity) (hfin : ∃ f, .finish o f ∈ es)
    (hrun : run Market.step m es = some m') : Fate.filled.Holds o m' := by
  induction es generalizing m with
  | nil =>
    obtain ⟨f, hf⟩ := hfin
    cases hf
  | cons e es ih =>
    obtain ⟨t, ht, hrest⟩ := run_cons hrun
    have hr' := hr.step hk.1 ht
    by_cases he : ∃ f, e = .finish o f
    · obtain ⟨f, rfl⟩ := he
      exact run_filled (answered_finish h hr (hfull f (List.mem_cons_self ..)) ht) hr' (hk.2 t ht) hrest
    · have hne : ∀ f, e ≠ .finish o f := fun f hf => he ⟨f, hf⟩
      refine ih (answered_step h hr hk.1 hne ht) hr' (hk.2 t ht)
        (fun f hf => hfull f (List.mem_cons_of_mem _ hf)) ?_ hrest
      obtain ⟨f, hf⟩ := hfin
      exact ⟨f, (List.mem_cons.mp hf).resolve_left fun h' => hne f h'.symm⟩

theorem resultFirst_cons {e : MarketEvent} (hr : ∀ answers r now, e ≠ .code (.task (.result o) answers r now))
    (hf : ∀ f, e ≠ .finish o f) : ResultFirst o (e :: es) ↔ ResultFirst o es := by
  constructor
  · rintro ⟨es₁, es₂, answers, r, now, he, hno⟩
    cases es₁ with
    | nil => exact absurd (List.cons.inj he).1 (hr answers r now)
    | cons a es₁ =>
      obtain ⟨-, rfl⟩ := List.cons.inj he
      exact ⟨es₁, es₂, answers, r, now, rfl, fun f hm => hno f (List.mem_cons_of_mem _ hm)⟩
  · rintro ⟨es₁, es₂, answers, r, now, rfl, hno⟩
    refine ⟨e :: es₁, es₂, answers, r, now, rfl, fun f hm => ?_⟩
    rcases List.mem_cons.mp hm with h | h
    · exact hf f h.symm
    · exact hno f h

theorem not_resultFirst_finish (f : Fill) : ¬ ResultFirst o (.finish o f :: es) := by
  rintro ⟨es₁, es₂, answers, r, now, he, hno⟩
  cases es₁ with
  | nil => cases he
  | cons a es₁ =>
    obtain ⟨rfl, -⟩ := List.cons.inj he
    exact hno f (List.mem_cons_self ..)

/-- The order of the two events decides the fate. -/
theorem run_unanswered (h : Fate.unanswered.Holds o m) (hr : Ready o m) (hk : Along Market.step (Keep o) m es)
    (hres : ∃ answers r now, .code (.task (.result o) answers r now) ∈ es ∧ r.success = true)
    (hfin : ∃ f, .finish o f ∈ es) (hfull : ∀ f, .finish o f ∈ es → f.filledQty = o.signal.quantity)
    (hrun : run Market.step m es = some m') :
    (ResultFirst o es ∧ Fate.filled.Holds o m') ∨ (¬ ResultFirst o es ∧ Fate.lost.Holds o m') := by
  induction es generalizing m with
  | nil =>
    obtain ⟨f, hf⟩ := hfin
    cases hf
  | cons e es ih =>
    obtain ⟨t, ht, hrest⟩ := run_cons hrun
    have hr' := hr.step hk.1 ht
    by_cases hfe : ∃ f, e = .finish o f
    · -- the fill comes first and finds no order of its exchange id
      obtain ⟨f, rfl⟩ := hfe
      exact .inr ⟨not_resultFirst_finish f, run_lost (unanswered_finish h hr ht) hr' (hk.2 t ht) hrest⟩
    · have hne : ∀ f, e ≠ .finish o f := fun f hf => hfe ⟨f, hf⟩
      have hfin' : ∃ f, .finish o f ∈ es := by
        obtain ⟨f, hf⟩ := hfin
        exact ⟨f, (List.mem_cons.mp hf).resolve_left fun h' => hne f h'.symm⟩
      have hfull' : ∀ f, .finish o f ∈ es → f.filledQty = o.signal.quantity := fun f hf =>
        hfull f (List.mem_cons_of_mem _ hf)
      obtain ⟨answers, r, now, hmem, hok⟩ := hres
      by_cases hre : IsResult o.orderId e
      · -- no second send result follows, so this is the one that succeeds
        have hlast := run_spent (hre.spent hr.orderly hk.1.1 ht) hr'.orderly
          ((hk.2 t ht).mono fun _ _ hc => hc.1) hrest
        have he : e = .code (.task (.result o) answers r now) := by
          rcases List.mem_cons.mp hmem with he | hmem
          · exact he.symm
          · exact absurd ⟨o, answers, r, now, rfl, rfl⟩ (hlast _ hmem)
        subst he
        refine .inl ⟨⟨[], es, answers, r, now, rfl, fun f hf => by cases hf⟩, ?_⟩
        exact run_answered (unanswered_result h hr hk.1 hok ht) hr' (hk.2 t ht) hfull' hfin' hrest
      · have hmem' : .code (.task (.result o) answers r now) ∈ es :=
          (List.mem_cons.mp hmem).resolve_left fun he => hre ⟨o, answers, r, now, he.symm, rfl⟩
        rw [resultFirst_cons (fun answers r now he => hre ⟨o, answers, r, now, he, rfl⟩) hne]
        exact ih (unanswered_step h hr hk.1 hre ht) hr' (hk.2 t ht) ⟨answers, r, now, hmem', hok⟩ hfin' hfull' hrest

theorem countP_books (om : OrderManager) (id : CStr 15) :
    om.log.countP (·.books id) = (om.single id).log.countP (·.books id) := by
  simp only [OrderManager.single, List.countP_filter]
  refine List.countP_congr fun x _ => ?_
  cases x <;> simp [ManagerEffect.books, ManagerEffect.orderId]

theorem filledOnce_of_filled (h : Fate.filled.Holds o m) : m.FilledOnce o := by
  obtain ⟨order, price, qty, hv, hst, hfree, -⟩ := h
  have hl : m.om.orders.lookup o.orderId = some order := congrArg SingleView.order hv
  refine ⟨by rw [hl, Option.map_some, hst], ?_, hfree⟩
  rw [countP_books, hv]
  simp [ManagerEffect.books]

theorem not_filledOnce_of_lost (h : Fate.lost.Holds o m) : ¬ m.FilledOnce o := by
  rintro ⟨-, hone, -⟩
  rw [countP_books, List.countP_eq_zero.mpr fun x hx => by simp [h.1 x hx]] at hone
  cases hone

theorem ready_init (signalConfig : SignalConfig) (portfolioConfig : PortfolioConfig) (arbConfig : ArbConfig)
    (hasGateway : Exchange → Bool) : Ready o (init signalConfig portfolioConfig arbConfig hasGateway) where
  orderly := orderly_init ..
  key := by
    refine ⟨PortfolioGuard.wf_init portfolioConfig, fun t ht => ?_, fun g p b hp => ?_⟩
    · cases ht
    · cases hp

theorem unanswered_init (signalConfig : SignalConfig) (portfolioConfig : PortfolioConfig) (arbConfig : ArbConfig)
    (hasGateway : Exchange → Bool) :
    Fate.unanswered.Holds o (init signalConfig portfolioConfig arbConfig hasGateway) := by
  refine ⟨fun order hl => ?_, fun x hx => ?_, fun hid => ?_⟩
  · cases hl
  · cases hx
  · cases hid

end

end Market

open Market

/-- An order whose send succeeds and which is filled once in full ends filled
and booked exactly when its send result is processed before its fill is looked
up. -/
theorem filled_once_iff (signalConfig : SignalConfig) (portfolioConfig : PortfolioConfig) (arbConfig : ArbConfig)
    (hasGateway : Exchange → Bool) (o : Order) (es : List MarketEvent) (m : Market)
    (hrun : run Market.step (.init signalConfig portfolioConfig arbConfig hasGateway) es = some m)
    (hids : Along Market.step (fun m _ => m.om.arb.uuid.orderCounter < 10 ^ 11)
      (.init signalConfig portfolioConfig arbConfig hasGateway) es)
    (hkey : Along Market.step (OwnKey o) (.init signalConfig portfolioConfig arbConfig hasGateway) es)
    (hres : ∃ answers r now, .code (.task (.result o) answers r now) ∈ es ∧ r.success = true)
    (hfill : ∃ f, .finish o f ∈ es) (hfull : ∀ f, .finish o f ∈ es → f.filledQty = o.signal.quantity) :
    m.FilledOnce o ↔ ResultFirst o es := by
  rcases run_unanswered (unanswered_init signalConfig portfolioConfig arbConfig hasGateway) (ready_init ..)
    (hids.and hkey) hres hfill hfull hrun with ⟨hfirst, h⟩ | ⟨hfirst, h⟩
  · exact ⟨fun _ => hfirst, fun _ => filledOnce_of_filled h⟩
  · exact ⟨fun hm => absurd hm (not_filledOnce_of_lost h), fun hf => absurd hf hfirst⟩

theorem filled_once_result_first :
    ∃ m, run Market.step Sample.market
      (Sample.sending ++ [Sample.task (.result Sample.singleSent) Sample.taken,
        .finish Sample.singleSent Sample.singleFill]) = some m ∧ m.FilledOnce Sample.singleSent := by
  obtain ⟨m, hm⟩ := Option.isSome_iff_exists.mp (show (run Market.step Sample.market
    (Sample.sending ++ [Sample.task (.result Sample.singleSent) Sample.taken,
      .finish Sample.singleSent Sample.singleFill])).isSome by decide +kernel)
  refine ⟨m, hm, (filled_once_iff {} {} {} (fun _ => true) Sample.singleSent _ m hm (by decide +kernel)
    (by decide +kernel) ⟨[], Sample.taken, 1, by decide +kernel, rfl⟩ ⟨Sample.singleFill, by decide +kernel⟩ ?_).mpr ?_⟩
  · intro f hf
    simp only [Sample.sending, Sample.task, List.cons_append, List.nil_append, List.mem_cons, reduceCtorEq,
      MarketEvent.finish.injEq, true_and, List.not_mem_nil, or_false, false_or] at hf
    rw [hf]
    rfl
  · refine ⟨Sample.sending, _, [], Sample.taken, 1, rfl, fun f hf => ?_⟩
    simp [Sample.sending, Sample.task] at hf

/-- The fill is looked up before the send result is processed. -/
theorem not_filled_once :
    ¬ ∀ (signalConfig : SignalConfig) (portfolioConfig : PortfolioConfig) (arbConfig : ArbConfig)
      (hasGateway : Exchange → Bool) (o : Order) (es : List MarketEvent) (m : Market),
      run Market.step (.init signalConfig portfolioConfig arbConfig hasGateway) es = some m →
      Along Market.step (fun m _ => m.om.arb.uuid.orderCounter < 10 ^ 11)
        (.init signalConfig portfolioConfig arbConfig hasGateway) es →
      Along Market.step (OwnKey o) (.init signalConfig portfolioConfig arbConfig hasGateway) es →
      (∃ answers r now, .code (.task (.result o) answers r now) ∈ es ∧ r.success = true) →
      (∃ f, .finish o f ∈ es) → (∀ f, .finish o f ∈ es → f.filledQty = o.signal.quantity) → m.FilledOnce o := by
  intro h
  let es := Sample.sending ++ [.finish Sample.singleSent Sample.singleFill,
    Sample.task (.result Sample.singleSent) Sample.taken]
  obtain ⟨m, hm, hn⟩ : ∃ m, run Market.step Sample.market es = some m ∧
      some (decide (m.FilledOnce Sample.singleSent)) = some false :=
    Option.bind_eq_some_iff.mp (show (run Market.step Sample.market es).bind
      (fun m => some (decide (m.FilledOnce Sample.singleSent))) = some false by decide +kernel)
  refine of_decide_eq_false (Option.some.inj hn) (h {} {} {} (fun _ => true) Sample.singleSent es m hm
    (by decide +kernel) (by decide +kernel) ⟨[], Sample.taken, 1, by decide +kernel, rfl⟩
    ⟨Sample.singleFill, by decide +kernel⟩ ?_)
  intro f hf
  simp only [es, Sample.sending, Sample.task, List.cons_append, List.nil_append, List.mem_cons, reduceCtorEq,
    MarketEvent.finish.injEq, true_and, List.not_mem_nil, or_false, false_or] at hf
  rw [hf]
  rfl

end OrderExecution
