import OrderExecution.Deployment
import OrderExecution.OrderHistory

/-!
# What is left when the manager is at rest

Once every call and dispatch thread has ended and no callback is under way, a
single-leg order is final unless its gateway took it and has not reported it, or
reported it before the manager had the result of `send_order`.
-/

namespace OrderExecution

open Machine

/-! ## The record of an order that was sent -/

namespace Market

section
variable {m : Market} {om : OrderManager} {e : ManagerEvent} {o : Order}

theorem Orderly.sent_tasks (h : m.Orderly) (hsent : m.om.Sent o) :
    ∀ t ∈ (m.om.single o.orderId).tasks, t = .result o := by
  rcases ((h.life _).sent (OrderManager.sent_single.mp hsent)).2 with ⟨hv, -⟩ | ⟨_, _, hv, -⟩
  · rw [hv]
    exact fun t ht => List.mem_singleton.mp ht
  · rw [hv]
    exact fun t ht => nomatch ht

/-- Only its send result and the look-up of its message change the order. -/
theorem Orderly.sent_keep (h : m.Orderly) (hn : m.om.arb.uuid.orderCounter < 10 ^ 11) (hsent : m.om.Sent o)
    (hom : m.om.step e = some om) (hresult : ∀ answers r now, e ≠ .task (.result o) answers r now)
    (hfinish : ∀ f, e ≠ .finishFill f) : om.single o.orderId = m.om.single o.orderId := by
  have htasks := h.sent_tasks hsent
  have hstep := OrderManager.single_step hom o.orderId
  generalize om.single o.orderId = v' at hstep
  cases hstep with
  | other _ => rfl
  | enter _ _ hid => exact absurd hid (h.not_fresh hn (h.sent_others hsent))
  | move ht hm =>
    obtain rfl := htasks _ ht
    cases hm with
    | refused _ hc => rcases hc with hc | hc <;> cases hc
  | store ht hm =>
    obtain rfl := htasks _ ht
    cases hm
  | release ht | send ht => cases htasks _ ht
  | resultIdle ht _ | result ht _ =>
    obtain rfl := SingleTask.result.inj (htasks _ ht)
    exact absurd rfl (hresult _ _ _)
  | rejected _ _ _ | filled _ _ _ => exact absurd rfl (hfinish _)

theorem Orderly.sent_result (h : m.Orderly) {answers : List (Option CancelResult)} {r : OrderResult} {now : Int}
    (hom : m.om.step (.task (.result o) answers r now) = some om) : (m.om.single o.orderId).order = some o ∧
      o.exchangeOrderId = .empty ∧ o.status = .SENT ∧
        (om.single o.orderId).order = some (o.answeredBy o.signal.exchange r) := by
  have hstep := OrderManager.single_step hom o.orderId
  generalize om.single o.orderId = v' at hstep
  cases hstep with
  | other ht => exact absurd rfl ht
  | move _ hm =>
    cases hm with
    | refused _ hc => rcases hc with hc | hc <;> cases hc
  | store _ hm => cases hm
  | resultIdle ht hl =>
    obtain ⟨hv, -⟩ := (h.life _).of_result ht
    rw [hv] at hl
    cases hl
  | result ht hl =>
    obtain ⟨hv, hu, hst⟩ := (h.life _).of_result ht
    rw [hv] at hl
    obtain rfl := Option.some.inj hl
    exact ⟨by rw [hv], hu.exchangeOrderId, hst, rfl⟩

theorem Orderly.sent_named (h : m.Orderly) (hsent : m.om.Sent o) {order : Order}
    (hl : (m.om.single o.orderId).order = some order) (hx : order.exchangeOrderId.bytes ≠ []) :
    order.exchangeOrderId.bytes = o.exchangeId := by
  obtain ⟨o', l, hv, hu, -, hn, -⟩ := h.taken hl hx
  have hsent' : m.om.Sent o' := by
    refine OrderManager.sent_single.mpr ?_
    rw [hu.orderId, hv]
    exact List.mem_append_right _ (List.mem_singleton_self _)
  rw [hn, h.sent_inj hsent hsent' hu.orderId.symm]

/-- A look-up closes the order of its id, and no other. -/
theorem Orderly.sent_finish (h : m.Orderly) {f : Fill} (hf : f.exchangeOrderId.bytes ≠ [])
    (hom : m.om.step (.finishFill f) = some om) (id : CStr 15) :
    (om.single id = m.om.single id ∧
        ∀ order, (m.om.single id).order = some order → order.exchangeOrderId ≠ f.exchangeOrderId) ∨
      ∃ order order', (m.om.single id).order = some order ∧ order.exchangeOrderId = f.exchangeOrderId ∧
        (om.single id).tasks = (m.om.single id).tasks ∧ (om.single id).order = some order' ∧
          order'.exchangeOrderId = order.exchangeOrderId ∧ isTerminal order'.status = true := by
  have hstep := OrderManager.single_step hom id
  generalize om.single id = v' at hstep
  cases hstep with
  | other ht =>
    refine .inl ⟨rfl, fun order hl hx => ht ?_⟩
    have hself := h.findOrder_self hl (by rw [hx]; exact hf)
    rw [hx] at hself
    show (m.om.findOrder f.exchangeOrderId).map (·.1) = some id
    rw [hself]
    rfl
  | rejected hfind hl _ =>
    exact .inr ⟨_, _, hl, (OrderManager.lookup_of_findOrder hfind).2, rfl, rfl, rfl, rfl⟩
  | @filled _ order hfind hl _ =>
    obtain ⟨-, -, hx, hst⟩ := filledBy_fields order f
    exact .inr ⟨_, _, hl, (OrderManager.lookup_of_findOrder hfind).2, rfl, rfl, hx, by rw [hst]; rfl⟩

/-- What was sent was handed over. -/
theorem handed_of_sent (hom : m.om.step e = some om) (hsent : om.Sent o) :
    m.om.Sent o ∨ ∃ x ∈ e.handed, x.sender = .single ∧ x.order = o := by
  have hlog := OrderManager.sent_single.mp hsent
  have hstep := OrderManager.single_step hom o.orderId
  have old : .sendOrder o.signal.exchange o ∈ (m.om.single o.orderId).log → m.om.Sent o :=
    OrderManager.sent_single.mpr
  generalize om.single o.orderId = v' at hstep hlog
  cases hstep with
  | send ht =>
    rcases List.mem_cons.mp hlog with he | hlog
    · obtain ⟨-, rfl⟩ := ManagerEffect.sendOrder.inj he
      exact .inr ⟨_, List.mem_singleton_self _, rfl, rfl⟩
    · exact .inl (old hlog)
  | filled _ _ _ =>
    rcases List.mem_cons.mp hlog with he | hlog
    · cases he
    · exact .inl (old hlog)
  | _ => exact .inl (old hlog)

/-- The dispatch thread waits for the result of what it handed over. -/
theorem result_of_handed {x : Handover} (hom : m.om.step e = some om) (hx : x ∈ e.handed) (hs : x.sender = .single) :
    .result x.order ∈ (om.single x.order.orderId).tasks := by
  have hhands := OrderManager.hands_of_step hom hx
  cases hhands with
  | @single gw o answers r now ht =>
    have hstep := OrderManager.single_step hom o.orderId
    show .result o ∈ (om.single o.orderId).tasks
    generalize om.single o.orderId = v' at hstep ⊢
    cases hstep with
    | other hne => exact absurd rfl hne
    | move _ hm =>
      cases hm with
      | refused _ hc => rcases hc with hc | hc <;> cases hc
    | store _ hm => cases hm
    | send _ => exact List.mem_cons_self ..
  | _ => cases hs

end

end Market

/-! ## How far an order is -/

namespace Deployment

/-- The message of the order came, and its look-up is over. -/
def LookedUp (d : Deployment) (x : Handover) : Prop :=
  0 < d.reported x.order.exchangeId ∧ ∀ y ∈ d.finishing, y.2.exchangeOrderId.bytes ≠ x.order.exchangeId

def record (d : Deployment) (x : Handover) : SingleView := d.om.single x.order.orderId

inductive Progress (d : Deployment) (x : Handover) : Prop where
  | unanswered : .result x.order ∈ (d.record x).tasks → (x ∈ d.sending ∨ ∃ r, (x, r) ∈ d.results) →
      (x ∈ d.overtaken ↔ d.LookedUp x) → Progress d x
  | refused {o : Order} : (d.record x).order = some o → o.status = .REJECTED → d.Refused x → x ∉ d.overtaken →
      Progress d x
  | taken {o : Order} {r : OrderResult} : (d.record x).order = some o →
      o.exchangeOrderId.bytes = x.order.exchangeId → (x, r) ∈ d.answered → r.success = true →
      (∀ r, (x, r) ∉ d.results) → (isTerminal o.status = true ↔ d.LookedUp x ∧ x ∉ d.overtaken) →
      (x ∈ d.overtaken → d.LookedUp x) → Progress d x

structure Settling (d : Deployment) : Prop where
  handed : d.handed.Perm (d.sending ++ d.answered.map Prod.fst)
  results : d.results.Sublist d.answered
  finishing : ∀ id, d.finishing.countP (fun y => y.2.exchangeOrderId.bytes = id) ≤ d.reported id
  overtaken : ∀ x ∈ d.overtaken, x ∈ d.handed
  sent : ∀ o, d.om.Sent o → ∃ x ∈ d.handed, x.sender = .single ∧ x.order = o
  progress : ∀ x ∈ d.handed, x.sender = .single → d.Progress x

section
variable {d d' : Deployment} {m : Market} {x y : Handover} {e : ManagerEvent} {om : OrderManager}

/-- What is not about the order leaves it where it is. -/
theorem Progress.keep (h : d.Progress x) (hv : d'.record x = d.record x)
    (hwait : (x ∈ d.sending ∨ ∃ r, (x, r) ∈ d.results) → x ∈ d'.sending ∨ ∃ r, (x, r) ∈ d'.results)
    (hanswered : ∀ a ∈ d.answered, a ∈ d'.answered)
    (hresults : ∀ r r', (x, r) ∈ d.answered → (x, r') ∉ d.results → (x, r') ∉ d'.results)
    (hovertaken : x ∈ d'.overtaken ↔ x ∈ d.overtaken) (hlooked : d'.LookedUp x ↔ d.LookedUp x) : d'.Progress x := by
  cases h with
  | unanswered ht hw ho =>
    refine .unanswered ?_ (hwait hw) ?_
    · rw [hv]
      exact ht
    · rw [hovertaken, hlooked]
      exact ho
  | refused hl hst hr ho =>
    obtain ⟨a, ha, hrest⟩ := hr
    refine .refused ?_ hst ⟨a, hanswered a ha, hrest⟩ ?_
    · rw [hv]
      exact hl
    · rw [hovertaken]
      exact ho
  | taken hl hx ha hs hres hst ho =>
    refine .taken ?_ hx (hanswered _ ha) hs (fun r => hresults _ r ha (hres r)) ?_ ?_
    · rw [hv]
      exact hl
    · rw [hovertaken, hlooked]
      exact hst
    · rw [hovertaken, hlooked]
      exact ho

theorem Settling.answered_once (h : d.Settling) (ht : d.Tracked) : (d.sending ++ d.answered.map Prod.fst).Nodup :=
  h.handed.nodup_iff.mp ht.distinct.of_map

theorem Settling.answer_unique (h : d.Settling) (ht : d.Tracked) {r r' : OrderResult} (hr : (x, r) ∈ d.answered)
    (hr' : (x, r') ∈ d.answered) : r = r' :=
  congrArg Prod.snd (List.inj_on_of_nodup_map (List.nodup_append.mp (h.answered_once ht)).2.1 hr hr' rfl)

theorem Settling.not_answered (h : d.Settling) (ht : d.Tracked) (hx : x ∈ d.sending) (r : OrderResult) :
    (x, r) ∉ d.answered := fun hr =>
  List.disjoint_of_nodup_append (h.answered_once ht) hx (List.mem_map_of_mem hr)

theorem Settling.result_erased (h : d.Settling) (ht : d.Tracked) {r : OrderResult} (hr : (x, r) ∈ d.results)
    (r' : OrderResult) : (x, r') ∉ d.results.erase (x, r) := by
  intro hr'
  have hnodup : d.results.Nodup := ((List.nodup_append.mp (h.answered_once ht)).2.1.of_map).sublist h.results
  obtain rfl := h.answer_unique ht (h.results.subset hr) (h.results.subset (List.mem_of_mem_erase hr'))
  exact hnodup.not_mem_erase hr'

/-- Before its result the order is overtaken as soon as it is looked up. -/
theorem Progress.overtaken_iff (h : d.Progress x) (hv : (d.record x).order = some x.order)
    (hx : x.order.exchangeOrderId = .empty) (hst : x.order.status = .SENT) : x ∈ d.overtaken ↔ d.LookedUp x := by
  cases h with
  | unanswered _ _ ho => exact ho
  | refused hl hrej _ _ =>
    obtain rfl := Option.some.inj (hv.symm.trans hl)
    rw [hst] at hrej
    cases hrej
  | taken hl hnamed _ _ _ _ _ =>
    obtain rfl := Option.some.inj (hv.symm.trans hl)
    rw [hx] at hnamed
    exact absurd hnamed.symm x.order.exchangeId_ne_nil

theorem settling_init (signalConfig : SignalConfig) (portfolioConfig : PortfolioConfig) (arbConfig : ArbConfig)
    (hasGateway : Exchange → Bool) (gateways : Exchange → MockGateway) :
    (init signalConfig portfolioConfig arbConfig hasGateway gateways).Settling where
  handed := .refl _
  results := .refl _
  finishing := fun _ => Nat.zero_le _
  overtaken := fun _ hx => by cases hx
  sent := fun _ hs => by cases hs
  progress := fun _ hx => by cases hx

theorem Refines.sent_single (hd : d.Refines m) (hx : x ∈ d.handed) (hs : x.sender = .single) : m.om.Sent x.order := by
  have := hd.sent x hx
  rw [hs] at this
  exact this

/-- The manager's own steps, and the threads it starts. -/
theorem Settling.code (h : d.Settling) (hd : d.Refines m) (hn : d.om.arb.uuid.orderCounter < 10 ^ 11)
    (hm : e.isMessage = false) (ha : e.awaitsResult = false) (hom : d.om.step e = some om)
    (hd' : Tracked { d with om := om, handed := e.handed ++ d.handed, sending := e.handed ++ d.sending }) :
    Settling { d with om := om, handed := e.handed ++ d.handed, sending := e.handed ++ d.sending } := by
  rw [← hd.om] at hom hn
  have hnodup : (e.handed ++ d.handed).Nodup := hd'.distinct.of_map
  refine ⟨?_, h.results, h.finishing, fun x hx => List.mem_append_right _ (h.overtaken x hx), ?_, ?_⟩
  · show (e.handed ++ d.handed).Perm (e.handed ++ d.sending ++ d.answered.map Prod.fst)
    rw [List.append_assoc]
    exact h.handed.append_left _
  · intro o hs
    rcases Market.handed_of_sent hom hs with hold | ⟨x, hx, hxo⟩
    · rw [hd.om] at hold
      obtain ⟨x, hx, hxo⟩ := h.sent o hold
      exact ⟨x, List.mem_append_right _ hx, hxo⟩
    · exact ⟨x, List.mem_append_left _ hx, hxo⟩
  · intro x hx hs
    rcases List.mem_append.mp hx with hnew | hold
    · have hfresh : x ∉ d.handed := fun hold => List.disjoint_of_nodup_append hnodup hnew hold
      refine .unanswered (Market.result_of_handed hom hnew hs) (.inl (List.mem_append_left _ hnew)) ?_
      refine iff_of_false (fun ho => hfresh (h.overtaken x ho)) fun ⟨hpos, _⟩ => ?_
      obtain ⟨y, hy, hid⟩ := hd.tracked.known x.order.exchangeId (Nat.add_pos_right _ hpos)
      obtain rfl := List.inj_on_of_nodup_map hd'.distinct (List.mem_append_right _ hy) hx (Market.exchangeId_inj hid)
      exact hfresh hy
    · have hv : om.single x.order.orderId = m.om.single x.order.orderId := by
        refine hd.once.orderly.sent_keep hn (hd.sent_single hold hs) hom ?_ ?_
        · intro answers r now he
          rw [he] at ha
          cases ha
        · intro f he
          rw [he] at hm
          cases hm
      rw [hd.om] at hv
      exact (h.progress x hold hs).keep hv (Or.imp_left (List.mem_append_right _)) (fun _ h => h) (fun _ _ _ h => h)
        Iff.rfl Iff.rfl

theorem Settling.result (h : d.Settling) (hd : d.Refines m) (hn : d.om.arb.uuid.orderCounter < 10 ^ 11)
    {r : OrderResult} {now : Int} (hr : (y, r) ∈ d.results) (hom : d.om.step (y.resultEvent r now) = some om) :
    Settling { d with om := om, results := d.results.erase (y, r) } := by
  rw [← hd.om] at hom hn
  have hans := h.results.subset hr
  refine ⟨h.handed, List.erase_sublist.trans h.results, h.finishing, h.overtaken, ?_, ?_⟩
  · intro o hs
    rcases Market.handed_of_sent hom hs with hold | ⟨x, hx, -⟩
    · rw [hd.om] at hold
      exact h.sent o hold
    · rw [(y.resultEvent_spec r now).2.1] at hx
      cases hx
  · intro x hmem hs
    by_cases hxy : x = y
    · -- the order of the result
      subst hxy
      have hevent : x.resultEvent r now = .task (.result x.order) [] r now := by
        unfold Handover.resultEvent
        rw [hs]
      rw [hevent] at hom
      obtain ⟨hv, hx, hsent, hl⟩ := hd.once.orderly.sent_result hom
      rw [hd.om] at hv
      have hanswers : r.Answers x.order := hd.results _ hr hs
      obtain ⟨-, hid⟩ := Market.answeredBy_fields x.order x.order.signal.exchange r
      have hst := Market.status_answeredBy x.order r
      have hlate := (h.progress x hmem hs).overtaken_iff hv hx hsent
      unfold OrderResult.Answers at hanswers
      cases hsucc : r.success with
      | true =>
        rw [hsucc, if_pos rfl] at hanswers hst
        refine .taken hl (by rw [hid]; exact hanswers) hans hsucc (h.result_erased hd.tracked hr) ?_ hlate.mp
        rw [hst, takenStatus_not_terminal]
        exact iff_of_false nofun fun ⟨hlook, hnot⟩ => hnot (hlate.mpr hlook)
      | false =>
        rw [hsucc, if_neg (by decide)] at hst
        have href : d.Refused x := ⟨_, hans, rfl, hsucc⟩
        refine .refused hl hst href fun ho => ?_
        have hpos := (hlate.mp ho).1
        have := hd.tracked.refused x href
        omega
    · have hv : om.single x.order.orderId = m.om.single x.order.orderId := by
        refine hd.once.orderly.sent_keep hn (hd.sent_single hmem hs) hom ?_ ?_
        · intro answers r' now' he
          unfold Handover.resultEvent at he
          split at he
          · have hxy' := SingleTask.result.inj (ManagerEvent.task.inj he).1
            have hy := hd.tracked.answered _ hans
            exact hxy (List.inj_on_of_nodup_map hd.tracked.distinct hmem hy (congrArg Order.orderId hxy'.symm))
          · cases he
          · cases he
          · cases he
        · intro f he
          unfold Handover.resultEvent at he
          split at he <;> cases he
      rw [hd.om] at hv
      refine (h.progress x hmem hs).keep hv ?_ (fun _ h => h) (fun _ _ _ h hm => h (List.mem_of_mem_erase hm)) Iff.rfl Iff.rfl
      rintro (hsend | ⟨r', hr'⟩)
      · exact .inl hsend
      · refine .inr ⟨r', (List.mem_erase_of_ne ?_).mpr hr'⟩
        intro he
        exact hxy (congrArg Prod.fst he)

theorem reported_keep {gw : Exchange} {s : GatewayState} (hs : s.reported = (d.gateways gw).reported) (id : Bytes) :
    (d.setGateway gw s).reported id = d.reported id := by
  have := reported_setGateway d gw s id
  rw [hs] at this
  exact Nat.add_right_cancel this

theorem lookedUp_keep {gw : Exchange} {s : GatewayState} (hs : s.reported = (d.gateways gw).reported) :
    (d.setGateway gw s).LookedUp x ↔ d.LookedUp x := by
  unfold LookedUp
  rw [reported_keep hs]
  exact Iff.rfl

/-- The gateways' own steps before a report. -/
theorem Settling.sendOrder (h : d.Settling) (ht : d.Tracked) {gw : Exchange} {s : GatewayState} {r : OrderResult}
    (hy : y ∈ d.sending) (hs : s.reported = (d.gateways gw).reported) : Settling { d.setGateway gw s with
      sending := d.sending.erase y
      answered := (y, r) :: d.answered
      results := (y, r) :: d.results } where
  handed := by
    have herase := ((List.perm_cons_erase hy).append_right (d.answered.map Prod.fst)).trans List.perm_middle.symm
    exact h.handed.trans herase
  results := h.results.cons_cons _
  finishing := fun id => (h.finishing id).trans_eq (reported_keep hs id).symm
  overtaken := h.overtaken
  sent := h.sent
  progress := by
    intro x hx hsingle
    refine (h.progress x hx hsingle).keep rfl ?_ (fun a ha => List.mem_cons_of_mem _ ha) ?_ Iff.rfl
      (lookedUp_keep hs)
    · rintro (hsend | ⟨r', hr'⟩)
      · by_cases hxy : x = y
        · exact .inr ⟨r, hxy ▸ List.mem_cons_self ..⟩
        · exact .inl ((List.mem_erase_of_ne hxy).mpr hsend)
      · exact .inr ⟨r', List.mem_cons_of_mem _ hr'⟩
    · intro r₁ r₂ ha hnot hmem
      rcases List.mem_cons.mp hmem with he | hmem
      · obtain rfl := congrArg Prod.fst he
        exact h.not_answered ht hy r₁ ha
      · exact hnot hmem

theorem Settling.gateway (h : d.Settling) {gw : Exchange} {s : GatewayState}
    (hs : s.reported = (d.gateways gw).reported) : (d.setGateway gw s).Settling :=
  ⟨h.handed, h.results, fun id => (h.finishing id).trans_eq (reported_keep hs id).symm, h.overtaken, h.sent,
    fun x hx hsingle => (h.progress x hx hsingle).keep rfl id (fun _ h => h) (fun _ _ _ h => h) Iff.rfl
      (lookedUp_keep hs)⟩

/-- A message that has just come is not looked up yet. -/
theorem Settling.callback (h : d.Settling) (hd : d.Refines m) (hn : d.om.arb.uuid.orderCounter < 10 ^ 11)
    {gw : Exchange} {f : Fill} {s : GatewayState} (hs : (d.gateways gw).step (.callback f) = some s) (now : Int) :
    Settling { d.setGateway gw s with om := d.om.onFill f now, finishing := (gw, f) :: d.finishing } := by
  obtain ⟨-, -, hholds, hreports⟩ := GatewayState.callback_counts hs
  have hreported : ∀ id, (d.setGateway gw s).reported id =
      d.reported id + if f.exchangeOrderId.bytes = id then 1 else 0 := by
    intro id
    have h₁ := reported_setGateway d gw s id
    have h₂ := hreports id
    omega
  have hfirst : d.reported f.exchangeOrderId.bytes = 0 := by
    have h₁ := waiting_setGateway d gw s f.exchangeOrderId.bytes
    have h₂ := hholds f.exchangeOrderId.bytes
    rw [if_pos rfl] at h₂
    have h₃ := hd.tracked.atMostOnce f.exchangeOrderId.bytes
    omega
  have hom : m.om.step (.onFill f now) = some (d.om.onFill f now) := by rw [hd.om]; rfl
  rw [← hd.om] at hn
  refine ⟨h.handed, h.results, ?_, h.overtaken, ?_, ?_⟩
  · intro id
    have := h.finishing id
    show ((gw, f) :: d.finishing).countP _ ≤ (d.setGateway gw s).reported id
    rw [hreported, List.countP_cons]
    simp only [decide_eq_true_eq]
    omega
  · intro o ho
    rcases Market.handed_of_sent hom ho with hold | ⟨x, hx, -⟩
    · rw [hd.om] at hold
      exact h.sent o hold
    · cases hx
  · intro x hx hsingle
    have hv : (d.om.onFill f now).single x.order.orderId = m.om.single x.order.orderId :=
      hd.once.orderly.sent_keep hn (hd.sent_single hx hsingle) hom nofun nofun
    rw [hd.om] at hv
    refine (h.progress x hx hsingle).keep hv id (fun _ h => h) (fun _ _ _ h => h) Iff.rfl ?_
    by_cases hid : f.exchangeOrderId.bytes = x.order.exchangeId
    · refine iff_of_false (fun hlook => hlook.2 (gw, f) (List.mem_cons_self ..) hid) fun hlook => ?_
      have hpos := hlook.1
      rw [← hid, hfirst] at hpos
      exact Nat.lt_irrefl 0 hpos
    · have hsame := hreported x.order.exchangeId
      rw [if_neg hid] at hsame
      refine and_congr (iff_of_eq (congrArg (0 < ·) hsame)) ⟨?_, ?_⟩
      · exact fun hall y hy => hall y (List.mem_cons_of_mem _ hy)
      · intro hall y hy
        rcases List.mem_cons.mp hy with rfl | hy
        · exact hid
        · exact hall y hy

theorem Refines.finishing_named (hd : d.Refines m) {gw : Exchange} {f : Fill} (hf : (gw, f) ∈ d.finishing) :
    f.exchangeOrderId.bytes ≠ [] := by
  obtain ⟨⟨o, f'⟩, hmem, rfl⟩ : ∃ x ∈ m.pending, x.2 = f :=
    List.mem_map.mp (hd.pending.mem_iff.mpr (List.mem_map_of_mem hf))
  rw [(hd.once.orderly.pending _ hmem).1]
  exact o.exchangeId_ne_nil

/-- The message that is looked up is the only one of its order. -/
theorem Settling.only_message (h : d.Settling) (ht : d.Tracked) {gw : Exchange} {f : Fill}
    (hf : (gw, f) ∈ d.finishing) : d.waiting f.exchangeOrderId.bytes = 0 ∧ 0 < d.reported f.exchangeOrderId.bytes ∧
      ∀ y ∈ d.finishing.erase (gw, f), y.2.exchangeOrderId.bytes ≠ f.exchangeOrderId.bytes := by
  have h₁ := countP_erase_add (fun y : Exchange × Fill => y.2.exchangeOrderId.bytes = f.exchangeOrderId.bytes) hf
  have h₂ := h.finishing f.exchangeOrderId.bytes
  have h₃ := ht.atMostOnce f.exchangeOrderId.bytes
  simp only [decide_true, if_true] at h₁
  refine ⟨by omega, by omega, fun y hy hid => ?_⟩
  have : 0 < (d.finishing.erase (gw, f)).countP fun y => y.2.exchangeOrderId.bytes = f.exchangeOrderId.bytes :=
    List.countP_pos_iff.mpr ⟨y, hy, decide_eq_true hid⟩
  omega

/-- The look-up of the message of an order. -/
theorem Settling.finish (h : d.Settling) (hd : d.Refines m) {gw : Exchange} {f : Fill} (hf : (gw, f) ∈ d.finishing) :
    Settling { d with
      om := d.om.finishFill f
      finishing := d.finishing.erase (gw, f)
      overtaken := (d.results.map Prod.fst).filter (·.order.exchangeId = f.exchangeOrderId.bytes) ++ d.overtaken } := by
  have hom : m.om.step (.finishFill f) = some (d.om.finishFill f) := by rw [hd.om]; rfl
  have hfx := hd.finishing_named hf
  refine ⟨h.handed, h.results, fun id => (List.erase_sublist.countP_le).trans (h.finishing id), ?_, ?_, ?_⟩
  · intro x hx
    rcases List.mem_append.mp hx with hx | hx
    · obtain ⟨a, ha, rfl⟩ := List.mem_map.mp (List.mem_of_mem_filter hx)
      exact hd.tracked.answered a (h.results.subset ha)
    · exact h.overtaken x hx
  · intro o ho
    rcases Market.handed_of_sent hom ho with hold | ⟨x, hx, -⟩
    · rw [hd.om] at hold
      exact h.sent o hold
    · cases hx
  · intro x hx hsingle
    have hrecord := hd.once.orderly.sent_finish hfx hom x.order.orderId
    by_cases hid : f.exchangeOrderId.bytes = x.order.exchangeId
    · have honly := h.only_message hd.tracked hf
      rw [hid] at honly
      obtain ⟨hwaiting, hlooked⟩ := honly
      have hnot : ¬ d.LookedUp x := fun hlook => hlook.2 _ hf hid
      cases h.progress x hx hsingle with
      | unanswered ht hw _ =>
        refine .unanswered ?_ hw (iff_of_true ?_ hlooked)
        · rw [record, ← hd.om] at ht
          show .result x.order ∈ ((d.om.finishFill f).single x.order.orderId).tasks
          rcases hrecord with ⟨hv, -⟩ | ⟨_, _, -, -, hv, -⟩ <;> rw [hv] <;> exact ht
        · rcases hw with hsend | ⟨r, hr⟩
          · have : 0 < d.sending.countP fun x' => x'.order.exchangeId = x.order.exchangeId :=
              List.countP_pos_iff.mpr ⟨x, hsend, decide_eq_true rfl⟩
            simp only [waiting] at hwaiting
            omega
          · exact List.mem_append_left _ (List.mem_filter.mpr ⟨List.mem_map_of_mem hr, decide_eq_true hid.symm⟩)
      | refused _ _ hr _ =>
        have hnone := hd.tracked.refused x hr
        have hpos := hlooked.1
        omega
      | taken hl hnamed ha hsucc hres _ ho =>
        rw [record, ← hd.om] at hl
        rcases hrecord with ⟨-, hne⟩ | ⟨order, order', hl', hx', -, hl'', hsame, hterm⟩
        · exact absurd (CStr.ext (hnamed.trans hid.symm)) (hne _ hl)
        · refine .taken hl'' ?_ ha hsucc hres (iff_of_true hterm ⟨hlooked, fun hmem => ?_⟩) fun _ => hlooked
          · rw [hsame, hx', hid]
          · rcases List.mem_append.mp hmem with hmem | hmem
            · obtain ⟨a, ha', he⟩ := List.mem_map.mp (List.mem_of_mem_filter hmem)
              exact hres a.2 (by rw [← he]; exact ha')
            · exact hnot (ho hmem)
    · have hv : (d.om.finishFill f).single x.order.orderId = m.om.single x.order.orderId := by
        rcases hrecord with ⟨hv, -⟩ | ⟨order, _, hl, hx', -⟩
        · exact hv
        · have hnamed := hd.once.orderly.sent_named (hd.sent_single hx hsingle) hl (by rw [hx']; exact hfx)
          exact absurd (by rw [← hnamed, hx']) hid
      rw [hd.om] at hv
      refine (h.progress x hx hsingle).keep hv id (fun _ h => h) (fun _ _ _ h => h) ⟨fun hmem => ?_, fun hmem => ?_⟩ ?_
      · rcases List.mem_append.mp hmem with hmem | hmem
        · exact absurd (of_decide_eq_true (List.mem_filter.mp hmem).2).symm hid
        · exact hmem
      · exact List.mem_append_right _ hmem
      · refine and_congr Iff.rfl ⟨fun hall y hy => ?_, fun hall y hy => hall y (List.mem_of_mem_erase hy)⟩
        by_cases hyf : y = (gw, f)
        · rw [hyf]
          exact hid
        · exact hall y ((List.mem_erase_of_ne hyf).mpr hy)

theorem Settling.step (h : d.Settling) (hd : d.Refines m) (hd' : d'.Tracked)
    (hn : d.om.arb.uuid.orderCounter < 10 ^ 11) {de : DeploymentEvent} (hs : d.step de = some d') : d'.Settling := by
  cases de with
  | code e =>
    simp only [Deployment.step] at hs
    split at hs
    · next hc =>
      obtain ⟨om, hom, rfl⟩ := Option.map_eq_some_iff.mp hs
      exact h.code hd hn hc.1 hc.2 hom hd'
    · cases hs
  | result x r now =>
    simp only [Deployment.step] at hs
    split at hs
    · next hmem =>
      obtain ⟨om, hom, rfl⟩ := Option.map_eq_some_iff.mp hs
      exact h.result hd hn hmem hom
    · cases hs
  | sendOrder x txHash draw latencyNs =>
    simp only [Deployment.step] at hs
    split at hs
    · next hx =>
      obtain ⟨s, hgw, rfl⟩ := Option.map_eq_some_iff.mp hs
      exact h.sendOrder hd.tracked hx (GatewayState.reported_step hgw fun _ he => by cases he)
    · cases hs
  | check gw o txHash draw now =>
    simp only [Deployment.step] at hs
    obtain ⟨s, hgw, rfl⟩ := Option.map_eq_some_iff.mp hs
    exact h.gateway (GatewayState.reported_step hgw fun _ he => by cases he)
  | cancelOrder gw id =>
    simp only [Deployment.step] at hs
    obtain ⟨s, hgw, rfl⟩ := Option.map_eq_some_iff.mp hs
    exact h.gateway (GatewayState.reported_step hgw fun _ he => by cases he)
  | callback gw f now =>
    simp only [Deployment.step] at hs
    split at hs
    · obtain ⟨s, hgw, rfl⟩ := Option.map_eq_some_iff.mp hs
      exact h.callback hd hn hgw now
    · cases hs
  | finish gw f =>
    simp only [Deployment.step] at hs
    split at hs
    · next hf =>
      obtain rfl := Option.some.inj hs
      exact h.finish hd hf
    · cases hs

/-- An order without a thread or callback. -/
theorem Settling.at_rest (h : d.Settling) (htasks : d.om.tasks = []) (hfinishing : d.finishing = [])
    (hx : x ∈ d.handed) (hs : x.sender = .single) {o : Order} (hl : d.om.orders.lookup x.order.orderId = some o)
    (ht : d.Tracked) : isTerminal o.status = true ↔
      d.Refused x ∨ 0 < d.reported x.order.exchangeId ∧ x ∉ d.overtaken := by
  have hlooked : d.LookedUp x ↔ 0 < d.reported x.order.exchangeId := by
    unfold LookedUp
    rw [hfinishing]
    exact and_iff_left nofun
  cases h.progress x hx hs with
  | unanswered hr _ _ =>
    have := List.mem_of_mem_filter hr
    rw [htasks] at this
    cases this
  | refused hl' hst hr _ =>
    obtain rfl := Option.some.inj (hl.symm.trans hl')
    exact iff_of_true (by rw [hst]; rfl) (.inl hr)
  | @taken _ r hl' _ ha hsucc _ hst _ =>
    obtain rfl := Option.some.inj (hl.symm.trans hl')
    rw [hst, hlooked]
    refine ⟨.inr, fun hor => hor.resolve_left ?_⟩
    intro ⟨a, ha', hax, hfail⟩
    subst hax
    rw [h.answer_unique ht ha ha', hfail] at hsucc
    cases hsucc

/-- An order without a thread that was never handed over. -/
theorem Settling.unsent_rejected (h : d.Settling) (hd : d.Refines m) (htasks : d.om.tasks = []) {id : CStr 15}
    {o : Order} (hl : d.om.orders.lookup id = some o)
    (hsent : ¬ ∃ x ∈ d.handed, x.sender = .single ∧ x.order.orderId = id) : o.status = .REJECTED := by
  have hlife := hd.once.orderly.life id
  rw [hd.om] at hlife
  have hnone : (d.om.single id).tasks = [] := by rw [OrderManager.single, htasks]; rfl
  have hrecord : (d.om.single id).order = some o := hl
  have hnotSent : ∀ o', o'.orderId = id → .sendOrder o'.signal.exchange o' ∉ (d.om.single id).log := by
    intro o' hid hmem
    subst hid
    obtain ⟨x, hx, hs, rfl⟩ := h.sent o' (OrderManager.sent_single.mpr hmem)
    exact hsent ⟨x, hx, hs, rfl⟩
  generalize d.om.single id = v at hlife hnone hrecord hnotSent
  cases hlife with
  | undrawn => cases hrecord
  | refused _ hst =>
    obtain rfl := Option.some.inj hrecord
    exact hst
  | answered hu _ _ => exact absurd (List.mem_append_right _ (List.mem_singleton_self _)) (hnotSent _ hu.orderId)
  | _ => cases hnone

end

end Deployment

section
variable (signalConfig : SignalConfig) (portfolioConfig : PortfolioConfig) (arbConfig : ArbConfig)
  (hasGateway : Exchange → Bool) (gateways : Exchange → MockGateway)

theorem settling_run (hkinds : ∀ gw, (gateways gw).exchangeType = getExchangeType gw)
    {es : List DeploymentEvent} {d : Deployment}
    (hids : Along Deployment.step (fun d _ => d.om.arb.uuid.orderCounter < 10 ^ 11)
      (.init signalConfig portfolioConfig arbConfig hasGateway gateways) es)
    (hr : run Deployment.step (.init signalConfig portfolioConfig arbConfig hasGateway gateways) es = some d) :
    d.Settling ∧ ∃ m, d.Refines m ∧ m.Staged := by
  refine inv_along (I := fun d => d.Settling ∧ ∃ m, d.Refines m ∧ m.Staged)
    (fun d de d' ⟨h, m, hd, hm⟩ hn hs => ?_) hids
    ⟨Deployment.settling_init .., _, Deployment.refines_init _ _ _ _ hkinds, Market.staged_init ..⟩ hr
  obtain ⟨m', hd', hm'⟩ : ∃ m', d'.Refines m' ∧ m'.Staged := by
    rcases hd.step hn hs with ⟨-, hd'⟩ | ⟨_, m', -, hstep, hd'⟩
    · exact ⟨m, hd', hm⟩
    · exact ⟨m', hd', hm.step (by rw [hd.om]; exact hn) hstep⟩
  exact ⟨h.step hd hd'.tracked hn hs, m', hd', hm'⟩

/-- At rest an order in `orders_` is open exactly when its gateway took it, and its
report has not come or came before the manager had the result. Every other order is
`FILLED` or `REJECTED`. -/
theorem open_at_rest (hkinds : ∀ gw, (gateways gw).exchangeType = getExchangeType gw)
    {es : List DeploymentEvent} {d : Deployment}
    (hids : Along Deployment.step (fun d _ => d.om.arb.uuid.orderCounter < 10 ^ 11)
      (.init signalConfig portfolioConfig arbConfig hasGateway gateways) es)
    (hr : run Deployment.step (.init signalConfig portfolioConfig arbConfig hasGateway gateways) es = some d)
    (htasks : d.om.tasks = []) (hfinishing : d.finishing = []) (id : CStr 15) (o : Order)
    (hl : d.om.orders.lookup id = some o) :
    (isTerminal o.status = false ↔ ∃ x ∈ d.handed, x.sender = .single ∧ x.order.orderId = id ∧ ¬ d.Refused x ∧
      (d.reported x.order.exchangeId = 0 ∨ x ∈ d.overtaken)) ∧
    (isTerminal o.status = true → o.status = .FILLED ∨ o.status = .REJECTED) := by
  obtain ⟨h, m, hd, hstaged⟩ := settling_run _ _ _ _ _ hkinds hids hr
  refine ⟨?_, hstaged.closed (by rw [hd.om]; exact hl)⟩
  by_cases hsent : ∃ x ∈ d.handed, x.sender = .single ∧ x.order.orderId = id
  · obtain ⟨x, hx, hs, rfl⟩ := hsent
    have hrest := h.at_rest htasks hfinishing hx hs hl hd.tracked
    rw [← Bool.not_eq_true, hrest]
    constructor
    · intro hopen
      refine ⟨x, hx, hs, rfl, fun hr => hopen (.inl hr), ?_⟩
      by_contra hnone
      simp only [not_or] at hnone
      exact hopen (.inr ⟨Nat.pos_of_ne_zero hnone.1, hnone.2⟩)
    · intro hleft hor
      obtain ⟨y, hy, -, hid, hnot, hopen⟩ := hleft
      obtain rfl := List.inj_on_of_nodup_map hd.tracked.distinct hy hx hid
      rcases hor.resolve_left hnot with ⟨hpos, hfree⟩
      rcases hopen with hzero | hover
      · omega
      · exact hfree hover
  · -- the order was refused before it was handed over
    refine iff_of_false ?_ fun hopen => hsent (hopen.imp fun _ hx => ⟨hx.1, hx.2.1, hx.2.2.1⟩)
    rw [h.unsent_rejected hd htasks hl hsent]
    decide

end

namespace Sample

/-- The callback of the order is over before the manager has its result. -/
def overtaking : List DeploymentEvent :=
  deployed.take 10 ++ [.finish .BINANCE singleFill, .result singleHandover taken 3]

end Sample

theorem open_at_rest_overtaken : ∃ d o, run Deployment.step Sample.deployment Sample.overtaking = some d ∧
    d.om.orders.lookup (storedOrderId 1) = some o ∧ isTerminal o.status = false ∧
      ∃ x ∈ d.handed, x.sender = .single ∧ x.order.orderId = storedOrderId 1 ∧ ¬ d.Refused x ∧
        (d.reported x.order.exchangeId = 0 ∨ x ∈ d.overtaken) := by
  obtain ⟨d, hd, hrest⟩ : ∃ d, run Deployment.step Sample.deployment Sample.overtaking = some d ∧
      some (decide (d.om.tasks = [] ∧ d.finishing = [] ∧
        (d.om.orders.lookup (storedOrderId 1)).map (·.status) = some .ACKNOWLEDGED)) = some true :=
    Option.bind_eq_some_iff.mp (show (run Deployment.step Sample.deployment Sample.overtaking).bind (fun d =>
      some (decide (d.om.tasks = [] ∧ d.finishing = [] ∧
        (d.om.orders.lookup (storedOrderId 1)).map (·.status) = some .ACKNOWLEDGED))) = some true by decide +kernel)
  obtain ⟨htasks, hfinishing, hstatus⟩ := of_decide_eq_true (Option.some.inj hrest)
  obtain ⟨o, ho, hack⟩ := Option.map_eq_some_iff.mp hstatus
  have hopen : isTerminal o.status = false := by rw [hack]; rfl
  exact ⟨d, o, hd, ho, hopen, (open_at_rest {} {} {} (fun _ => true) Sample.mockGateways
    (fun gw => by cases gw <;> rfl) (by decide +kernel) hd htasks hfinishing _ o ho).1.mp hopen⟩

end OrderExecution
