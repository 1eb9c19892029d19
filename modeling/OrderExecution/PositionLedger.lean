import OrderExecution.Bookings
import OrderExecution.NakedLeg

/-!
# Positions and fills

When everything is settled, the position of a symbol is the sum of its fills, in
every run whose steps lose none: each fill is booked, or an unwind cancels it.
A single-leg fill that is looked up before its send result is booked nowhere.
-/

namespace OrderExecution

open ArbCoordinator Machine PortfolioGuard

/-! ## Sums by keys -/

section
variable {α β κ : Type} [DecidableEq κ]

theorem sum_map_eq_sum_keys (f : α → ℚ) (key : α → κ) (l : List α) (keys : Finset κ)
    (hk : ∀ x ∈ l, key x ∈ keys) : (l.map f).sum = ∑ k ∈ keys, ((l.filter (key · = k)).map f).sum := by
  induction l with
  | nil => simp
  | cons x l ih =>
    have hsplit : ∀ k, (((x :: l).filter (key · = k)).map f).sum =
        (if key x = k then f x else 0) + ((l.filter (key · = k)).map f).sum := by
      intro k
      by_cases h : key x = k <;> simp [h]
    rw [List.map_cons, List.sum_cons, ih fun y hy => hk y (List.mem_cons_of_mem _ hy)]
    simp only [hsplit, Finset.sum_add_distrib, Finset.sum_ite_eq, hk x (List.mem_cons_self ..), ite_true]

theorem sum_map_congr_keys {f₁ : α → ℚ} {f₂ : β → ℚ} (key₁ : α → κ) (key₂ : β → κ) {l₁ : List α} {l₂ : List β}
    (h : ∀ k, ((l₁.filter (key₁ · = k)).map f₁).sum = ((l₂.filter (key₂ · = k)).map f₂).sum) :
    (l₁.map f₁).sum = (l₂.map f₂).sum := by
  let keys := (l₁.map key₁).toFinset ∪ (l₂.map key₂).toFinset
  rw [sum_map_eq_sum_keys f₁ key₁ l₁ keys, sum_map_eq_sum_keys f₂ key₂ l₂ keys]
  · exact Finset.sum_congr rfl fun k _ => h k
  · exact fun x hx => Finset.mem_union_right _ (List.mem_toFinset.mpr (List.mem_map_of_mem hx))
  · exact fun x hx => Finset.mem_union_left _ (List.mem_toFinset.mpr (List.mem_map_of_mem hx))

end

/-! ## Settled states -/

def SingleTask.waits : SingleTask → Bool
  | .result _ => true
  | _ => false

def ManagerEffect.sentOrder : ManagerEffect → Option Order
  | .sendOrder _ o => some o
  | .processed _ | .bookFill _ _ _ _ => none

namespace Market

/-- Every pair is over, and no send result, unwind or message is outstanding. -/
def Settled (m : Market) : Prop :=
  (∀ e ∈ m.om.arb.pairs.entries, e.2.status.isFinal = true) ∧ (∀ w ∈ m.om.arb.workers, w.waits = false) ∧
    (∀ t ∈ m.om.tasks, t.waits = false) ∧ (∀ x ∈ m.om.arb.log, ∀ r ∈ x.orders, r.2.orderId ∈ m.closed) ∧
    (∀ x ∈ m.om.log, ∀ o ∈ x.sentOrder, o.orderId ∈ m.closedSingles) ∧ m.pending = []

instance (m : Market) : Decidable m.Settled := inferInstanceAs (Decidable (_ ∧ _ ∧ _ ∧ _ ∧ _ ∧ _))

def delivered (W : Signal → ℚ → ℚ) (m : Market) : ℚ :=
  (m.fills.map fun r => W r.order.signal r.qty).sum + (m.singleFills.map fun x => W x.1.signal x.2).sum

/-- Once everything is settled, each position is what was filled. -/
def Conserved (m : Market) : Prop :=
  m.Settled → ∀ y, m.om.arb.portfolio.position y = m.delivered (held y)

/-! ## Steps that lose no fill -/

/-- The step leaves no filled leg of a pair uncovered, and drops none. -/
def LegsSafe (m : Market) (me : MarketEvent) : Prop :=
  ∀ a ∈ m.arbEvent me, ∀ g ∈ m.om.arb.touched a,
    LegsKept g m.om.arb a ∧ LegsCovered (fun _ _ => True) g m.om.arb a

def UnwindFull : MarketEvent → Prop
  | .legMessage _ .unwind o f _ => f.isReject = false ∧ f.filledQty = o.signal.quantity
  | .noLegMessage _ .unwind _ => False
  | _ => True

/-- A single-leg fill is looked up when its order has its exchange id. -/
def FillNamed (m : Market) : MarketEvent → Prop
  | .finish o f => m.om.Sent o → f.isReject = false →
      ∃ order ∈ m.om.orders.lookup o.orderId, order.exchangeOrderId ≠ .empty
  | _ => True

def LosesNone (m : Market) (me : MarketEvent) : Prop := m.LegsSafe me ∧ UnwindFull me ∧ m.FillNamed me

instance (m : Market) (me : MarketEvent) : Decidable (m.LegsSafe me) :=
  inferInstanceAs (Decidable (∀ a ∈ m.arbEvent me, ∀ g ∈ m.om.arb.touched a,
    LegsKept g m.om.arb a ∧ LegsCovered (fun _ _ => True) g m.om.arb a))

instance : ∀ me, Decidable (UnwindFull me)
  | .legMessage _ .unwind o f _ => inferInstanceAs (Decidable (f.isReject = false ∧ f.filledQty = o.signal.quantity))
  | .noLegMessage _ .unwind _ => isFalse id
  | .legMessage _ .cexLeg _ _ _ | .legMessage _ .dexLeg _ _ _ => isTrue trivial
  | .noLegMessage _ .cexLeg _ | .noLegMessage _ .dexLeg _ => isTrue trivial
  | .code _ | .message _ _ _ | .noMessage _ | .finish _ _ => isTrue trivial

instance (m : Market) : ∀ me, Decidable (m.FillNamed me)
  | .finish o f => inferInstanceAs (Decidable (m.om.Sent o → f.isReject = false →
      ∃ order ∈ m.om.orders.lookup o.orderId, order.exchangeOrderId ≠ .empty))
  | .code _ | .legMessage _ _ _ _ _ | .noLegMessage _ _ _ | .message _ _ _ | .noMessage _ => isTrue trivial

instance (m : Market) (me : MarketEvent) : Decidable (m.LosesNone me) := inferInstanceAs (Decidable (_ ∧ _ ∧ _))

def Trades (symbols : Finset (CStr 15)) : MarketEvent → Prop
  | .code (.processSignal s _ _) => s.symbol ∈ symbols
  | _ => True

instance (symbols : Finset (CStr 15)) : ∀ me, Decidable (Trades symbols me)
  | .code (.processSignal s _ _) => inferInstanceAs (Decidable (s.symbol ∈ symbols))
  | .code (.task _ _ _ _) | .code (.arb _) | .code (.onFill _ _) | .code (.finishFill _) => isTrue trivial
  | .legMessage _ _ _ _ _ | .noLegMessage _ _ _ | .message _ _ _ | .noMessage _ | .finish _ _ => isTrue trivial

/-! ## Symbols -/

/-- Every order is about one of the symbols. -/
structure InSymbols (symbols : Finset (CStr 15)) (m : Market) : Prop where
  tasks : ∀ t ∈ m.om.tasks, t.order.signal.symbol ∈ symbols
  orders : ∀ id o, m.om.orders.lookup id = some o → o.signal.symbol ∈ symbols
  legs : ∀ g p b, m.om.arb.pairs.lookup g = some p → p.hasLeg b = true → (p.leg b).signal.symbol ∈ symbols

section
variable {symbols : Finset (CStr 15)} {m m' : Market} {me : MarketEvent} {id : CStr 15}

theorem order_origin {om om' : OrderManager} {e : ManagerEvent} (h : om.step e = some om') {o' : Order}
    (hl : om'.orders.lookup id = some o') :
    (∃ o, om.orders.lookup id = some o ∧ o.signal = o'.signal) ∨ ∃ t ∈ om.tasks, t.order.signal = o'.signal := by
  have hstep := OrderManager.single_step h id
  have hl' : (om'.single id).order = some o' := hl
  generalize om'.single id = v' at hstep hl'
  cases hstep with
  | store ht hs =>
    obtain rfl := Option.some.inj hl'
    refine .inr ⟨_, List.mem_of_mem_filter ht, ?_⟩
    cases hs <;> rfl
  | result _ h₀ => exact .inl ⟨_, h₀, Option.some.inj hl' ▸ (signal_answeredBy ..).symm⟩
  | rejected _ h₀ _ => exact .inl ⟨_, h₀, Option.some.inj hl' ▸ rfl⟩
  | @filled f order _ h₀ _ => exact .inl ⟨_, h₀, Option.some.inj hl' ▸ (filledBy_fields order f).2.1.symm⟩
  | _ => exact .inl ⟨o', hl', rfl⟩

theorem InSymbols.step (h : InSymbols symbols m) (ho : m.Orderly) (ht : Trades symbols me)
    (hs : m.step me = some m') : InSymbols symbols m' where
  tasks := by
    intro t hm
    rcases om_step hs with ⟨-, hom⟩ | ⟨e, he, hom⟩
    · exact h.tasks t (hom ▸ hm)
    · rcases OrderManager.task_origin hom hm with ⟨t₀, ht₀, -, hsig⟩ | ⟨receiveNs, now, rfl, -⟩
      · rw [← hsig]
        exact h.tasks t₀ ht₀
      · cases me <;> cases he
        exact ht
  orders := by
    intro id o' hl
    rcases om_step hs with ⟨-, hom⟩ | ⟨e, -, hom⟩
    · exact h.orders id o' (hom ▸ hl)
    · rcases order_origin hom hl with ⟨o, hl, hsig⟩ | ⟨t, hm, hsig⟩
      · exact hsig ▸ h.orders id o hl
      · exact hsig ▸ h.tasks t hm
  legs := by
    intro g p b hp hb
    rcases arb_step hs with ⟨-, harb⟩ | ⟨a, ha, hstep⟩
    · exact h.legs g p b (harb ▸ hp) hb
    · rcases (step_view ho.tagged.keyed hstep g).leg_origin hp hb with
        ⟨q, hq, hbq, -, hsig⟩ | ⟨s, now, rfl, -, -, -, hsig⟩
      · rw [hsig]
        exact h.legs g q b hq hbq
      · rw [hsig]
        rcases om_step hs with ⟨hnone, -⟩ | ⟨e, he, hom⟩
        · rw [arbEvent, hnone] at ha; cases ha
        · rw [arbEvent, he, Option.bind_some] at ha
          obtain ⟨receiveNs, rfl, -⟩ := OrderManager.arbEvent_addLeg hom ha
          cases me <;> cases he
          exact ht

theorem InSymbols.guardOps (h : InSymbols symbols m) (ho : m.Orderly) (hs : m.step me = some m') {a : ArbEvent}
    (ha : m.arbEvent me = some a) (hstep : m.om.arb.step a = some m'.om.arb) :
    ∀ op ∈ m.om.arb.guardOps a, ∀ s ∈ op.signals, s.symbol ∈ symbols := by
  intro op hop s hsig
  by_cases he : ∃ op, a = .portfolio op
  · obtain ⟨op', rfl⟩ := he
    obtain rfl := List.mem_singleton.mp hop
    rcases om_step hs with ⟨hnone, -⟩ | ⟨e, he, hom⟩
    · rw [arbEvent, hnone] at ha; cases ha
    · rw [arbEvent, he, Option.bind_some] at ha
      rcases OrderManager.arbEvent_portfolio hom ha with ⟨o, ho', rfl | rfl⟩ | ⟨f, i, o, rfl, hf, rfl⟩
      · obtain ⟨t, hm, rfl⟩ := List.mem_map.mp ho'
        exact List.mem_singleton.mp hsig ▸ h.tasks t hm
      · obtain ⟨t, hm, rfl⟩ := List.mem_map.mp ho'
        exact List.mem_singleton.mp hsig ▸ h.tasks t hm
      · have hso : s = o.signal := by
          split at hsig <;> exact List.mem_singleton.mp hsig
        exact hso ▸ h.orders i o (OrderManager.lookup_of_findOrder hf).1
  · obtain ⟨g, p, b, -, hp, hb, rfl⟩ := guardOps_signals ho.tagged.complete hstep (fun op h => he ⟨op, h⟩) hop hsig
    exact h.legs g p b hp hb

end

/-! ## Positions and logs -/

/-- The positions are what the two logs record. -/
structure Recorded (symbols : Finset (CStr 15)) (m : Market) : Prop where
  guard : m.om.arb.portfolio.Booked symbols
  position : ∀ y, m.om.arb.portfolio.position y = m.om.arb.booked (held y) + m.om.booked (held y)

section
variable {symbols : Finset (CStr 15)} {m m' : Market} {me : MarketEvent} {id : CStr 15}

theorem Recorded.step (h : Recorded symbols m) (hsym : InSymbols symbols m) (ho : m.Orderly)
    (hs : m.step me = some m') : Recorded symbols m' := by
  rcases om_step hs with ⟨-, hom⟩ | ⟨e, he, hom⟩
  · refine ⟨?_, fun y => ?_⟩ <;> rw [hom]
    · exact h.guard
    · exact h.position y
  · have hrec := fun y => OrderManager.recorded_step (W := held y) hom
    have harbEvent : m.arbEvent me = m.om.arbEvent e := by rw [arbEvent, he, Option.bind_some]
    rcases arb_step hs with ⟨ha, harb⟩ | ⟨a, ha, hstep⟩
    · refine ⟨by rw [harb]; exact h.guard, fun y => ?_⟩
      rw [hrec, ← harbEvent, ha, harb, h.position y]
      simp
    · have hall := h.guard.applyAll (hsym.guardOps ho hs ha hstep)
      rw [← portfolio_step hstep] at hall
      refine ⟨(hall .empty).1, fun y => ?_⟩
      rw [(hall y).2, h.position y, hrec, ← harbEvent, ha, Option.map_some, Option.getD_some]

end

/-! ## Single-leg fills -/

/-- What a callback will book, if it is about a single-leg order. -/
def due (W : Signal → ℚ → ℚ) (others : List (CStr 15)) (x : Order × Fill) : ℚ :=
  if x.1.orderId ∈ others ∧ x.2.isReject = false then W x.1.signal x.2.filledQty else 0

def awaited (W : Signal → ℚ → ℚ) (m : Market) : ℚ := (m.pending.map (due W m.others)).sum

def singles (W : Signal → ℚ → ℚ) (m : Market) : ℚ := (m.singleFills.map fun x => W x.1.signal x.2).sum

section
variable {W : Signal → ℚ → ℚ} {m m' : Market} {me : MarketEvent}

theorem due_step (h : m.Orderly) (hn : m.om.arb.uuid.orderCounter < 10 ^ 11) (hs : m.step me = some m')
    {x : Order × Fill} (hx : x ∈ m.pending) : due W m'.others x = due W m.others x := by
  have hmem : x.1.orderId ∈ m'.others ↔ x.1.orderId ∈ m.others := by
    rw [others_step hs]
    split
    · simp [h.pending_not_fresh hn hx]
    · rfl
  unfold due
  simp only [hmem]

theorem awaited_of_pending_eq (h : m.Orderly) (hn : m.om.arb.uuid.orderCounter < 10 ^ 11)
    (hs : m.step me = some m') (he : m'.pending = m.pending) : m'.awaited W = m.awaited W := by
  rw [awaited, he, awaited]
  exact congrArg List.sum (List.map_congr_left fun x hx => due_step h hn hs hx)

theorem booked_finish (h : m.Orderly) {o : Order} {f : Fill} (hp : (o, f) ∈ m.pending)
    (hname : m.FillNamed (.finish o f)) : (m.om.finishFill f).booked W = m.om.booked W + due W m.others (o, f) := by
  rw [OrderManager.booked_finishFill]
  refine congrArg _ ?_
  cases hf : m.om.findOrder f.exchangeOrderId with
  | none =>
    symm
    refine if_neg ?_
    rintro ⟨hid, hr⟩
    obtain ⟨hx, hsent⟩ := h.pending _ hp
    have hsent : m.om.Sent o := by
      rcases hsent with hsent | ⟨g, role, hsent⟩
      · exact hsent
      · exact absurd hsent (h.not_arbSent hid g role)
    obtain ⟨order, hl, hne⟩ := hname hsent hr
    have hne : order.exchangeOrderId.bytes ≠ [] := fun he => hne (CStr.ext he)
    obtain ⟨o', l, hv, -, -, hid', hb⟩ := h.taken hl hne
    have hmem := OrderManager.sent_single.mp hsent
    rw [hv] at hmem
    have hoo : o' = o := by
      rcases List.mem_append.mp hmem with hm | hm
      · obtain ⟨price, qty, he⟩ := hb _ hm
        cases he
      · exact (ManagerEffect.sendOrder.inj (List.mem_singleton.mp hm)).2.symm
    have hfind := h.findOrder_self hl hne
    rw [show order.exchangeOrderId = f.exchangeOrderId from CStr.ext (by rw [hid', hoo, ← hx]), hf] at hfind
    cases hfind
  | some y =>
    obtain ⟨id, order⟩ := y
    obtain ⟨l, hv, hu, ha, -⟩ := h.callback_finds hp hf
    have hid : o.orderId ∈ m.others := hu.orderId ▸ h.others_of_order (OrderManager.lookup_of_findOrder hf).1
    simp only [due, hid, true_and, ha.signal]
    cases f.isReject <;> rfl

theorem singles_step (h : m.Orderly) (hn : m.om.arb.uuid.orderCounter < 10 ^ 11) (hname : m.FillNamed me)
    (hs : m.step me = some m') (hsum : m.om.booked W + m.awaited W = m.singles W) :
    m'.om.booked W + m'.awaited W = m'.singles W := by
  cases steps_of_step hs with
  | code hmsg _ hom =>
    have hbook := OrderManager.booked_step (W := W) hom
    split at hbook
    · next op ha =>
      rcases OrderManager.arbEvent_portfolio hom ha with ⟨o, -, rfl | rfl⟩ | ⟨f, i, o, rfl, -⟩
      · rw [awaited_of_pending_eq h hn hs rfl, hbook, GuardOp.booked, add_zero]; exact hsum
      · rw [awaited_of_pending_eq h hn hs rfl, hbook, GuardOp.booked, add_zero]; exact hsum
      · cases hmsg
    · rw [awaited_of_pending_eq h hn hs rfl, hbook, add_zero]; exact hsum
  | @legMessage g role o f now hsent _ _ =>
    -- the callback is about a leg, and owes nothing
    have hother : o.orderId ∉ m.others := fun hid => h.not_arbSent hid g role hsent
    simp only [awaited, List.map_cons, List.sum_cons]
    rw [show due W m.others (o, f) = 0 from if_neg fun hd => hother hd.1, zero_add]
    exact hsum
  | noLegMessage _ _ | noMessage _ _ => exact hsum
  | @message o f now hsent _ _ =>
    have hid : o.orderId ∈ m.others := h.sent_others hsent
    have hdue : due W m.others (o, f) = if f.isReject then 0 else W o.signal f.filledQty := by
      simp only [due, hid, true_and]
      cases f.isReject <;> rfl
    have hsingles : ((if f.isReject then m.singleFills else (o, f.filledQty) :: m.singleFills).map
        fun x => W x.1.signal x.2).sum = due W m.others (o, f) + m.singles W := by
      rw [hdue]
      cases f.isReject <;> simp [singles]
    simp only [awaited, singles, List.map_cons, List.sum_cons] at hsum hsingles ⊢
    rw [hsingles, ← hsum]
    exact add_left_comm ..
  | @finish o f hp =>
    -- what the callback owed is what it books
    have herase : m.awaited W = due W m.others (o, f) + ((m.pending.erase (o, f)).map (due W m.others)).sum :=
      ((List.perm_cons_erase hp).map (due W m.others)).sum_eq
    have hbook := booked_finish (W := W) h hp hname
    simp only [awaited, hbook]
    rw [add_assoc, ← herase]
    exact hsum

end

/-! ## Fills of pairs -/

/-- An order whose message came was sent, and filled in full if it unwinds. -/
def ClosedFull (m : Market) : Prop :=
  ∀ id ∈ m.closed, ∃ g role o, m.om.arb.Sent g role o ∧ o.orderId = id ∧
    (role = .unwind → ⟨g, .unwind, o, o.signal.quantity⟩ ∈ m.fills)

section
variable {W : Signal → ℚ → ℚ} {R : ℚ → ℚ → Prop} {m m' : Market} {me : MarketEvent} {g : CStr 15}

theorem arbSent_step (h : m.Orderly) (hs : m.step me = some m') {g : CStr 15} {role : LegRole} {o : Order}
    (hsent : m.om.arb.Sent g role o) : m'.om.arb.Sent g role o := by
  obtain ⟨y, hy, hsend⟩ := hsent
  rcases arb_step hs with ⟨-, harb⟩ | ⟨a, -, hstep⟩
  · exact ⟨y, harb ▸ hy, hsend⟩
  · exact ⟨y, log_mono h.tagged.keyed hstep hy, hsend⟩

theorem ClosedFull.step (h : m.ClosedFull) (ho : m.Orderly) (hu : UnwindFull me) (hs : m.step me = some m') :
    m'.ClosedFull := by
  have keep : ∀ id ∈ m.closed, m.fills ⊆ m'.fills → ∃ g role o, m'.om.arb.Sent g role o ∧ o.orderId = id ∧
      (role = .unwind → ⟨g, .unwind, o, o.signal.quantity⟩ ∈ m'.fills) := by
    intro id hid hsub
    obtain ⟨g, role, o, hsent, ho', hfull⟩ := h id hid
    exact ⟨g, role, o, arbSent_step ho hs hsent, ho', fun hr => hsub (hfull hr)⟩
  intro id hid
  cases steps_of_step hs with
  | code _ _ _ | message _ _ _ | noMessage _ _ | finish _ => exact keep id hid (List.Subset.refl _)
  | @legMessage g role o f now hsent _ _ =>
    rcases List.mem_cons.mp hid with rfl | hid
    · refine ⟨g, role, o, arbSent_step ho hs hsent, rfl, ?_⟩
      rintro rfl
      obtain ⟨hr, hq⟩ := hu
      simp [hr, hq]
    · refine keep id hid ?_
      show m.fills ⊆ if f.isReject then m.fills else _ :: m.fills
      split
      · exact List.Subset.refl _
      · exact List.subset_cons_self ..
  | @noLegMessage g role o hsent _ =>
    rcases List.mem_cons.mp hid with rfl | hid
    · refine ⟨g, role, o, arbSent_step ho hs hsent, rfl, ?_⟩
      rintro rfl
      exact hu.elim
    · exact keep id hid (List.Subset.refl _)

theorem ledger_step (h : m.world.Ledger W R g) (ho : m.Orderly) (hn : m.om.arb.uuid.orderCounter < 10 ^ 11)
    (hW : Cancels W) (hs : m.step me = some m')
    (hlegs : ∀ a ∈ m.arbEvent me, LegsKept g m.om.arb a ∧ LegsCovered R g m.om.arb a) : m'.world.Ledger W R g := by
  rcases ho.world_step hs with ⟨-, hw⟩ | ⟨we, he, hw⟩
  · rw [hw]; exact h
  · refine h.step hW ⟨hn, ?_, ?_⟩ hw
    · exact fun e hwe => (hlegs e (he ▸ hwe)).1
    · exact fun e hwe => (hlegs e (he ▸ hwe)).2

theorem legs_untouched {c : ArbCoordinator} {a : ArbEvent} (h : c.touched a ≠ some g) :
    LegsKept g c a ∧ LegsCovered R g c a := by
  cases a with
  | addLeg s now => exact ⟨fun hg => absurd (congrArg some hg) h, trivial⟩
  | worker w r now =>
    refine ⟨trivial, ?_⟩
    cases w with
    | sendResult g' b => exact fun hg => absurd (congrArg some hg) h
    | riskWindow g' => exact fun hg => absurd (congrArg some hg) h
    | _ => trivial
  | onFill x price qty isReject now =>
    refine ⟨trivial, fun y hy hg => absurd ?_ h⟩
    simp only [touched]
    rw [Option.mem_def.mp hy, Option.map_some, hg]
  | _ => exact ⟨trivial, trivial⟩

end

end Market

/-! ## Pairs that are over -/

namespace World

section
variable {W : Signal → ℚ → ℚ} {R : ℚ → ℚ → Prop} {w : World} {g : CStr 15}

theorem Ledger.unwindOrder_unique (h : w.Ledger W R g) {o o' : Order} (ho : o ∈ (w.arb.view g).unwindOrders)
    (ho' : o' ∈ (w.arb.view g).unwindOrders) : o = o' := by
  have nil : (w.arb.view g).unwindOrders ≠ [] := List.ne_nil_of_mem ho
  cases hp : (w.arb.view g).pair with
  | none => exact absurd (h.balanced.absent hp).2.2.2 nil
  | some p =>
    obtain ⟨ph, -, hh⟩ := h.balanced.phase p hp
    cases ph with
    | idle => exact absurd hh.2.2.2 nil
    | cexOnly => exact absurd hh.2.2.2.1 nil
    | dexOnly => exact absurd hh.2.2.2 nil
    | both => exact absurd hh.2.2.2.2.1 nil
    | unwound =>
      obtain ⟨-, -, o₀, h₀, -⟩ := hh
      rw [h₀, List.mem_singleton] at ho ho'
      rw [ho, ho']

/-- Once the pair is over, what was booked for it is what was filled. -/
theorem Ledger.settled (h : w.Ledger W R g) (hfinal : ∀ p ∈ w.arb.pairs.lookup g, p.status.isFinal = true)
    (hq : w.Quiet g) (hf : w.UnwindsFilled g) : (w.arb.view g).booked W =
      w.filled W g .cexLeg + w.filled W g .dexLeg + w.filled W g .unwind := by
  cases hp : (w.arb.view g).pair with
  | none =>
    obtain ⟨h₁, h₂, h₃, h₄⟩ := h.balanced.absent hp
    rw [h₁, h₂, h₃, h.unwind_none h₄]
    norm_num
  | some p =>
    obtain ⟨ph, ha, hh⟩ := h.balanced.phase p hp
    have hfinal := hfinal p hp
    cases ph with
    | idle =>
      obtain ⟨h₁, h₂, h₃, h₄⟩ := hh
      rw [h₁, h₂, h₃, h.unwind_none h₄]
      norm_num
    | cexOnly | dexOnly =>
      rw [of_decide_eq_true ha] at hfinal
      cases hfinal
    | both =>
      obtain ⟨-, -, -, hbook, hn, -⟩ := hh
      rw [hbook, h.unwind_none hn, add_zero]
    | unwound =>
      obtain ⟨h₂, h₃, o, ho, hW⟩ := hh
      rw [h.unwind_one ho hq hf, hW, h₂, h₃]
      ring

end

end World

namespace Market

structure Accounts (symbols : Finset (CStr 15)) (m : Market) : Prop where
  orderly : m.Orderly
  trades : m.InSymbols symbols
  recorded : m.Recorded symbols
  singles : ∀ y, m.om.booked (held y) + m.awaited (held y) = m.singles (held y)
  closed : m.ClosedFull
  ledger : ∀ y g, m.world.Ledger (held y) (fun _ _ => True) g

structure Keeps (symbols : Finset (CStr 15)) (m : Market) (me : MarketEvent) : Prop where
  fewIds : m.om.arb.uuid.orderCounter < 10 ^ 11
  trades : Trades symbols me
  safe : m.LosesNone me

section
variable {symbols : Finset (CStr 15)} {m m' : Market} {me : MarketEvent}

theorem Accounts.step (h : m.Accounts symbols) (hk : m.Keeps symbols me) (hs : m.step me = some m') :
    m'.Accounts symbols where
  orderly := h.orderly.step hk.fewIds hs
  trades := h.trades.step h.orderly hk.trades hs
  recorded := h.recorded.step h.trades h.orderly hs
  singles := fun y => singles_step h.orderly hk.fewIds hk.safe.2.2 hs (h.singles y)
  closed := h.closed.step h.orderly hk.safe.2.1 hs
  ledger := by
    intro y g
    refine ledger_step (h.ledger y g) h.orderly hk.fewIds (cancels_held y) hs fun a ha => ?_
    by_cases ht : m.om.arb.touched a = some g
    · exact hk.safe.1 a ha g ht
    · exact legs_untouched ht

theorem accounts_init (signalConfig : SignalConfig) (portfolioConfig : PortfolioConfig) (arbConfig : ArbConfig)
    (hasGateway : Exchange → Bool) (hcard : symbols.card ≤ 128) :
    (init signalConfig portfolioConfig arbConfig hasGateway).Accounts symbols where
  orderly := orderly_init ..
  trades := by
    refine ⟨fun t ht => ?_, fun id o hl => ?_, fun g p b hp => ?_⟩
    · cases ht
    · cases hl
    · cases hp
  recorded := by
    refine ⟨booked_init portfolioConfig hcard, fun y => ?_⟩
    have hnone : (PortfolioGuard.init portfolioConfig).state.positions.find hashKey y.bytes = none := by
      refine (FlatHashMap.find_eq_none (wf_init portfolioConfig).positions).mpr fun v hv => ?_
      have : (y.bytes, v) ∈ (FlatHashMap.empty : Table).entries := hv
      rw [FlatHashMap.entries_empty] at this
      cases this
    rw [PortfolioGuard.position, show (init signalConfig portfolioConfig arbConfig hasGateway).om.arb.portfolio =
      PortfolioGuard.init portfolioConfig from rfl, hnone]
    exact (add_zero (0 : ℚ)).symm
  singles := fun _ => add_zero (0 : ℚ)
  closed := fun id hid => by cases hid
  ledger := fun _ _ => World.ledger_init ..

theorem Settled.quiet (h : m.Settled) (g : CStr 15) : m.world.Quiet g :=
  ⟨fun t ht _ => h.2.1 t ht, fun x hx _ r hr => h.2.2.2.1 x hx r hr⟩

theorem Accounts.unwindsFilled (h : m.Accounts symbols) (hs : m.Settled) (g : CStr 15) : m.world.UnwindsFilled g := by
  intro x hx hg o hxo
  cases x with
  | sendOrder g' role gw o' =>
    cases role with
    | unwind =>
      cases hxo
      obtain rfl : g' = g := hg
      have hled := h.ledger .empty g'
      obtain ⟨g₀, role, o₀, hsent, hid, hfull⟩ := h.closed o.orderId
        (hs.2.2.2.1 _ hx (.unwind, o) (List.mem_singleton_self _))
      have hx' : m.om.arb.Sent g' .unwind o := ⟨_, hx, rfl, rfl, rfl⟩
      obtain ⟨rfl, rfl⟩ := h.orderly.tagged.unique _ _ _ _ o.orderId (hid ▸ World.sent_uses hsent)
        (World.sent_uses hx')
      have hr := hfull rfl
      obtain rfl := hled.unwindOrder_unique (hled.mem_unwindOrders hr rfl rfl)
        (View.mem_unwindOrders.mpr (.inr ⟨_, List.mem_filter.mpr ⟨hx, by simp [ArbEffect.groupId]⟩, rfl⟩))
      exact hr
    | _ => cases hxo
  | _ => cases hxo

theorem Accounts.conserved (h : m.Accounts symbols) : m.Conserved := by
  intro hs y
  have hfinal : ∀ g, ∀ p ∈ m.world.arb.pairs.lookup g, p.status.isFinal = true := fun g p hp =>
    hs.1 ⟨g, p⟩ (AList.mem_lookup_iff.mp hp)
  have hpairs : m.om.arb.booked (held y) = (m.fills.map fun r => held y r.order.signal r.qty).sum := by
    refine sum_map_congr_keys ArbEffect.groupId FillRecord.groupId fun g => ?_
    exact ((h.ledger y g).settled (hfinal g) (hs.quiet g) (h.unwindsFilled hs g)).trans
      (World.sum_fills (held y) m.world g).symm
  have hawaited : m.awaited (held y) = 0 := by
    rw [awaited, hs.2.2.2.2.2]
    rfl
  have hsingles := h.singles y
  rw [hawaited, add_zero] at hsingles
  rw [h.recorded.position, hpairs, hsingles]
  rfl

end

end Market

open Market

/-- In every run whose steps lose no fill, the positions are what was filled in
every settled state. -/
theorem positions_conserved (signalConfig : SignalConfig) (portfolioConfig : PortfolioConfig) (arbConfig : ArbConfig)
    (hasGateway : Exchange → Bool) (symbols : Finset (CStr 15)) (es : List MarketEvent) (hcard : symbols.card ≤ 128)
    (htrades : ∀ me ∈ es, Trades symbols me)
    (hids : Along Market.step (fun m _ => m.om.arb.uuid.orderCounter < 10 ^ 11)
      (.init signalConfig portfolioConfig arbConfig hasGateway) es)
    (hsafe : Along Market.step LosesNone (.init signalConfig portfolioConfig arbConfig hasGateway) es) :
    Always Market.step Conserved (.init signalConfig portfolioConfig arbConfig hasGateway) es := by
  have hk : Along Market.step (Keeps symbols) (.init signalConfig portfolioConfig arbConfig hasGateway) es :=
    ((hids.and (along_of_mem (fun me hme _ => htrades me hme) _)).and hsafe).mono fun _ _ hc =>
      ⟨hc.1.1, hc.1.2, hc.2⟩
  exact Always.mono (fun m hm => hm.conserved)
    (inv_always (I := Accounts symbols) (fun _ _ _ hi hc hs => hi.step hc hs) hk (accounts_init _ _ _ _ hcard))

namespace Sample

def secondOrder : Order := { cexOrder with orderId := storedOrderId 2 }

def thirdOrder : Order := { dexOrder with orderId := storedOrderId 3 }

def fillOf (o : Order) : Fill := { exchangeOrderId := .copy 31 o.exchangeId, filledQty := 1, fillPrice := 100 }

def ackOf (o : Order) : OrderResult := { success := true, exchangeOrderId := .copy 31 o.exchangeId }

def arb (e : ArbEvent) : MarketEvent := .code (.arb e)

def settling : List MarketEvent :=
  sending ++ [task (.result singleSent) taken, .finish singleSent singleFill]

def pairing : List MarketEvent :=
  [.code (.processSignal cexSignal 1 1), .code (.processSignal dexSignal 1 1),
   arb (.dispatch (.enter groupId) 2), arb (.dispatch (.lookup groupId secondOrder thirdOrder) 2),
   arb (.dispatch (.sendCex groupId (some .BINANCE) (some .HYPERLIQUID) secondOrder thirdOrder) 2),
   arb (.dispatch (.sendDex groupId (some .HYPERLIQUID) thirdOrder) 2),
   arb (.worker (.sendResult groupId true) (ackOf secondOrder) 3),
   arb (.worker (.sendResult groupId false) (ackOf thirdOrder) 3),
   .legMessage groupId .cexLeg secondOrder (fillOf secondOrder) 4,
   .legMessage groupId .dexLeg thirdOrder (fillOf thirdOrder) 5,
   .finish secondOrder (fillOf secondOrder), .finish thirdOrder (fillOf thirdOrder)]

def symbols : Finset (CStr 15) := {single.symbol, cexSignal.symbol}

end Sample

theorem positions_conserved_filled :
    Always Market.step Conserved Sample.market (Sample.settling ++ Sample.pairing) :=
  positions_conserved {} {} {} (fun _ => true) Sample.symbols _ (by decide +kernel) (by decide +kernel)
    (by decide +kernel) (by decide +kernel)

/-- The fill of a single-leg order is looked up before its send result. -/
theorem not_positions_conserved :
    ¬ ∀ (signalConfig : SignalConfig) (portfolioConfig : PortfolioConfig) (arbConfig : ArbConfig)
      (hasGateway : Exchange → Bool) (symbols : Finset (CStr 15)) (es : List MarketEvent), symbols.card ≤ 128 →
      (∀ me ∈ es, Trades symbols me) →
      Along Market.step (fun m _ => m.om.arb.uuid.orderCounter < 10 ^ 11)
        (.init signalConfig portfolioConfig arbConfig hasGateway) es →
      Always Market.step Conserved (.init signalConfig portfolioConfig arbConfig hasGateway) es := by
  intro h
  let es := Sample.sending ++ [.finish Sample.singleSent Sample.singleFill,
    Sample.task (.result Sample.singleSent) Sample.taken]
  have halways := h {} {} {} (fun _ => true) Sample.symbols es (by decide +kernel) (by decide +kernel) (by decide +kernel)
  obtain ⟨m, hm, hn⟩ : ∃ m, run Market.step Sample.market es = some m ∧
      some (decide (m.Settled ∧ m.om.arb.portfolio.position Sample.single.symbol ≠
        m.delivered (held Sample.single.symbol))) = some true :=
    Option.bind_eq_some_iff.mp (show (run Market.step Sample.market es).bind
      (fun m => some (decide (m.Settled ∧ m.om.arb.portfolio.position Sample.single.symbol ≠
        m.delivered (held Sample.single.symbol)))) = some true by decide +kernel)
  obtain ⟨hs, hne⟩ := of_decide_eq_true (Option.some.inj hn)
  exact hne (always_iff.mp halways es [] m (List.append_nil _).symm hm hs _)

end OrderExecution
