import OrderExecution.ArbIds
import OrderExecution.LegFills

/-!
# The ledger of a pair

What was filled for the legs of a pair, what was booked for it and what is
being unwound, weighed by a function of signal and quantity. In a run whose
steps leave no filled leg uncovered, the status of the pair tells which of five
phases the ledger is in.
-/

namespace OrderExecution

open ArbCoordinator

/-! ## Steps that leave no filled leg uncovered -/

namespace ArbPair

/-- A reject of this leg finds no filled leg that it would leave alone: a CEX
reject no filled leg at all, a DEX reject no filled leg but a CEX leg that is
still marked as such and filled in full. -/
def RejectCovered (p : ArbPair) (isCexReject : Bool) : Prop :=
  p.status ≠ .DEX_FILLED ∧
    (p.status = .CEX_FILLED → isCexReject = false ∧ p.cexLeg.status = .FILLED ∧
      p.cexLeg.filledQuantity = p.cexLeg.signal.quantity) ∧
    (p.status ≠ .CEX_FILLED → isCexReject = true ∨ p.cexLeg.status ≠ .FILLED)

instance (p : ArbPair) (b : Bool) : Decidable (p.RejectCovered b) :=
  inferInstanceAs (Decidable (_ ∧ (_ → _) ∧ (_ → _)))

/-- A fill of this leg is the first fill of the dispatched pair, or the second
of the other leg, in the quantity `R` asks for. -/
def FillCovered (R : ℚ → ℚ → Prop) (p : ArbPair) (isCex : Bool) (qty : ℚ) : Prop :=
  p.status = .DISPATCHED ∨ p.status = oneSided (!isCex) ∧ R qty (p.leg (!isCex)).filledQuantity

instance (R : ℚ → ℚ → Prop) [DecidableRel R] (p : ArbPair) (b : Bool) (qty : ℚ) :
    Decidable (p.FillCovered R b qty) := inferInstanceAs (Decidable (_ ∨ _ ∧ _))

/-- The risk window finds no filled DEX leg, and a CEX leg only if it is filled
in full. -/
def RiskCovered (p : ArbPair) : Prop :=
  p.status ≠ .DEX_FILLED ∧
    (p.status = .CEX_FILLED → p.cexLeg.filledQuantity = p.cexLeg.signal.quantity)

instance (p : ArbPair) : Decidable p.RiskCovered := inferInstanceAs (Decidable (_ ∧ (_ → _)))

end ArbPair

/-- The step leaves no filled leg of the pair uncovered. -/
def LegsCovered (R : ℚ → ℚ → Prop) (g : CStr 15) (c : ArbCoordinator) : ArbEvent → Prop
  | .worker (.sendResult g' b) r _ =>
    g' = g → r.success = false → ∀ p ∈ c.pairs.lookup g, p.hasLeg b = true → p.RejectCovered b
  | .worker (.riskWindow g') _ _ => g' = g → ∀ p ∈ c.pairs.lookup g, p.RiskCovered
  | .onFill x _ qty isReject _ =>
    ∀ m ∈ c.findLeg x, m.1 = g →
      if isReject then m.2.1.RejectCovered m.2.2 else m.2.1.FillCovered R m.2.2 qty
  | _ => True

instance (R : ℚ → ℚ → Prop) [DecidableRel R] (g : CStr 15) (c : ArbCoordinator) :
    ∀ e, Decidable (LegsCovered R g c e)
  | .worker (.sendResult g' b) r _ => inferInstanceAs (Decidable (g' = g → r.success = false →
      ∀ p ∈ c.pairs.lookup g, p.hasLeg b = true → p.RejectCovered b))
  | .worker (.riskWindow g') _ _ =>
    inferInstanceAs (Decidable (g' = g → ∀ p ∈ c.pairs.lookup g, p.RiskCovered))
  | .onFill x _ qty isReject _ => inferInstanceAs (Decidable (∀ m ∈ c.findLeg x, m.1 = g →
      if isReject then m.2.1.RejectCovered m.2.2 else m.2.1.FillCovered R m.2.2 qty))
  | .worker (.deadline _) _ _ | .worker (.unwindSend _ _ _) _ _ | .worker (.unwindResult _) _ _
  | .addLeg _ _ | .dispatch _ _ | .portfolio _ | .drawOrderId => isTrue trivial

/-- No leg of the pair is submitted again once the pair was dispatched. -/
def LegsKept (g : CStr 15) (c : ArbCoordinator) : ArbEvent → Prop
  | .addLeg s _ => s.groupId = g → .dispatched g ∈ c.log → ∀ p ∈ c.pairs.lookup g, p.hasLeg s.isCexLeg = false
  | _ => True

instance (g : CStr 15) (c : ArbCoordinator) : ∀ e, Decidable (LegsKept g c e)
  | .addLeg s _ => inferInstanceAs (Decidable (s.groupId = g → .dispatched g ∈ c.log →
      ∀ p ∈ c.pairs.lookup g, p.hasLeg s.isCexLeg = false))
  | .dispatch _ _ | .worker _ _ _ | .onFill _ _ _ _ _ | .portfolio _ | .drawOrderId => isTrue trivial

/-! ## The orders of the legs -/

/-- Nothing was sent or booked for the pair, nor is anything about to be. -/
structure View.Undispatched (g : CStr 15) (v : View) : Prop where
  log : v.log = []
  status : ∀ p, v.pair = some p → p.status = .ASSEMBLING ∨ p.status = .FAILED
  calls : ∀ d ∈ v.calls, d = .enter g
  workers : ∀ w ∈ v.workers, w = .deadline g

theorem View.Undispatched.orders {g : CStr 15} {v : View} (h : v.Undispatched g) (x : LegRole × Order) :
    x ∉ v.orders := by
  rw [View.mem_orders]
  rintro (⟨d, hd, hx⟩ | ⟨w, hw, hx⟩ | ⟨y, hy, -⟩)
  · rw [h.calls d hd] at hx
    cases hx
  · rw [h.workers w hw] at hx
    cases hx
  · rw [h.log] at hy
    cases hy

section
variable {c c' : ArbCoordinator} {g : CStr 15} {v v' : View} {e : ArbEvent}

theorem PairStep.leg_after (h : PairStep c g v e v') (hc : v.pair = c.pairs.lookup g) (hkept : LegsKept g c e)
    (hd : .dispatched g ∈ c.log ∨ ∀ s now, e ≠ .addLeg s now) {p : ArbPair} {b : Bool} (hp : v.pair = some p)
    (hb : p.hasLeg b = true) : ∃ p', v'.pair = some p' ∧ p'.hasLeg b = true ∧
      (p'.leg b).orderId = (p.leg b).orderId ∧ (p'.leg b).signal = (p.leg b).signal := by
  by_cases hadd : ∃ s now, e = .addLeg s now ∧ s.groupId = g
  · obtain ⟨s, now, rfl, hg⟩ := hadd
    have hne : b ≠ s.isCexLeg := by
      rintro rfl
      rcases hd with hd | hd
      · rw [hkept hg hd p (hc.symm.trans hp)] at hb
        cases hb
      · exact hd s now rfl
    cases h with
    | other ht => exact absurd (congrArg some hg) ht
    | @addLeg _ _ q _ hq =>
      rw [hp, Option.getD_some] at hq
      have hl := leg_withLeg_ne p (c.newOrder s now) hne
      refine ⟨q, rfl, ?_, by rw [hq, hl], by rw [hq, hl]⟩
      rw [hq, hasLeg_withLeg_ne p (c.newOrder s now) hne, hb]
  · simp only [not_exists, not_and] at hadd
    obtain ⟨p', hp', hs⟩ := h.legs_after hadd hp
    exact ⟨p', hp', (hs.hasLeg b).trans hb, hs.orderId b, hs.signal b⟩

theorem PairStep.orders_addLeg {s : Signal} {now : Int} (h : PairStep c g v (.addLeg s now) v')
    {x : LegRole × Order} (hx : x ∈ v'.orders) : x ∈ v.orders := by
  cases h with
  | other _ => exact hx
  | addLeg _ _ => grind [View.mem_orders, DispatchCall.orders, Worker.orders]

/-- The CEX order was handed to a gateway, or is about to be. -/
def View.CexSent (v : View) (g : CStr 15) : Prop :=
  (∃ x o, .sendOrder g .cexLeg x o ∈ v.log) ∨ ∃ x gw o₁ o₂, .sendCex g (some x) gw o₁ o₂ ∈ v.calls

/-- The orders of the pair are those of its legs, and a CEX order has been sent
only to a gateway that is there. -/
structure View.AsAdded (gateway : Exchange → Bool) (g : CStr 15) (v : View) : Prop where
  typed : ∀ p b, v.pair = some p → p.hasLeg b = true → (p.leg b).signal.isCexLeg = b
  orders : ∀ b o, (legRole b, o) ∈ v.orders → ∃ p, v.pair = some p ∧ p.hasLeg b = true ∧
    o.orderId = (p.leg b).orderId ∧ o.signal = (p.leg b).signal
  gateway : v.CexSent g → ∃ p, v.pair = some p ∧ p.hasLeg true = true ∧
    gateway p.cexLeg.signal.exchange = true

theorem View.CexSent.order {g : CStr 15} (h : v.CexSent g) : ∃ o, (.cexLeg, o) ∈ v.orders := by
  rcases h with ⟨x, o, h⟩ | ⟨x, gw, o₁, o₂, h⟩
  · exact ⟨o, View.mem_orders.mpr (.inr (.inr ⟨_, h, by simp [ArbEffect.orders]⟩))⟩
  · exact ⟨o₁, View.mem_orders.mpr (.inl ⟨_, h, by simp [DispatchCall.orders]⟩)⟩

theorem PairStep.cexSent (h : PairStep c g v e v') (hs : v'.CexSent g) : v.CexSent g ∨
    ∃ p, v.pair = some p ∧ v'.pair = some p ∧ (∃ o, (.cexLeg, o) ∈ v.orders) ∧
      c.hasGateway p.cexLeg.signal.exchange = true := by
  have of_subset : (∀ y ∈ v'.log, y ∈ v.log ∨ ∀ x o, y ≠ .sendOrder g .cexLeg x o) →
      (∀ d ∈ v'.calls, d ∈ v.calls ∨ ∀ x gw o₁ o₂, d ≠ .sendCex g (some x) gw o₁ o₂) → v.CexSent g := by
    intro hl hd
    rcases hs with ⟨x, o, hm⟩ | ⟨x, gw, o₁, o₂, hm⟩
    · exact .inl ⟨x, o, (hl _ hm).resolve_right fun hn => hn x o rfl⟩
    · exact .inr ⟨x, gw, o₁, o₂, (hd _ hm).resolve_right fun hn => hn x gw o₁ o₂ rfl⟩
  have hreject : ∀ {w : View} {p : ArbPair} {b : Bool} {now : Int},
      v' = w.reject c g p b now → w.log = v.log → w.calls = v.calls → v.CexSent g := by
    rintro w p b now rfl hl hd
    refine of_subset ?_ (fun d hd' => .inl (by rwa [View.calls_reject, hd] at hd'))
    intro y hy
    simp only [View.reject] at hy
    split at hy
    · rcases List.mem_cons.mp hy with rfl | hy
      · exact .inr fun x o h => by cases h
      · exact .inl (hl ▸ hy)
    · exact .inl (hl ▸ hy)
  cases h with
  | other _ => exact .inl hs
  | addLeg _ _ | enterReturns _ _ | enterRefused _ _ _ _ => left; apply of_subset <;> grind
  | enterDispatches _ _ _ _ => left; apply of_subset <;> grind
  | lookupFails _ _ => left; apply of_subset <;> grind
  | @lookup now o₁ o₂ p h₀ h₁ =>
    rcases hs with hs | ⟨x, gw, o₁', o₂', hm⟩
    · exact .inl (.inl hs)
    · rcases List.mem_cons.mp hm with he | hm
      · cases hgw : c.hasGateway p.cexLeg.signal.exchange with
        | true =>
          exact .inr ⟨p, h₁, h₁, ⟨o₁, View.mem_orders.mpr (.inl ⟨_, h₀, by simp [DispatchCall.orders]⟩)⟩, hgw⟩
        | false => simp [findGateway, hgw] at he
      · exact .inl (.inr ⟨x, gw, o₁', o₂', List.mem_of_mem_erase hm⟩)
  | @sendCex now gw₁ gw₂ o₁ o₂ h₀ =>
    left
    cases gw₁ with
    | none => apply of_subset <;> grind [View.send]
    | some x => exact .inr ⟨x, gw₂, o₁, o₂, h₀⟩
  | @sendDex now gw o h₀ => left; cases gw <;> apply of_subset <;> grind [View.send]
  | startMonitor _ | deadlineIdle _ _ | deadline _ _ _ _ | sendResultIdle _ _ | sendSucceeded _ _ _ _ =>
    left; apply of_subset <;> grind
  | sendFailed _ _ _ _ => exact .inl (hreject rfl rfl rfl)
  | riskIdle _ _ | riskDex _ _ _ => left; apply of_subset <;> grind
  | riskCex _ _ _ => left; apply of_subset <;> grind [View.unwind]
  | unwindSend _ | unwindResultIdle _ _ | unwindResult _ _ => left; apply of_subset <;> grind
  | legRejected _ _ => exact .inl (hreject rfl rfl rfl)
  | firstFill _ _ _ | secondFill _ _ _ | lateFill _ _ _ _ => left; apply of_subset <;> grind

theorem View.AsAdded.step (h : v.AsAdded c.hasGateway g) (hs : PairStep c g v e v')
    (hc : v.pair = c.pairs.lookup g) (hcom : v.Complete g) (hkept : LegsKept g c e)
    (hd : .dispatched g ∈ c.log ∨ v.Undispatched g) : v'.AsAdded c.hasGateway g where
  typed := by
    intro p' b hp' hb
    rcases hs.leg_origin hp' hb with ⟨p, hp, hb, -, hsig⟩ | ⟨s, now, -, -, hsb, -, hsig⟩
    · rw [hsig]; exact h.typed p b hp hb
    · rw [hsig, hsb]
  orders := by
    intro b o ho
    have leg : ∃ p, v.pair = some p ∧ p.hasLeg b = true ∧ o.orderId = (p.leg b).orderId ∧
        o.signal = (p.leg b).signal := by
      rcases hs.orders hc ho with ho | ⟨p, b', hp, hcall, hr, hid, hsig⟩ | ⟨hr, -⟩
      · exact h.orders b o ho
      · obtain rfl := legRole_inj hr
        exact ⟨p, hp, hcom.hasLeg hp (.inr (.inl hcall)) b, hid, hsig⟩
      · exact absurd hr (legRole_ne_unwind b)
    have hd' : .dispatched g ∈ c.log ∨ ∀ s now, e ≠ .addLeg s now := by
      refine hd.imp_right fun hu s now he => ?_
      subst he
      exact hu.orders _ (hs.orders_addLeg ho)
    obtain ⟨p, hp, hb, hid, hsig⟩ := leg
    obtain ⟨p', hp', hb', hid', hsig'⟩ := hs.leg_after hc hkept hd' hp hb
    exact ⟨p', hp', hb', hid.trans hid'.symm, hsig.trans hsig'.symm⟩
  gateway := by
    intro hsent
    have leg : (∃ o, (.cexLeg, o) ∈ v.orders) ∧
        ∃ p, v.pair = some p ∧ p.hasLeg true = true ∧ c.hasGateway p.cexLeg.signal.exchange = true := by
      rcases hs.cexSent hsent with hsent | ⟨p, hp, -, ⟨o, ho⟩, hgw⟩
      · exact ⟨hsent.order, h.gateway hsent⟩
      · obtain ⟨q, hq, hb, -⟩ := h.orders true o ho
        rw [hp, Option.some.injEq] at hq
        exact ⟨⟨o, ho⟩, p, hp, hq ▸ hb, hgw⟩
    obtain ⟨⟨o, ho⟩, p, hp, hb, hgw⟩ := leg
    have hd' := hd.resolve_right fun hu => hu.orders _ ho
    obtain ⟨p', hp', hb', -, hsig⟩ := hs.leg_after hc hkept (.inl hd') hp hb
    simp only [ArbPair.leg_true] at hsig
    exact ⟨p', hp', hb', hsig ▸ hgw⟩

end

/-! ## Tallies -/

/-- A weight of fills that a fill on the other side of the symbol cancels. -/
def Cancels (W : Signal → ℚ → ℚ) : Prop :=
  ∀ s s' q, s'.symbol = s.symbol → s'.side = s.side.opposite → W s' q = -W s q

def Worker.unwindOrder : Worker → Option Order
  | .unwindSend _ _ o => some o
  | _ => none

def ArbEffect.unwindOrder : ArbEffect → Option Order
  | .sendOrder _ .unwind _ o => some o
  | _ => none

def ArbEffect.booked (W : Signal → ℚ → ℚ) : ArbEffect → ℚ
  | .bookFill _ s _ q => W s q
  | _ => 0

def View.unwindOrders (v : View) : List Order :=
  v.workers.filterMap Worker.unwindOrder ++ v.log.filterMap ArbEffect.unwindOrder

def View.booked (W : Signal → ℚ → ℚ) (v : View) : ℚ := (v.log.map (ArbEffect.booked W)).sum

theorem View.Undispatched.tallies {g : CStr 15} {v : View} (h : v.Undispatched g) (W : Signal → ℚ → ℚ) :
    v.booked W = 0 ∧ v.unwindOrders = [] := by
  refine ⟨by rw [View.booked, h.log]; rfl, ?_⟩
  rw [View.unwindOrders, h.log, List.filterMap_nil, List.append_nil, List.filterMap_eq_nil_iff]
  intro w hw
  rw [h.workers w hw]
  rfl

/-- What an event adds to the fills of a leg. -/
def legFill (W : Signal → ℚ → ℚ) (c : ArbCoordinator) (g : CStr 15) (b : Bool) : ArbEvent → ℚ
  | .onFill x _ qty isReject _ =>
    match c.findLeg x with
    | none => 0
    | some (g', p, b') => if g' = g ∧ b' = b ∧ isReject = false then W (p.leg b).signal qty else 0
  | _ => 0

/-! ## Phases -/

inductive Phase where
  | idle
  | cexOnly
  | dexOnly
  | both
  | unwound
  deriving DecidableEq

def Phase.allows : Phase → ArbPairStatus → Bool
  | .idle, s => s = .ASSEMBLING ∨ s = .DISPATCHED ∨ s.isFinal
  | .cexOnly, s => s = .CEX_FILLED
  | .dexOnly, s => s = .DEX_FILLED
  | .both, s => s.isFinal
  | .unwound, s => s = .UNWINDING ∨ s.isFinal

/-- What the ledger says in each phase: `cex` and `dex` are the fills of the
legs so far. -/
def Phase.Holds (W : Signal → ℚ → ℚ) (R : ℚ → ℚ → Prop) (gateway : Exchange → Bool) (v : View) (p : ArbPair)
    (cex dex : ℚ) : Phase → Prop
  | .idle => cex = 0 ∧ dex = 0 ∧ v.booked W = 0 ∧ v.unwindOrders = []
  | .cexOnly => cex = W p.cexLeg.signal p.cexLeg.filledQuantity ∧ dex = 0 ∧ v.booked W = 0 ∧
      v.unwindOrders = [] ∧ gateway p.cexLeg.signal.exchange = true
  | .dexOnly => cex = 0 ∧ dex = W p.dexLeg.signal p.dexLeg.filledQuantity ∧ v.booked W = 0 ∧
      v.unwindOrders = []
  | .both => p.bothLegsPresent = true ∧ cex = W p.cexLeg.signal p.cexLeg.filledQuantity ∧
      dex = W p.dexLeg.signal p.dexLeg.filledQuantity ∧ v.booked W = cex + dex ∧ v.unwindOrders = [] ∧
      (R p.cexLeg.filledQuantity p.dexLeg.filledQuantity ∨ R p.dexLeg.filledQuantity p.cexLeg.filledQuantity)
  | .unwound => dex = 0 ∧ v.booked W = 0 ∧ ∃ o, v.unwindOrders = [o] ∧ W o.signal o.signal.quantity = -cex

/-- The ledger of the pair is in a phase that its status allows. -/
structure View.Balanced (W : Signal → ℚ → ℚ) (R : ℚ → ℚ → Prop) (gateway : Exchange → Bool) (v : View)
    (cex dex : ℚ) : Prop where
  absent : v.pair = none → cex = 0 ∧ dex = 0 ∧ v.booked W = 0 ∧ v.unwindOrders = []
  phase : ∀ p, v.pair = some p → ∃ ph : Phase, ph.allows p.status = true ∧ ph.Holds W R gateway v p cex dex

theorem filterMap_erase_of_none {α β : Type} [DecidableEq α] {f : α → Option β} {a : α} (h : f a = none)
    (l : List α) : (l.erase a).filterMap f = l.filterMap f := by
  induction l with
  | nil => rfl
  | cons b l ih =>
    rw [List.erase_cons]
    split
    · next hb =>
      obtain rfl := eq_of_beq hb
      rw [List.filterMap_cons_none h]
    · simp only [List.filterMap_cons, ih]

section
variable {W : Signal → ℚ → ℚ} {R : ℚ → ℚ → Prop} {gateway : Exchange → Bool} {v v' : View} {p p' : ArbPair}
  {cex dex : ℚ}

theorem Phase.Holds.congr {ph : Phase} (h : ph.Holds W R gateway v p cex dex) (hs : p.SameLegs p')
    (hq : ∀ b, (p'.leg b).filledQuantity = (p.leg b).filledQuantity) (hb : v'.booked W = v.booked W)
    (hu : v'.unwindOrders.Perm v.unwindOrders) : ph.Holds W R gateway v' p' cex dex := by
  have hqc := hq true
  have hqd := hq false
  have hsc := hs.signal true
  have hsd := hs.signal false
  simp only [ArbPair.leg_true, ArbPair.leg_false] at hqc hqd hsc hsd
  have hnil : v.unwindOrders = [] → v'.unwindOrders = [] := fun h => List.perm_nil.mp (h ▸ hu)
  cases ph with
  | idle => exact ⟨h.1, h.2.1, hb.trans h.2.2.1, hnil h.2.2.2⟩
  | cexOnly =>
    obtain ⟨h₁, h₂, h₃, h₄, h₅⟩ := h
    exact ⟨by rw [hsc, hqc]; exact h₁, h₂, hb.trans h₃, hnil h₄, by rw [hsc]; exact h₅⟩
  | dexOnly =>
    obtain ⟨h₁, h₂, h₃, h₄⟩ := h
    exact ⟨h₁, by rw [hsd, hqd]; exact h₂, hb.trans h₃, hnil h₄⟩
  | both =>
    obtain ⟨h₀, h₁, h₂, h₃, h₄, h₅⟩ := h
    refine ⟨hs.bothLegsPresent.trans h₀, ?_, ?_, hb.trans h₃, hnil h₄, ?_⟩
    · rw [hsc, hqc]; exact h₁
    · rw [hsd, hqd]; exact h₂
    · rw [hqc, hqd]; exact h₅
  | unwound =>
    obtain ⟨h₁, h₂, o, ho, hW⟩ := h
    exact ⟨h₁, hb.trans h₂, o, List.perm_singleton.mp (ho ▸ hu), hW⟩

theorem View.Balanced.of_pair_eq (h : v.Balanced W R gateway cex dex) (hp : v'.pair = v.pair)
    (hb : v'.booked W = v.booked W) (hu : v'.unwindOrders.Perm v.unwindOrders) :
    v'.Balanced W R gateway cex dex where
  absent hn := by
    obtain ⟨h₁, h₂, h₃, h₄⟩ := h.absent (hp ▸ hn)
    exact ⟨h₁, h₂, hb.trans h₃, List.perm_nil.mp (h₄ ▸ hu)⟩
  phase p hp' := by
    obtain ⟨ph, ha, hh⟩ := h.phase p (hp ▸ hp')
    exact ⟨ph, ha, hh.congr (.refl p) (fun _ => rfl) hb hu⟩

theorem View.balanced_of_phase (hp : v.pair = some p) (ph : Phase) (ha : ph.allows p.status = true)
    (hh : ph.Holds W R gateway v p cex dex) : v.Balanced W R gateway cex dex where
  absent hn := by rw [hp] at hn; cases hn
  phase q hq := by
    rw [hp] at hq
    cases hq
    exact ⟨ph, ha, hh⟩

theorem View.Balanced.idle_of (h : v.Balanced W R gateway cex dex) (hp : v.pair = some p)
    (hs : p.status = .ASSEMBLING ∨ p.status = .DISPATCHED) :
    cex = 0 ∧ dex = 0 ∧ v.booked W = 0 ∧ v.unwindOrders = [] := by
  obtain ⟨ph, ha, hh⟩ := h.phase p hp
  cases ph <;> rcases hs with hs | hs <;> simp [Phase.allows, hs, ArbPairStatus.isFinal] at ha <;> exact hh

theorem View.Balanced.cexOnly_of (h : v.Balanced W R gateway cex dex) (hp : v.pair = some p)
    (hs : p.status = .CEX_FILLED) : Phase.cexOnly.Holds W R gateway v p cex dex := by
  obtain ⟨ph, ha, hh⟩ := h.phase p hp
  cases ph <;> simp [Phase.allows, hs, ArbPairStatus.isFinal] at ha
  exact hh

theorem View.Balanced.dexOnly_of (h : v.Balanced W R gateway cex dex) (hp : v.pair = some p)
    (hs : p.status = .DEX_FILLED) : Phase.dexOnly.Holds W R gateway v p cex dex := by
  obtain ⟨ph, ha, hh⟩ := h.phase p hp
  cases ph <;> simp [Phase.allows, hs, ArbPairStatus.isFinal] at ha
  exact hh

end

/-! ## One step -/

section
variable {W : Signal → ℚ → ℚ} {R : ℚ → ℚ → Prop} {c : ArbCoordinator} {g : CStr 15} {v v' : View} {p : ArbPair}
  {e : ArbEvent} {cex dex : ℚ}

/-- An unwind in full of a CEX leg that was filled in full. -/
theorem View.balanced_unwind (hW : Cancels W) {q p' : ArbPair} {now : Int}
    (hgw : c.hasGateway q.cexLeg.signal.exchange = true) (hu : v.unwindOrders = []) (hb : v.booked W = 0)
    (hdex : dex = 0) (hcex : cex = W q.cexLeg.signal q.cexLeg.signal.quantity) (hs : p'.status = .UNWINDING) :
    View.Balanced W R c.hasGateway { v.unwind c g q now with pair := some p' } cex dex := by
  refine View.balanced_of_phase rfl .unwound (by rw [hs]; rfl) ⟨hdex, ?_, c.unwindOrder q now, ?_, ?_⟩
  · simpa [View.booked, View.unwind, ArbEffect.booked] using hb
  · simp only [View.unwindOrders, View.unwind, hgw, ite_true]
    rw [List.filterMap_cons_some (by rfl), List.filterMap_cons_none (by rfl)]
    exact congrArg _ hu
  · rw [hcex]
    exact hW q.cexLeg.signal _ _ rfl rfl

theorem View.Balanced.reject (h : v.Balanced W R c.hasGateway cex dex) (hW : Cancels W) {v₀ : View}
    {q : ArbPair} {b : Bool} {now : Int} (hcom : v.Complete g) (hp : v.pair = some p)
    (hcov : p.RejectCovered b) (hl : v₀.log = v.log) (hu : v₀.unwindOrders = v.unwindOrders)
    (hs : p.SameLegs q) (hq : ∀ b, (q.leg b).filledQuantity = (p.leg b).filledQuantity)
    (hr : ∀ b, q.RejectUnwinds b ↔ p.RejectUnwinds b) :
    (v₀.reject c g q b now).Balanced W R c.hasGateway cex dex := by
  have hbook : v₀.booked W = v.booked W := by rw [View.booked, hl, View.booked]
  obtain ⟨hdex, hcexF, hother⟩ := hcov
  by_cases hst : p.status = .CEX_FILLED
  · obtain ⟨rfl, hfilled, hfull⟩ := hcexF hst
    obtain ⟨h₁, h₂, h₃, h₄, h₅⟩ := h.cexOnly_of hp hst
    have hc : p.hasCexLeg = true := hcom.hasLeg hp (.inl ⟨p, hp, by rw [hst]; decide⟩) true
    have hru : q.RejectUnwinds false := (hr false).mpr ⟨rfl, hc, hfilled⟩
    have hsig : q.cexLeg.signal = p.cexLeg.signal := hs.signal true
    simp only [View.reject, if_pos hru]
    refine View.balanced_unwind hW (hsig ▸ h₅) (hu.trans h₄) (hbook.trans h₃) h₂ ?_ ?_
    · rw [hsig, h₁, hfull]
    · rw [status_rejected_dex, if_pos hru]
  · have hru : ¬ q.RejectUnwinds b := by
      rw [hr]
      rintro ⟨rfl, -, hfilled⟩
      rcases hother hst with hb | hn
      · cases hb
      · exact hn hfilled
    obtain ⟨ph, ha, hh⟩ := h.phase p hp
    simp only [View.reject, if_neg hru]
    refine View.balanced_of_phase rfl ph ?_ (hh.congr (hs.trans (q.sameLegs_rejected b)) ?_ hbook ?_)
    · rw [status_rejected_of_not hru]
      cases ph with
      | cexOnly => exact absurd (of_decide_eq_true ha) hst
      | dexOnly => exact absurd (of_decide_eq_true ha) hdex
      | idle | both | unwound => rfl
    · intro b'
      exact (congrArg Prod.snd (amounts_rejected q b b')).trans (hq b')
    · exact List.Perm.of_eq hu

theorem legFill_fill {x : Bytes} {b : Bool} (hf : c.findLeg x = some (g, p, b)) (b' : Bool) (price qty : ℚ)
    (now : Int) : legFill W c g b' (.onFill x price qty false now) =
      if b' = b then W (p.leg b).signal qty else 0 := by
  simp only [legFill, hf, true_and, and_true]
  by_cases h : b' = b
  · rw [if_pos h.symm, if_pos h, h]
  · rw [if_neg (fun h' => h h'.symm), if_neg h]

theorem legFill_reject {x : Bytes} (b : Bool) (price qty : ℚ) (now : Int) :
    legFill W c g b (.onFill x price qty true now) = 0 := by
  simp only [legFill]
  split
  · rfl
  · simp

theorem View.booked_send (b : Bool) (gw : Option Exchange) (o : Order) :
    (v.send g b gw o).booked W = v.booked W := by
  cases gw with
  | none => rfl
  | some gw => simp [View.send, View.booked, ArbEffect.booked]

theorem View.unwindOrders_send (b : Bool) (gw : Option Exchange) (o : Order) :
    (v.send g b gw o).unwindOrders = v.unwindOrders := by
  cases gw with
  | none => rfl
  | some gw => cases b <;> rfl

theorem legFill_of_untouched (ht : c.touched e ≠ some g) (b : Bool) : legFill W c g b e = 0 := by
  cases e with
  | onFill x price qty isReject now =>
    simp only [legFill]
    split
    · rfl
    · next g' p b' hf =>
      rw [if_neg]
      rintro ⟨rfl, -⟩
      exact ht (by simp [touched, hf])
  | _ => rfl

/-- A replaced leg was not filled: the pair was dispatched before, and then the
new order takes an empty place, or it was not, and nothing was filled. -/
theorem View.Balanced.addLeg {s : Signal} {now : Int} (hb : v.Balanced W R c.hasGateway cex dex)
    (hcom : v.Complete g)
    (hadd : .dispatched g ∈ c.log → ∀ p, v.pair = some p → p.hasLeg s.isCexLeg = false)
    (hd : .dispatched g ∈ c.log ∨ v.Undispatched g ∧ cex = 0 ∧ dex = 0) {q : ArbPair}
    (hq : q = (v.pair.getD (c.newPair g now)).withLeg (c.newOrder s now)) {ds : List DispatchCall} :
    View.Balanced W R c.hasGateway { v with
      pair := some q
      workers := if v.pair.isNone then .deadline g :: v.workers else v.workers
      calls := ds } cex dex := by
  cases hp : v.pair with
  | none =>
    obtain ⟨h₁, h₂, h₃, h₄⟩ := hb.absent hp
    have hst : q.status = .ASSEMBLING := by rw [hq, hp, status_withLeg]; rfl
    refine View.balanced_of_phase rfl .idle (by rw [hst]; rfl) ⟨h₁, h₂, h₃, h₄⟩
  | some p =>
    have hst : q.status = p.status := by rw [hq, hp, status_withLeg]; rfl
    rcases hd with hd | ⟨hu, hcex, hdex⟩
    · have hone : p.bothLegsPresent ≠ true := by
        intro hboth
        have hleg := ArbPair.bothLegsPresent_iff.mp hboth s.isCexLeg
        rw [hadd hd p hp] at hleg
        cases hleg
      have hopen : p.status = .ASSEMBLING ∨ p.status = .FAILED := by
        by_contra hn
        simp only [not_or] at hn
        exact hone (hcom.bothLegsPresent hp (.inl ⟨p, hp, hn⟩))
      obtain ⟨ph, ha, hh⟩ := hb.phase p hp
      refine View.balanced_of_phase rfl ph (by rw [hst]; exact ha) ?_
      cases ph with
      | idle => exact hh
      | cexOnly | dexOnly => rcases hopen with hs | hs <;> rw [hs] at ha <;> cases ha
      | both => exact absurd hh.1 hone
      | unwound => exact hh
    · obtain ⟨hbook, hunwound⟩ := hu.tallies W
      refine View.balanced_of_phase rfl .idle ?_ ⟨hcex, hdex, hbook, ?_⟩
      · rw [hst]
        rcases hu.status p hp with hs | hs <;> rw [hs] <;> rfl
      · simpa [View.unwindOrders, hp] using hunwound

theorem View.Balanced.unwound_of (h : v.Balanced W R c.hasGateway cex dex) (hp : v.pair = some p)
    (hne : v.unwindOrders ≠ []) : Phase.unwound.Holds W R c.hasGateway v p cex dex := by
  obtain ⟨ph, -, hh⟩ := h.phase p hp
  cases ph with
  | idle => exact absurd hh.2.2.2 hne
  | cexOnly => exact absurd hh.2.2.2.1 hne
  | dexOnly => exact absurd hh.2.2.2 hne
  | both => exact absurd hh.2.2.2.2.1 hne
  | unwound => exact hh

theorem View.Balanced.firstFill (hb : v.Balanced W R c.hasGateway cex dex) (hp : v.pair = some p)
    (hst : p.status = .DISPATCHED) {b : Bool} {price qty : ℚ} {now : Int}
    (hgw : b = true → c.hasGateway p.cexLeg.signal.exchange = true) :
    View.Balanced W R c.hasGateway
      { v with pair := some { fillLeg p b price qty now with status := ArbPair.oneSided b } }
      (cex + if true = b then W (p.leg b).signal qty else 0)
      (dex + if false = b then W (p.leg b).signal qty else 0) := by
  obtain ⟨h₁, h₂, h₃, h₄⟩ := hb.idle_of hp (.inr hst)
  cases b with
  | true =>
    refine View.balanced_of_phase rfl .cexOnly rfl ⟨?_, ?_, h₃, h₄, hgw rfl⟩
    · simp [h₁, fillLeg]
    · simp [h₂]
  | false =>
    refine View.balanced_of_phase rfl .dexOnly rfl ⟨?_, ?_, h₃, h₄⟩
    · simp [h₁]
    · simp [h₂, fillLeg]

/-- The fill that finalizes the pair books both legs. -/
theorem View.Balanced.secondFill (hb : v.Balanced W R c.hasGateway cex dex) (hp : v.pair = some p) {b : Bool}
    (hst : p.status = ArbPair.oneSided (!b)) (hboth : p.bothLegsPresent = true) {price qty : ℚ} {now : Int}
    (hR : R qty (p.leg (!b)).filledQuantity) :
    View.Balanced W R c.hasGateway
      { v with
        pair := some { fillLeg p b price qty now with status := .ALL_FILLED }.finalized
        log := [.bookFill g (fillLeg p b price qty now).dexLeg.signal
            (fillLeg p b price qty now).dexLeg.avgFillPrice
            (fillLeg p b price qty now).dexLeg.filledQuantity,
          .bookFill g (fillLeg p b price qty now).cexLeg.signal
            (fillLeg p b price qty now).cexLeg.avgFillPrice
            (fillLeg p b price qty now).cexLeg.filledQuantity] ++ v.log }
      (cex + if true = b then W (p.leg b).signal qty else 0)
      (dex + if false = b then W (p.leg b).signal qty else 0) := by
  cases b with
  | true =>
    obtain ⟨h₁, h₂, h₃, h₄⟩ := hb.dexOnly_of hp hst
    refine View.balanced_of_phase rfl .both rfl ⟨hboth, ?_, ?_, ?_, h₄, .inl hR⟩
    · simp [h₁, fillLeg, ArbPair.finalized]
    · simp [h₂, fillLeg, ArbPair.finalized]
    · simp only [View.booked] at h₃
      simp [View.booked, ArbEffect.booked, h₁, h₂, h₃, fillLeg, add_comm]
  | false =>
    obtain ⟨h₁, h₂, h₃, h₄, -⟩ := hb.cexOnly_of hp hst
    refine View.balanced_of_phase rfl .both rfl ⟨hboth, ?_, ?_, ?_, h₄, .inr hR⟩
    · simp [h₁, fillLeg, ArbPair.finalized]
    · simp [h₂, fillLeg, ArbPair.finalized]
    · simp only [View.booked] at h₃
      simp [View.booked, ArbEffect.booked, h₁, h₂, h₃, fillLeg, add_comm]

/-- A step that leaves no filled leg uncovered leaves the ledger in a phase that
the status allows. -/
theorem View.Balanced.step (hb : v.Balanced W R c.hasGateway cex dex) (hW : Cancels W)
    (h : PairStep c g v e v') (hc : v.pair = c.pairs.lookup g) (hcom : v.Complete g)
    (hadd : v.AsAdded c.hasGateway g) (hunw : v.Unwinding → v.unwindOrders ≠ []) (hkept : LegsKept g c e)
    (hd : .dispatched g ∈ c.log ∨ v.Undispatched g ∧ cex = 0 ∧ dex = 0) (hcov : LegsCovered R g c e)
    (hsent : ∀ x price qty now p, e = .onFill x price qty false now → c.findLeg x = some (g, p, true) →
      v.CexSent g) :
    v'.Balanced W R c.hasGateway (cex + legFill W c g true e) (dex + legFill W c g false e) := by
  have herase : ∀ {w : Worker}, w.unwindOrder = none → ∀ {u : View}, u.workers = v.workers.erase w →
      u.log = v.log → u.unwindOrders = v.unwindOrders := by
    intro w hw u hwk hl
    rw [View.unwindOrders, hwk, hl, filterMap_erase_of_none hw, View.unwindOrders]
  cases h with
  | other ht =>
    rw [legFill_of_untouched ht, legFill_of_untouched ht, add_zero, add_zero]
    exact hb
  | addLeg hg hq =>
    simp only [legFill, add_zero]
    exact hb.addLeg hcom (fun hd p hp => hkept hg hd p (hc.symm.trans hp)) hd hq
  | enterReturns _ _ | lookupFails _ _ | lookup _ _ =>
    simp only [legFill, add_zero]
    exact hb.of_pair_eq rfl rfl (.refl _)
  | @enterRefused now p h₀ h₁ h₂ _ =>
    simp only [legFill, add_zero]
    exact View.balanced_of_phase rfl .idle rfl (hb.idle_of h₁ (.inl h₂))
  | @enterDispatches now p h₀ h₁ h₂ _ =>
    simp only [legFill, add_zero]
    obtain ⟨h₃, h₄, h₅, h₆⟩ := hb.idle_of h₁ (.inl h₂)
    refine View.balanced_of_phase rfl .idle rfl ⟨h₃, h₄, ?_, h₆⟩
    simpa [View.booked, ArbEffect.booked] using h₅
  | sendCex _ | sendDex _ =>
    simp only [legFill, add_zero]
    exact hb.of_pair_eq (pair_send ..) (View.booked_send ..) (List.Perm.of_eq (View.unwindOrders_send ..))
  | startMonitor _ =>
    simp only [legFill, add_zero]
    exact hb.of_pair_eq rfl rfl (.refl _)
  | deadlineIdle _ _ | sendResultIdle _ _ | riskIdle _ _ =>
    simp only [legFill, add_zero]
    exact hb.of_pair_eq rfl rfl (List.Perm.of_eq (herase (by rfl) rfl rfl))
  | @deadline _ _ p _ h₁ h₂ _ =>
    simp only [legFill, add_zero]
    obtain ⟨h₃, h₄, h₅, h₆⟩ := hb.idle_of h₁ (.inl h₂)
    exact View.balanced_of_phase rfl .idle rfl ⟨h₃, h₄, h₅, Eq.trans (herase (by rfl) rfl rfl) h₆⟩
  | @sendSucceeded b r _ p _ h₁ _ _ =>
    simp only [legFill, add_zero]
    obtain ⟨ph, ha, hh⟩ := hb.phase p h₁
    refine View.balanced_of_phase rfl ph (by rw [status_acknowledged]; exact ha) ?_
    exact hh.congr (p.sameLegs_acknowledged b r) (fun b' => congrArg Prod.snd (amounts_acknowledged p b b' r)) rfl
      (List.Perm.of_eq (herase (by rfl) rfl rfl))
  | @sendFailed b r now p _ h₁ hl hr =>
    simp only [legFill, add_zero]
    exact hb.reject hW hcom h₁ (hcov rfl hr p (hc.symm.trans h₁) hl) rfl (herase (by rfl) rfl rfl)
      (p.sameLegs_identified b r) (fun b' => congrArg Prod.snd (amounts_identified p b b' r)) fun _ =>
        rejectUnwinds_identified ..
  | @riskCex r now p _ h₁ h₂ =>
    simp only [legFill, add_zero]
    have hfull := (hcov rfl p (hc.symm.trans h₁)).2 h₂
    obtain ⟨h₃, h₄, h₅, h₆, h₇⟩ := hb.cexOnly_of h₁ h₂
    exact View.balanced_unwind hW h₇ (Eq.trans (herase (by rfl) rfl rfl) h₆) h₅ h₄ (by rw [h₃, hfull]) rfl
  | @riskDex r now p _ h₁ h₂ =>
    -- the pair would fail with its DEX leg filled: such a step is not covered
    exact absurd h₂ (hcov rfl p (hc.symm.trans h₁)).1
  | @unwindSend gw o r now h₀ =>
    simp only [legFill, add_zero]
    refine hb.of_pair_eq rfl ?_ ?_
    · simp [View.booked, ArbEffect.booked]
    · -- the order leaves the thread for the log
      have hperm := (List.perm_cons_erase h₀).filterMap Worker.unwindOrder
      rw [List.filterMap_cons_some (by rfl)] at hperm
      simp only [View.unwindOrders]
      rw [List.filterMap_cons_none (by rfl), List.filterMap_cons_some (by rfl)]
      exact List.perm_middle.trans ((hperm.append_right _).symm)
  | unwindResultIdle h₀ h₁ => exact absurd (hb.absent h₁).2.2.2 (hunw ⟨_, h₀, rfl⟩)
  | @unwindResult r now p h₀ h₁ =>
    simp only [legFill, add_zero]
    obtain ⟨h₂, h₃, o, ho, hWo⟩ := hb.unwound_of h₁ (hunw ⟨_, h₀, rfl⟩)
    refine View.balanced_of_phase rfl .unwound ?_ ⟨h₂, h₃, o, Eq.trans (herase (by rfl) rfl rfl) ho, hWo⟩
    simp only
    split <;> rfl
  | @legRejected x price qty now p b h₀ h₁ =>
    rw [legFill_reject, legFill_reject, add_zero, add_zero]
    have := hcov _ h₀ rfl
    exact hb.reject hW hcom h₁ this rfl rfl (.refl p) (fun _ => rfl) fun _ => Iff.rfl
  | @firstFill x price qty now p b h₀ h₁ h₂ =>
    rw [legFill_fill h₀, legFill_fill h₀]
    refine hb.firstFill h₁ h₂ ?_
    rintro rfl
    obtain ⟨q, hq, -, hgw⟩ := hadd.gateway (hsent x price qty now p rfl h₀)
    rw [h₁, Option.some.injEq] at hq
    exact hq ▸ hgw
  | @secondFill x price qty now p b h₀ h₁ h₂ =>
    rw [legFill_fill h₀, legFill_fill h₀]
    have hfill : p.FillCovered R b qty := hcov _ h₀ rfl
    have hR : R qty (p.leg (!b)).filledQuantity := by
      rcases hfill with hd | ⟨-, hR⟩
      · rw [hd] at h₂; cases b <;> cases h₂
      · exact hR
    exact hb.secondFill h₁ h₂ (hcom.bothLegsPresent h₁ (.inl ⟨p, h₁, by rw [h₂]; cases b <;> decide⟩)) hR
  | @lateFill x price qty now p b h₀ h₁ h₂ h₃ =>
    -- a fill that changes no status would be booked nowhere
    have hfill : p.FillCovered R b qty := hcov _ h₀ rfl
    rcases hfill with hd | ⟨hs, -⟩
    · exact absurd hd h₂
    · exact absurd hs h₃

end

/-! ## What is never taken back -/

section
variable {c c' : ArbCoordinator} {g : CStr 15} {v v' : View} {e : ArbEvent}

theorem View.mem_unwindOrders {o : Order} : o ∈ v.unwindOrders ↔
    (∃ w ∈ v.workers, w.unwindOrder = some o) ∨ ∃ x ∈ v.log, x.unwindOrder = some o := by
  simp [View.unwindOrders, List.mem_filterMap]

theorem View.log_send {b : Bool} {gw : Option Exchange} {o : Order} {x : ArbEffect} (hx : x ∈ v.log) :
    x ∈ (v.send g b gw o).log := by
  cases gw with
  | none => exact hx
  | some gw => exact List.mem_cons_of_mem _ hx

theorem View.workers_send {b : Bool} {gw : Option Exchange} {o : Order} {w : Worker} (hw : w ∈ v.workers) :
    w ∈ (v.send g b gw o).workers := by
  cases gw with
  | none => exact hw
  | some gw => exact List.mem_cons_of_mem _ hw

theorem View.unwindResult_send {b : Bool} {gw : Option Exchange} {o : Order}
    (hw : .unwindResult g ∈ (v.send g b gw o).workers) : .unwindResult g ∈ v.workers := by
  cases gw with
  | none => exact hw
  | some gw => simpa [View.send] using hw

theorem View.log_reject {p : ArbPair} {b : Bool} {now : Int} {x : ArbEffect} (hx : x ∈ v.log) :
    x ∈ (v.reject c g p b now).log := by
  simp only [View.reject]
  split
  · exact List.mem_cons_of_mem _ hx
  · exact hx

theorem View.workers_reject {p : ArbPair} {b : Bool} {now : Int} {w : Worker} (hw : w ∈ v.workers) :
    w ∈ (v.reject c g p b now).workers := by
  simp only [View.reject]
  split
  · simp only [View.unwind]
    split
    · exact List.mem_cons_of_mem _ hw
    · exact hw
  · exact hw

theorem View.unwindResult_reject {p : ArbPair} {b : Bool} {now : Int}
    (hw : .unwindResult g ∈ (v.reject c g p b now).workers) : .unwindResult g ∈ v.workers := by
  simp only [View.reject] at hw
  split at hw
  · simp only [View.unwind] at hw
    split at hw
    · simpa using hw
    · exact hw
  · exact hw

theorem PairStep.log_mono (h : PairStep c g v e v') {x : ArbEffect} (hx : x ∈ v.log) : x ∈ v'.log := by
  cases h with
  | sendCex _ | sendDex _ => exact View.log_send hx
  | sendFailed _ _ _ _ => exact View.log_reject hx
  | riskCex _ _ _ => exact List.mem_cons_of_mem _ hx
  | legRejected _ _ => exact View.log_reject hx
  | _ => grind

theorem log_mono (hk : c.Keyed) (h : c.step e = some c') {x : ArbEffect} (hx : x ∈ c.log) : x ∈ c'.log := by
  have hv : x ∈ (c.view x.groupId).log := List.mem_filter.mpr ⟨hx, by simp⟩
  exact List.mem_of_mem_filter ((step_view hk h x.groupId).log_mono hv)

theorem PairStep.dispatched (h : PairStep c g v e v') (hv : .dispatched g ∈ v.log ∨ v.Undispatched g)
    (hmsg : ∀ x price qty isReject now p b, e = .onFill x price qty isReject now → c.findLeg x = some (g, p, b) →
      v.log ≠ []) : .dispatched g ∈ v'.log ∨ v'.Undispatched g := by
  rcases hv with hv | hv
  · exact .inl (h.log_mono hv)
  have call : ∀ {d : DispatchCall}, d ∈ v.calls → d ≠ .enter g → False := fun hd hne => hne (hv.calls _ hd)
  have worker : ∀ {w : Worker}, w ∈ v.workers → w ≠ .deadline g → False := fun hw hne => hne (hv.workers _ hw)
  cases h with
  | other _ => exact .inr hv
  | @addLeg s now q hg hq =>
    refine .inr ⟨hv.log, fun p hp => ?_, fun d hd => ?_, fun w hw => ?_⟩
    · cases hp
      rw [hq, status_withLeg]
      cases hp : v.pair with
      | none => exact .inl rfl
      | some p => exact hv.status p hp
    · grind [hv.calls]
    · grind [hv.workers]
  | enterReturns _ _ => exact .inr ⟨hv.log, hv.status, fun d hd => hv.calls d (List.mem_of_mem_erase hd), hv.workers⟩
  | enterRefused _ _ _ _ =>
    refine .inr ⟨hv.log, fun p hp => ?_, fun d hd => hv.calls d (List.mem_of_mem_erase hd), hv.workers⟩
    cases hp
    exact .inr rfl
  | enterDispatches _ _ _ _ => exact .inl (List.mem_cons_self ..)
  | lookupFails hd _ | lookup hd _ | sendCex hd | sendDex hd | startMonitor hd => exact (call hd nofun).elim
  | deadlineIdle _ _ => exact .inr ⟨hv.log, hv.status, hv.calls, fun w hw => hv.workers w (List.mem_of_mem_erase hw)⟩
  | deadline _ _ _ _ =>
    refine .inr ⟨hv.log, fun p hp => ?_, hv.calls, fun w hw => hv.workers w (List.mem_of_mem_erase hw)⟩
    cases hp
    exact .inr rfl
  | sendResultIdle hw _ | sendSucceeded hw _ _ _ | sendFailed hw _ _ _ => exact (worker hw nofun).elim
  | riskIdle hw _ | riskCex hw _ _ | riskDex hw _ _ => exact (worker hw nofun).elim
  | unwindSend hw | unwindResultIdle hw _ | unwindResult hw _ => exact (worker hw nofun).elim
  | legRejected hf _ | firstFill hf _ _ | secondFill hf _ _ | lateFill hf _ _ _ =>
    exact (hmsg _ _ _ _ _ _ _ rfl hf hv.log).elim

theorem PairStep.unwindOrders_mono (h : PairStep c g v e v') {o : Order} (ho : o ∈ v.unwindOrders) :
    o ∈ v'.unwindOrders := by
  rw [View.mem_unwindOrders] at ho ⊢
  rcases ho with ⟨w, hw, hwo⟩ | ⟨x, hx, hxo⟩
  · have hkeep : ∀ w₀ : Worker, w₀.unwindOrder = none → w ∈ v.workers.erase w₀ := fun w₀ h₀ =>
      (List.mem_erase_of_ne fun he => by rw [he, h₀] at hwo; cases hwo).mpr hw
    cases h with
    | addLeg _ _ => grind
    | sendCex _ | sendDex _ => exact .inl ⟨w, View.workers_send hw, hwo⟩
    | startMonitor _ => exact .inl ⟨w, List.mem_cons_of_mem _ hw, hwo⟩
    | deadlineIdle _ _ | deadline _ _ _ _ | sendResultIdle _ _ | sendSucceeded _ _ _ _ =>
      exact .inl ⟨w, hkeep _ rfl, hwo⟩
    | @sendFailed b r now p _ _ _ _ =>
      exact .inl ⟨w, View.workers_reject (by exact hkeep (.sendResult g b) rfl), hwo⟩
    | riskIdle _ _ | riskDex _ _ _ | unwindResultIdle _ _ | unwindResult _ _ => exact .inl ⟨w, hkeep _ rfl, hwo⟩
    | riskCex _ _ _ =>
      refine .inl ⟨w, ?_, hwo⟩
      simp only [View.unwind]
      split
      · exact List.mem_cons_of_mem _ (hkeep _ rfl)
      · exact hkeep _ rfl
    | @unwindSend gw o' r now h₀ =>
      by_cases he : w = .unwindSend g gw o'
      · rw [he] at hwo
        exact .inr ⟨_, List.mem_cons_self .., hwo⟩
      · exact .inl ⟨w, List.mem_cons_of_mem _ ((List.mem_erase_of_ne he).mpr hw), hwo⟩
    | legRejected _ _ => exact .inl ⟨w, View.workers_reject hw, hwo⟩
    | _ => exact .inl ⟨w, hw, hwo⟩
  · exact .inr ⟨x, h.log_mono hx, hxo⟩

theorem PairStep.unwinding_orders (h : PairStep c g v e v') (hg : ∀ w ∈ v'.workers, w.groupId = g)
    (hv : v.Unwinding → v.unwindOrders ≠ []) : v'.Unwinding → v'.unwindOrders ≠ [] := by
  rintro ⟨w, hw, hi⟩
  have hwg := hg w hw
  cases w with
  | unwindSend g' gw o => exact List.ne_nil_of_mem (View.mem_unwindOrders.mpr (.inl ⟨_, hw, rfl⟩))
  | unwindResult g' =>
    obtain rfl : g' = g := hwg
    have hold : .unwindResult g' ∈ v.workers → v'.unwindOrders ≠ [] := by
      intro hm
      obtain ⟨o, ho⟩ := List.exists_mem_of_ne_nil _ (hv ⟨_, hm, rfl⟩)
      exact List.ne_nil_of_mem (h.unwindOrders_mono ho)
    cases h with
    | other _ => exact hold hw
    | addLeg _ _ => exact hold (by grind)
    | sendCex _ | sendDex _ => exact hold (View.unwindResult_send hw)
    | startMonitor _ => exact hold (by simpa using hw)
    | deadlineIdle _ _ | deadline _ _ _ _ | sendResultIdle _ _ | sendSucceeded _ _ _ _ =>
      exact hold (List.mem_of_mem_erase hw)
    | riskIdle _ _ | riskDex _ _ _ | unwindResultIdle _ _ | unwindResult _ _ =>
      exact hold (List.mem_of_mem_erase hw)
    | sendFailed _ _ _ _ => exact hold (List.mem_of_mem_erase (View.unwindResult_reject hw))
    | riskCex _ _ _ => exact hold (by grind [View.unwind])
    | @unwindSend gw o r now _ =>
      exact List.ne_nil_of_mem (View.mem_unwindOrders.mpr (.inr ⟨_, List.mem_cons_self .., rfl⟩))
    | legRejected _ _ => exact hold (View.unwindResult_reject hw)
    | _ => exact hold hw
  | _ => cases hi

end

end OrderExecution
