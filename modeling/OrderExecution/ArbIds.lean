import OrderExecution.ArbGuardCalls

/-!
# Who an order id belongs to

Every order of the coordinator, a leg or an unwind, carries an id drawn from
the generator. As long as the ids do not run over their field, an id belongs to
one order, and a message that carries an exchange id reaches the leg it is
about, or no leg.
-/

namespace OrderExecution

open ArbCoordinator

def legRole (isCex : Bool) : LegRole := if isCex then .cexLeg else .dexLeg

theorem legRole_inj {b b' : Bool} (h : legRole b = legRole b') : b = b' := by
  cases b <;> cases b' <;> first | rfl | cases h

theorem legRole_ne_unwind (b : Bool) : legRole b ≠ .unwind := by
  cases b <;> decide

def newRole : ArbEvent → LegRole
  | .addLeg s _ => legRole s.isCexLeg
  | _ => .unwind

/-! ## The orders in a view -/

def DispatchCall.orders : DispatchCall → List (LegRole × Order)
  | .lookup _ o₁ o₂ | .sendCex _ _ _ o₁ o₂ => [(.cexLeg, o₁), (.dexLeg, o₂)]
  | .sendDex _ _ o => [(.dexLeg, o)]
  | .enter _ | .startMonitor _ => []

def Worker.orders : Worker → List (LegRole × Order)
  | .unwindSend _ _ o => [(.unwind, o)]
  | .deadline _ | .sendResult _ _ | .riskWindow _ | .unwindResult _ => []

def ArbEffect.orders : ArbEffect → List (LegRole × Order)
  | .sendOrder _ role _ o => [(role, o)]
  | .dispatched _ | .startUnwind _ | .bookFill _ _ _ _ => []

/-- The orders on their way to a gateway, and those that were sent. -/
def View.orders (v : View) : List (LegRole × Order) :=
  v.calls.flatMap DispatchCall.orders ++ (v.workers.flatMap Worker.orders ++ v.log.flatMap ArbEffect.orders)

/-- The id is used for an order of this role. -/
def View.Uses (v : View) (role : LegRole) (id : CStr 15) : Prop :=
  (∃ p b, v.pair = some p ∧ p.hasLeg b = true ∧ role = legRole b ∧ (p.leg b).orderId = id) ∨
    ∃ o, (role, o) ∈ v.orders ∧ o.orderId = id

namespace ArbCoordinator

def draws (c : ArbCoordinator) : ArbEvent → Bool
  | .addLeg _ _ | .drawOrderId => true
  | .worker (.sendResult g b) r _ =>
    match c.pairs.lookup g with
    | none => false
    | some p => p.hasLeg b && !r.success && decide (p.RejectUnwinds b)
  | .worker (.riskWindow g) _ _ =>
    match c.pairs.lookup g with
    | none => false
    | some p => p.status = .CEX_FILLED
  | .onFill x _ _ isReject _ =>
    match c.findLeg x with
    | none => false
    | some (_, p, b) => isReject && decide (p.RejectUnwinds b)
  | _ => false

end ArbCoordinator

section
variable {c c' : ArbCoordinator} {g : CStr 15} {v v' : View} {e : ArbEvent}

theorem View.mem_orders {x : LegRole × Order} : x ∈ v.orders ↔
    (∃ d ∈ v.calls, x ∈ d.orders) ∨ (∃ w ∈ v.workers, x ∈ w.orders) ∨ ∃ y ∈ v.log, x ∈ y.orders := by
  simp [View.orders, List.mem_flatMap]

theorem View.orders_unwind {p : ArbPair} {now : Int} {x : LegRole × Order}
    (hx : x ∈ (v.unwind c g p now).orders) : x ∈ v.orders ∨ x = (.unwind, c.unwindOrder p now) := by
  simp only [View.mem_orders, View.unwind] at hx
  split at hx <;> grind [View.mem_orders, Worker.orders, ArbEffect.orders]

theorem View.orders_reject {p : ArbPair} {b : Bool} {now : Int} {x : LegRole × Order}
    (hx : x ∈ (v.reject c g p b now).orders) :
    x ∈ v.orders ∨ x = (.unwind, c.unwindOrder p now) ∧ p.RejectUnwinds b := by
  unfold View.reject at hx
  split at hx
  · next h =>
    rcases View.orders_unwind (v := v) hx with h' | h'
    · exact .inl h'
    · exact .inr ⟨h', h⟩
  · exact .inl hx

theorem View.orders_send {b : Bool} {gw : Option Exchange} {o : Order} {x : LegRole × Order}
    (hx : x ∈ (v.send g b gw o).orders) : x ∈ v.orders ∨ x = (legRole b, o) := by
  cases gw with
  | none => exact .inl hx
  | some gw => grind [View.send, View.mem_orders, Worker.orders, ArbEffect.orders, legRole]

theorem PairStep.orders (h : PairStep c g v e v') (hc : v.pair = c.pairs.lookup g) {role : LegRole}
    {o : Order} (ho : (role, o) ∈ v'.orders) :
    (role, o) ∈ v.orders ∨
      (∃ p b, v.pair = some p ∧ .enter g ∈ v.calls ∧ role = legRole b ∧ o.orderId = (p.leg b).orderId ∧
        o.signal = (p.leg b).signal) ∨
      (role = .unwind ∧ newRole e = .unwind ∧ c.draws e = true ∧ c.touched e = some g ∧
        ∃ p now, o = c.unwindOrder p now) := by
  have moved : ∀ {d : DispatchCall}, d ∈ v.calls → (role, o) ∈ d.orders → (role, o) ∈ v.orders :=
    fun hd hx => View.mem_orders.mpr (.inl ⟨_, hd, hx⟩)
  cases h with
  | other _ => exact .inl ho
  | addLeg _ _ => grind [View.mem_orders, DispatchCall.orders, Worker.orders]
  | enterReturns _ _ | enterRefused _ _ _ _ => grind [View.mem_orders]
  | @enterDispatches now p h₀ h₁ h₂ _ =>
    rcases View.mem_orders.mp ho with ⟨d, hd, hx⟩ | hw | ⟨y, hy, hx⟩
    · rcases List.mem_cons.mp hd with rfl | hd
      · simp only [DispatchCall.orders, List.mem_cons, Prod.mk.injEq, List.not_mem_nil, or_false] at hx
        rcases hx with ⟨rfl, rfl⟩ | ⟨rfl, rfl⟩
        · exact .inr (.inl ⟨p, true, h₁, h₀, rfl, rfl, rfl⟩)
        · exact .inr (.inl ⟨p, false, h₁, h₀, rfl, rfl, rfl⟩)
      · exact .inl (moved (List.mem_of_mem_erase hd) hx)
    · exact .inl (View.mem_orders.mpr (.inr (.inl hw)))
    · rcases List.mem_cons.mp hy with rfl | hy
      · cases hx
      · exact .inl (View.mem_orders.mpr (.inr (.inr ⟨y, hy, hx⟩)))
  | lookupFails _ _ | lookup _ _ => grind [View.mem_orders, DispatchCall.orders]
  | @sendCex now gw₁ gw₂ o₁ o₂ h₀ =>
    have hx : (role, o) ∈ (v.send g true gw₁ o₁).orders ∨ (role, o) ∈ (DispatchCall.sendDex g gw₂ o₂).orders := by
      grind [View.mem_orders, View.calls_send]
    rcases hx with hx | hx
    · rcases View.orders_send hx with hx | hx
      · exact .inl hx
      · rw [hx]
        exact .inl (View.mem_orders.mpr (.inl ⟨_, h₀, by simp [DispatchCall.orders, legRole]⟩))
    · exact .inl (moved h₀ (List.mem_cons_of_mem _ hx))
  | @sendDex now gw o' h₀ =>
    have hx : (role, o) ∈ (v.send g false gw o').orders := by
      grind [View.mem_orders, View.calls_send, DispatchCall.orders]
    rcases View.orders_send hx with hx | hx
    · exact .inl hx
    · rw [hx]
      exact .inl (View.mem_orders.mpr (.inl ⟨_, h₀, by simp [DispatchCall.orders, legRole]⟩))
  | startMonitor _ => grind [View.mem_orders, Worker.orders]
  | deadlineIdle _ _ | deadline _ _ _ _ | sendResultIdle _ _ | sendSucceeded _ _ _ _ =>
    grind [View.mem_orders]
  | riskIdle _ _ | riskDex _ _ _ | unwindResultIdle _ _ | unwindResult _ _ => grind [View.mem_orders]
  | @sendFailed b r now p h₀ h₁ hl hr =>
    rcases View.orders_reject ho with hx | ⟨hx, hru⟩
    · exact .inl (by grind [View.mem_orders])
    · cases hx
      rw [rejectUnwinds_identified] at hru
      exact .inr (.inr ⟨rfl, rfl, by simp [draws, ← hc, h₁, hl, hr, hru], rfl, _, now, rfl⟩)
  | @riskCex r now p h₀ h₁ h₂ =>
    have hx : (role, o) ∈ (View.unwind { v with workers := v.workers.erase (.riskWindow g) } c g p now).orders := ho
    rcases View.orders_unwind hx with hx | hx
    · exact .inl (by grind [View.mem_orders])
    · cases hx
      exact .inr (.inr ⟨rfl, rfl, by simp [draws, ← hc, h₁, h₂], rfl, _, now, rfl⟩)
  | @unwindSend gw o' r now h₀ =>
    left
    grind [View.mem_orders, Worker.orders, ArbEffect.orders]
  | @legRejected x price qty now p b h₀ h₁ =>
    rcases View.orders_reject ho with hx | ⟨hx, hru⟩
    · exact .inl hx
    · cases hx
      exact .inr (.inr ⟨rfl, rfl, by simp [draws, h₀, hru], by simp [touched, h₀], _, now, rfl⟩)
  | firstFill _ _ _ | lateFill _ _ _ _ => exact .inl ho
  | secondFill _ _ _ => grind [View.mem_orders, ArbEffect.orders]

end

/-! ## The counter -/

namespace ArbCoordinator

section
variable {c c' : ArbCoordinator} {g : CStr 15} {e : ArbEvent}

@[simp] theorem uuid_setPair (p : ArbPair) : (c.setPair g p).uuid = c.uuid := rfl
@[simp] theorem uuid_join (w : Worker) : (c.join w).uuid = c.uuid := rfl
@[simp] theorem uuid_pushCalls (l : List DispatchCall) : (c.pushCalls l).uuid = c.uuid := rfl
@[simp] theorem uuid_release (s : Signal) : (c.release s).uuid = c.uuid := rfl

@[simp] theorem uuid_releaseLeg (p : ArbPair) (b : Bool) : (c.releaseLeg p b).uuid = c.uuid := by
  unfold releaseLeg; split <;> rfl

@[simp] theorem orderCounter_startUnwind (p : ArbPair) (now : Int) :
    (c.startUnwind p now).uuid.orderCounter = (c.uuid.orderCounter + 1) % 2 ^ 64 := by
  simp only [startUnwind]
  split <;> rfl

theorem orderCounter_handleLegReject (p : ArbPair) (b : Bool) (now : Int) :
    (c.handleLegReject p b now).1.uuid.orderCounter =
      if p.RejectUnwinds b then (c.uuid.orderCounter + 1) % 2 ^ 64 else c.uuid.orderCounter := by
  cases b with
  | true =>
    simp only [handleLegReject, ite_true, ite_self, ArbPair.RejectUnwinds, reduceCtorEq, false_and, ite_false]
    split <;> rfl
  | false =>
    simp only [handleLegReject, ArbPair.RejectUnwinds, Bool.false_eq_true, ite_false, true_and]
    split
    · rw [uuid_release, orderCounter_startUnwind]
    · split <;> rfl

theorem orderCounter_step (h : c.step e = some c') : c'.uuid.orderCounter =
    if c.draws e then (c.uuid.orderCounter + 1) % 2 ^ 64 else c.uuid.orderCounter := by
  cases e with
  | addLeg s now =>
    cases h
    rw [addLeg_fst]
    unfold addingTo
    split <;> split <;> rfl
  | dispatch d now =>
    simp only [step] at h
    split at h <;> cases h
    simp only [uuid_pushCalls, draws, Bool.false_eq_true, ite_false]
    exact congrArg UuidGenerator.orderCounter ((c.dropCall d).advance_frame now d).2.1
  | worker w r now =>
    simp only [step] at h
    split at h <;> cases h
    cases w with
    | deadline g₀ =>
      simp only [runWorker, draws, Bool.false_eq_true, ite_false]
      by_cases hi : ∀ p, c.pairs.lookup g₀ = some p → p.status = .ASSEMBLING → p.bothLegsPresent = true
      · rw [deadline_idle (by exact hi)]; rfl
      · simp only [not_forall, Bool.not_eq_true] at hi
        obtain ⟨p, hp, hs, hb⟩ := hi
        rw [deadline_incomplete (by exact hp) hs hb]
        simp
    | sendResult g₀ b =>
      simp only [runWorker, sendResult, draws, pairs_join]
      rcases Option.eq_none_or_eq_some (c.pairs.lookup g₀) with hp | ⟨p, hp⟩
      · simp [hp]
      · by_cases hb : p.hasLeg b = true
        · by_cases hr : r.success = true
          · simp [hp, hb, hr]
          · have hunwinds := rejectUnwinds_identified p b b r
            unfold ArbPair.identified at hunwinds
            simp [hp, hb, hr, orderCounter_handleLegReject, hunwinds]
        · simp [hp, hb]
    | riskWindow g₀ =>
      simp only [runWorker, riskWindow, draws, pairs_join]
      rcases Option.eq_none_or_eq_some (c.pairs.lookup g₀) with hp | ⟨p, hp⟩
      · simp [hp]
      · by_cases h₁ : p.status = .CEX_FILLED
        · simp [hp, h₁]
        · by_cases h₂ : p.status = .DEX_FILLED
          · simp [hp, h₂]
          · simp [hp, h₁, h₂]
    | unwindSend g₀ gw o => rfl
    | unwindResult g₀ =>
      simp only [runWorker, unwindResult, draws, pairs_join, Bool.false_eq_true, ite_false]
      split <;> rfl
  | onFill x price qty isReject now =>
    cases h
    simp only [onFill, draws]
    rcases Option.eq_none_or_eq_some (c.findLeg x) with hf | ⟨⟨g₀, p, b⟩, hf⟩
    · simp [hf]
    · cases isReject with
      | true => simp [hf, orderCounter_handleLegReject]
      | false =>
        simp only [hf, Bool.false_eq_true, ite_false, Bool.false_and]
        split
        · rfl
        · split
          · simp only [finalizePair]; split <;> rfl
          · rfl
  | portfolio op => cases h; rfl
  | drawOrderId => cases h; rfl

theorem orderId_unwindOrder (c : ArbCoordinator) (p : ArbPair) (now : Int) :
    (c.unwindOrder p now).orderId = storedOrderId c.uuid.orderCounter := rfl

end

end ArbCoordinator

/-! ## Every id has one owner -/

section
variable {c c' : ArbCoordinator} {g : CStr 15} {v v' : View} {e : ArbEvent}

theorem PairStep.uses (h : PairStep c g v e v') (hc : v.pair = c.pairs.lookup g) (hv : v.Complete g)
    {role : LegRole} {id : CStr 15} (hu : v'.Uses role id) : v.Uses role id ∨
      role = newRole e ∧ c.draws e = true ∧ c.touched e = some g ∧ id = storedOrderId c.uuid.orderCounter := by
  rcases hu with ⟨p', b, hp', hb, rfl, rfl⟩ | ⟨o, ho, rfl⟩
  · rcases h.leg_origin hp' hb with ⟨p, hp, hb, hid, -⟩ | ⟨s, now, rfl, hg, rfl, hid, -⟩
    · exact .inl (.inl ⟨p, b, hp, hb, rfl, hid.symm⟩)
    · exact .inr ⟨rfl, rfl, congrArg some hg, hid⟩
  · rcases h.orders hc ho with ho | ⟨p, b, hp, hcall, rfl, hid, -⟩ | ⟨rfl, hr, hd, ht, p, now, rfl⟩
    · exact .inl (.inr ⟨o, ho, rfl⟩)
    · have hb : p.hasLeg b = true := hv.hasLeg hp (.inr (.inl hcall)) b
      exact .inl (.inl ⟨p, b, hp, hb, rfl, hid.symm⟩)
    · exact .inr ⟨hr.symm, hd, ht, orderId_unwindOrder ..⟩

/-- Every id in use belongs to one order of one pair, and `others`, the ids that
were drawn for other users, are none of them. -/
structure Tagged (c : ArbCoordinator) (others : List (CStr 15)) : Prop where
  keyed : c.Keyed
  complete : c.Complete
  drawn : ∀ g role id, (c.view g).Uses role id → DrawnBefore c.uuid.orderCounter id
  unique : ∀ g g' role role' id, (c.view g).Uses role id → (c.view g').Uses role' id → g = g' ∧ role = role'
  othersDrawn : ∀ id ∈ others, DrawnBefore c.uuid.orderCounter id
  apart : ∀ g role id, (c.view g).Uses role id → id ∉ others

theorem tagged_init (config : ArbConfig) (π : PortfolioGuard) (hasGateway : Exchange → Bool) :
    Tagged (init config π hasGateway) [] := by
  have unused : ∀ g role id, ¬ ((init config π hasGateway).view g).Uses role id := by
    rintro g role id (⟨p, b, hp, -⟩ | ⟨o, ho, -⟩)
    · simp [init, view] at hp
    · simp [View.mem_orders, init, view] at ho
  refine ⟨keyed_init config π hasGateway, complete_init config π hasGateway, ?_, ?_, ?_, ?_⟩
  · intro g role id hu
    exact absurd hu (unused g role id)
  · intro g g' role role' id hu
    exact absurd hu (unused g role id)
  · intro id hid
    cases hid
  · intro g role id hu
    exact absurd hu (unused g role id)

theorem Tagged.step {others : List (CStr 15)} (h : Tagged c others) (hn : c.uuid.orderCounter < 10 ^ 11)
    (hs : c.step e = some c') : Tagged c'
      (if e = .drawOrderId then storedOrderId c.uuid.orderCounter :: others else others) := by
  have hcount := orderCounter_step hs
  have hle : c.uuid.orderCounter ≤ c'.uuid.orderCounter := by
    rw [hcount]
    split <;> omega
  have hnew : c.draws e = true → DrawnBefore c'.uuid.orderCounter (storedOrderId c.uuid.orderCounter) := by
    intro hd
    rw [hcount, if_pos hd, Nat.mod_eq_of_lt (by omega)]
    exact drawnBefore_succ _
  have huses : ∀ g role id, (c'.view g).Uses role id → (c.view g).Uses role id ∨
      role = newRole e ∧ c.draws e = true ∧ c.touched e = some g ∧ id = storedOrderId c.uuid.orderCounter :=
    fun g role id hu => (step_view h.keyed hs g).uses rfl (h.complete g) hu
  have hfresh : ∀ g role id, (c.view g).Uses role id → id ≠ storedOrderId c.uuid.orderCounter :=
    fun g role id hu => (h.drawn g role id hu).ne_stored hn
  refine ⟨h.keyed.step hs, h.complete.step h.keyed hs, ?_, ?_, ?_, ?_⟩
  · intro g role id hu
    rcases huses g role id hu with hu | ⟨-, hd, -, rfl⟩
    · exact (h.drawn g role id hu).mono hle
    · exact hnew hd
  · intro g g' role role' id hu hu'
    rcases huses g role id hu with hu | ⟨hr, -, ht, hid⟩
    · rcases huses g' role' id hu' with hu' | ⟨-, -, -, hid⟩
      · exact h.unique g g' role role' id hu hu'
      · exact absurd hid (hfresh g role id hu)
    · rcases huses g' role' id hu' with hu' | ⟨hr', -, ht', -⟩
      · exact absurd hid (hfresh g' role' id hu')
      · exact ⟨Option.some.inj (ht.symm.trans ht'), hr.trans hr'.symm⟩
  · intro id hid
    split at hid
    · next he =>
      rcases List.mem_cons.mp hid with rfl | hid
      · exact hnew (by rw [he]; rfl)
      · exact (h.othersDrawn id hid).mono hle
    · exact (h.othersDrawn id hid).mono hle
  · intro g role id hu hid
    rcases huses g role id hu with hu | ⟨-, hd, ht, rfl⟩
    · split at hid
      · rcases List.mem_cons.mp hid with rfl | hid
        · exact hfresh g role _ hu rfl
        · exact h.apart g role id hu hid
      · exact h.apart g role id hu hid
    · rw [if_neg (by rintro rfl; cases ht)] at hid
      exact (h.othersDrawn _ hid).ne_stored hn rfl

end

/-! ## Where a message goes -/

/-- The exchange id of an order on a CEX or a DEX. -/
def exchangeIdOf (isCex : Bool) (orderId : CStr 15) : Bytes := if isCex then exIdOf orderId else hlIdOf orderId

theorem exchangeIdOf_inj {b b' : Bool} {i j : CStr 15} (h : exchangeIdOf b i = exchangeIdOf b' j) :
    b = b' ∧ i = j := by
  cases b <;> cases b'
  · exact ⟨rfl, hlIdOf_inj h⟩
  · exact absurd h.symm (exIdOf_ne_hlIdOf j i)
  · exact absurd h (exIdOf_ne_hlIdOf i j)
  · exact ⟨rfl, exIdOf_inj h⟩

theorem Order.exchangeId_eq (o : Order) : o.exchangeId = exchangeIdOf o.signal.isCexLeg o.orderId := by
  unfold Order.exchangeId exchangeIdOf Signal.isCexLeg
  cases getExchangeType o.signal.exchange <;> rfl

theorem matchLeg_eq_some {p : ArbPair} {x : Bytes} {b : Bool} (h : p.matchLeg x = some b) :
    p.hasLeg b = true ∧ x = exchangeIdOf b (p.leg b).orderId := by
  unfold ArbPair.matchLeg at h
  split at h
  · next hc => cases h; exact ⟨hc.1, hc.2.symm⟩
  · split at h
    · next hd => cases h; exact ⟨hd.1, hd.2.symm⟩
    · cases h

theorem matchLeg_self {p : ArbPair} {b : Bool} (hb : p.hasLeg b = true) :
    p.matchLeg (exchangeIdOf b (p.leg b).orderId) = some b := by
  unfold ArbPair.matchLeg
  cases b with
  | true => rw [if_pos ⟨hb, rfl⟩]
  | false => rw [if_neg (fun h => exIdOf_ne_hlIdOf _ _ h.2), if_pos ⟨hb, rfl⟩]

section
variable {c : ArbCoordinator} {others : List (CStr 15)} {g : CStr 15} {p : ArbPair} {b : Bool}

theorem findLeg_uses {x : Bytes} (h : c.findLeg x = some (g, p, b)) :
    ∃ id, x = exchangeIdOf b id ∧ (c.view g).Uses (legRole b) id := by
  obtain ⟨hp, hm⟩ := mem_pairs_of_findLeg h
  obtain ⟨hb, hx⟩ := matchLeg_eq_some hm
  exact ⟨_, hx, .inl ⟨p, b, hp, hb, rfl, rfl⟩⟩

theorem findLeg_leg (h : Tagged c others) (hp : c.pairs.lookup g = some p) (hb : p.hasLeg b = true) :
    c.findLeg (exchangeIdOf b (p.leg b).orderId) = some (g, p, b) := by
  have hmem : ⟨g, p⟩ ∈ c.pairs.entries := AList.mem_lookup_iff.mp hp
  have hsome : (c.findLeg (exchangeIdOf b (p.leg b).orderId)).isSome := by
    refine List.findSome?_isSome_iff.mpr ⟨_, hmem, ?_⟩
    simp [matchLeg_self hb]
  obtain ⟨⟨g', p', b'⟩, hf⟩ := Option.isSome_iff_exists.mp hsome
  obtain ⟨id, hid, hu⟩ := findLeg_uses hf
  obtain ⟨rfl, rfl⟩ := exchangeIdOf_inj hid
  obtain ⟨rfl, -⟩ := h.unique _ _ _ _ _ hu (.inl ⟨p, b, hp, hb, rfl, rfl⟩)
  have := (mem_pairs_of_findLeg hf).1
  rw [hp, Option.some.injEq] at this
  rw [hf, this]

end

end OrderExecution
