import OrderExecution.Gateways
import OrderExecution.MarketSteps
import OrderExecution.SingleCalls
import Mathlib.Data.List.Find

/-!
# To which order a fill goes

`on_fill` looks for the first leg, and then for the first order, that a fill
names, in maps whose order is unspecified. With ids of distinct counter values
a gateway's fill names one leg or one order at most, and the order of the maps
does not matter.
-/

namespace OrderExecution

open ArbCoordinator

/-! ## Stored ids -/

section
variable {n : Nat} {a b : CStr 15}

theorem bytes_storedOrderId (h : n < 10 ^ 11) : (storedOrderId n).bytes = orderIdText n :=
  CStr.copy_bytes (numbered_fits (by decide) (by decide) h)

theorem prefixed_fits {pre : Bytes} (hl : pre.length = 3) (h0 : 0 ∉ pre) (a : CStr 15) :
    Fits 31 (pre ++ a.bytes) := by
  have hlength := a.fits.1
  refine ⟨by rw [List.length_append]; omega, fun hm => ?_⟩
  rcases List.mem_append.mp hm with hm | hm
  · exact h0 hm
  · exact a.fits.2 hm

theorem bytes_copy_exIdOf (a : CStr 15) : (CStr.copy 31 (exIdOf a)).bytes = exIdOf a :=
  CStr.copy_bytes (prefixed_fits (by decide) (by decide) a)

theorem bytes_copy_hlIdOf (a : CStr 15) : (CStr.copy 31 (hlIdOf a)).bytes = hlIdOf a :=
  CStr.copy_bytes (prefixed_fits (by decide) (by decide) a)

theorem copy_exIdOf_ne_hlIdOf (a b : CStr 15) : CStr.copy 31 (exIdOf a) ≠ CStr.copy 31 (hlIdOf b) := by
  intro h
  have hbytes := congrArg CStr.bytes h
  rw [bytes_copy_exIdOf, bytes_copy_hlIdOf] at hbytes
  exact exIdOf_ne_hlIdOf a b hbytes

end

/-! ## Who holds an id -/

/-- A place of the manager that an order is kept in. -/
inductive Holder where
  | order (key : CStr 15)
  | leg (groupId : CStr 15) (isCex : Bool)
  deriving DecidableEq

namespace OrderManager

/-- The order that is kept there, if there is one. -/
def held (m : OrderManager) : Holder → Option Order
  | .order key => m.orders.lookup key
  | .leg g isCex => (m.arb.pairs.lookup g).bind fun p => if p.hasLeg isCex then some (p.leg isCex) else none

/-- The order ids are stored ids of distinct counter values, and an order of
`orders_` has no exchange id or the one a gateway made of its id. -/
structure Numbered (m : OrderManager) : Prop where
  counters : ∃ number : Holder → Nat,
    (∀ h o, m.held h = some o → number h < 10 ^ 11 ∧ o.orderId = storedOrderId (number h)) ∧
    ∀ h h', (m.held h).isSome → (m.held h').isSome → number h = number h' → h = h'
  named : ∀ key o, m.orders.lookup key = some o → o.exchangeOrderId = .empty ∨
    ∃ isCex, o.exchangeOrderId.bytes = exchangeIdOf isCex o.orderId

/-- The fill names the leg or the order. -/
def Names (m : OrderManager) (f : Fill) : Holder → Prop
  | .order key => ∃ o, m.orders.lookup key = some o ∧ o.exchangeOrderId = f.exchangeOrderId
  | .leg g isCex => ∃ p, m.arb.pairs.lookup g = some p ∧ p.hasLeg isCex = true ∧
      f.exchangeOrderId.bytes = exchangeIdOf isCex (p.leg isCex).orderId

end OrderManager

/-- A mock gateway reports the fill. -/
inductive GatewayReports (f : Fill) : Prop where
  | cex (gw : MockCexGateway) (o : Order) (now : Int) : f ∈ gw.scheduleFill o now → GatewayReports f
  | dex (gw : MockDexGateway) (o : Order) (txHash : CStr 31) (draw : ℚ) (now : Int) :
      f ∈ gw.scheduleBlockConfirm o txHash draw now → GatewayReports f

theorem GatewayReports.named {f : Fill} (h : GatewayReports f) :
    ∃ isCex id, f.exchangeOrderId.bytes = exchangeIdOf isCex id := by
  cases h with
  | cex gw o now hf =>
    unfold MockCexGateway.scheduleFill at hf
    split at hf
    · cases hf
    · rw [← Option.some.inj hf]
      exact ⟨true, o.orderId, bytes_copy_exIdOf o.orderId⟩
  | dex gw o txHash draw now hf =>
    unfold MockDexGateway.scheduleBlockConfirm at hf
    split at hf
    · cases hf
    · split at hf <;> rw [← Option.some.inj hf] <;> exact ⟨false, o.orderId, bytes_copy_hlIdOf o.orderId⟩

namespace OrderManager

section
variable {m m' : OrderManager} {f : Fill} {h h' : Holder}

theorem Numbered.unique (hm : m.Numbered) {o o' : Order} (ho : m.held h = some o) (ho' : m.held h' = some o')
    (hid : o.orderId = o'.orderId) : h = h' := by
  obtain ⟨number, hstored, hdistinct⟩ := hm.counters
  obtain ⟨hlt, hn⟩ := hstored h o ho
  obtain ⟨hlt', hn'⟩ := hstored h' o' ho'
  refine hdistinct h h' (by rw [ho]; rfl) (by rw [ho']; rfl) (storedOrderId_inj hlt hlt' ?_)
  rw [← hn, ← hn', hid]

/-- What a fill names is the gateway's id of the order that is kept there. -/
theorem Names.held (hm : m.Numbered) (hf : GatewayReports f) (hn : m.Names f h) :
    ∃ o isCex, m.held h = some o ∧ f.exchangeOrderId.bytes = exchangeIdOf isCex o.orderId := by
  obtain ⟨isCex, id, hid⟩ := hf.named
  cases h with
  | order key =>
    obtain ⟨o, ho, hx⟩ := hn
    rcases hm.named key o ho with hnone | ⟨b, hb⟩
    · -- a gateway's id is not empty
      rw [← hx, hnone] at hid
      cases isCex
      · exact absurd hid.symm (hlIdOf_ne_nil id)
      · exact absurd hid.symm (exIdOf_ne_nil id)
    · exact ⟨o, b, ho, hx ▸ hb⟩
  | leg g b =>
    obtain ⟨p, hp, hb, hx⟩ := hn
    exact ⟨p.leg b, b, by simp only [OrderManager.held, hp, Option.bind_some, hb, ite_true], hx⟩

/-- A fill names one leg at most, or one order, and never one of each. -/
theorem Numbered.names_unique (hm : m.Numbered) (hf : GatewayReports f) (hn : m.Names f h) (hn' : m.Names f h') :
    h = h' := by
  obtain ⟨o, b, ho, hx⟩ := hn.held hm hf
  obtain ⟨o', b', ho', hx'⟩ := hn'.held hm hf
  exact hm.unique ho ho' (exchangeIdOf_inj (hx.symm.trans hx')).2

end

end OrderManager

/-! ## The order of the maps -/

/-- The same coordinator, its map of pairs iterated in another order. -/
structure ArbCoordinator.Reordered (c c' : ArbCoordinator) : Prop where
  rest : c' = { c with pairs := c'.pairs }
  pairs : c.pairs.entries.Perm c'.pairs.entries

structure OrderManager.Reordered (m m' : OrderManager) : Prop where
  rest : m' = { m with arb := m'.arb, orders := m'.orders }
  arb : m.arb.Reordered m'.arb
  orders : m.orders.entries.Perm m'.orders.entries

namespace ArbCoordinator

section
variable {c c' : ArbCoordinator} {g : CStr 15} {p : ArbPair} {b : Bool} {x : Bytes}

theorem Reordered.setPair (h : c.Reordered c') (g : CStr 15) (p : ArbPair) :
    (c.setPair g p).Reordered (c'.setPair g p) where
  rest := by
    rw [h.rest]
    rfl
  pairs := AList.perm_insert h.pairs

theorem Reordered.release (h : c.Reordered c') (s : Signal) : (c.release s).Reordered (c'.release s) := by
  rw [h.rest]
  exact ⟨rfl, h.pairs⟩

theorem Reordered.startUnwind (h : c.Reordered c') (p : ArbPair) (now : Int) :
    (c.startUnwind p now).Reordered (c'.startUnwind p now) := by
  rw [h.rest]
  unfold ArbCoordinator.startUnwind
  by_cases hg : c.hasGateway p.cexLeg.signal.exchange = true
  · simp only [hg, ite_true]
    exact ⟨rfl, h.pairs⟩
  · simp only [hg, Bool.false_eq_true, ite_false]
    exact ⟨rfl, h.pairs⟩

/-- `handle_leg_reject` does not look at the map. -/
theorem Reordered.handleLegReject (h : c.Reordered c') (p : ArbPair) (b : Bool) (now : Int) :
    (c.handleLegReject p b now).1.Reordered (c'.handleLegReject p b now).1 := by
  cases b with
  | true =>
    simp only [ArbCoordinator.handleLegReject, ite_true, ite_self]
    by_cases hd : p.hasDexLeg = true ∧ (!isTerminal p.dexLeg.status) = true
    · simp only [if_pos hd]
      exact (h.release _).release _
    · simp only [if_neg hd]
      exact h.release _
  | false =>
    simp only [ArbCoordinator.handleLegReject, Bool.false_eq_true, ite_false]
    by_cases hf : p.hasCexLeg = true ∧ p.cexLeg.status = .FILLED
    · simp only [if_pos hf]
      exact (h.startUnwind _ _).release _
    · simp only [if_neg hf]
      by_cases hc : p.hasCexLeg = true
      · simp only [if_pos hc]
        exact (h.release _).release _
      · simp only [if_neg hc]
        exact h.release _

theorem Reordered.finalizePair (h : c.Reordered c') (g : CStr 15) (p : ArbPair) :
    (c.finalizePair g p).1.Reordered (c'.finalizePair g p).1 := by
  rw [h.rest]
  exact ⟨rfl, h.pairs⟩

theorem findLeg_iff (hone : ∀ g p b g' p' b', c.pairs.lookup g = some p → p.matchLeg x = some b →
    c.pairs.lookup g' = some p' → p'.matchLeg x = some b' → g = g') :
    c.findLeg x = some (g, p, b) ↔ c.pairs.lookup g = some p ∧ p.matchLeg x = some b := by
  refine ⟨mem_pairs_of_findLeg, fun ⟨hp, hb⟩ => ?_⟩
  have hsome : (c.findLeg x).isSome :=
    List.findSome?_isSome_iff.mpr ⟨⟨g, p⟩, AList.mem_lookup_iff.mp hp, by simp [hb]⟩
  obtain ⟨⟨g', p', b'⟩, hf⟩ := Option.isSome_iff_exists.mp hsome
  obtain ⟨hp', hb'⟩ := mem_pairs_of_findLeg hf
  obtain rfl := hone g p b g' p' b' hp hb hp' hb'
  obtain rfl := Option.some.inj (hp.symm.trans hp')
  obtain rfl := Option.some.inj (hb.symm.trans hb')
  exact hf

/-- A leg is found whatever the order of the map, if one leg at most has the id. -/
theorem Reordered.findLeg (h : c.Reordered c') (hone : ∀ g p b g' p' b', c.pairs.lookup g = some p →
    p.matchLeg x = some b → c.pairs.lookup g' = some p' → p'.matchLeg x = some b' → g = g') :
    c'.findLeg x = c.findLeg x := by
  have hlookup : ∀ g, c'.pairs.lookup g = c.pairs.lookup g := fun g => (AList.perm_lookup h.pairs).symm
  apply Option.ext
  intro ⟨g, p, b⟩
  rw [findLeg_iff hone, findLeg_iff (by simpa only [hlookup] using hone), hlookup]

theorem Reordered.onFill (h : c.Reordered c') (hfind : c'.findLeg x = c.findLeg x) (price qty : ℚ) (isReject : Bool)
    (now : Int) : (c.onFill x price qty isReject now).Reordered (c'.onFill x price qty isReject now) := by
  unfold ArbCoordinator.onFill
  rw [hfind]
  cases c.findLeg x with
  | none => exact h
  | some r =>
    obtain ⟨g, p, b⟩ := r
    cases isReject with
    | true =>
      simp only [ite_true, handleLegReject_snd]
      exact (h.handleLegReject p b now).setPair g (p.rejected b)
    | false =>
      simp only [Bool.false_eq_true, ite_false]
      split
      · exact h.setPair g _
      · split
        · exact (h.finalizePair g _).setPair g _
        · exact h.setPair g _

end

end ArbCoordinator

namespace OrderManager

section
variable {m m' : OrderManager} {f : Fill}

theorem findOrder_iff {x : CStr 31} {key : CStr 15} {o : Order} (hone : ∀ key o key' o',
    m.orders.lookup key = some o → o.exchangeOrderId = x → m.orders.lookup key' = some o' →
    o'.exchangeOrderId = x → key = key') :
    m.findOrder x = some (key, o) ↔ m.orders.lookup key = some o ∧ o.exchangeOrderId = x := by
  refine ⟨lookup_of_findOrder, fun ⟨ho, hx⟩ => ?_⟩
  have hsome : (m.findOrder x).isSome := by
    rw [findOrder, Option.isSome_map]
    exact List.find?_isSome.mpr ⟨⟨key, o⟩, AList.mem_lookup_iff.mp ho, by simpa using hx⟩
  obtain ⟨⟨key', o'⟩, hf⟩ := Option.isSome_iff_exists.mp hsome
  obtain ⟨ho', hx'⟩ := lookup_of_findOrder hf
  obtain rfl := hone key o key' o' ho hx ho' hx'
  obtain rfl := Option.some.inj (ho.symm.trans ho')
  exact hf

theorem Reordered.findOrder (h : m.Reordered m') {x : CStr 31} (hone : ∀ key o key' o',
    m.orders.lookup key = some o → o.exchangeOrderId = x → m.orders.lookup key' = some o' →
    o'.exchangeOrderId = x → key = key') :
    m'.findOrder x = m.findOrder x := by
  have hlookup : ∀ key, m'.orders.lookup key = m.orders.lookup key := fun key => (AList.perm_lookup h.orders).symm
  apply Option.ext
  intro ⟨key, o⟩
  rw [findOrder_iff hone, findOrder_iff (by simpa only [hlookup] using hone), hlookup]

theorem Reordered.onFill (h : m.Reordered m')
    (hfind : m'.arb.findLeg f.exchangeOrderId.bytes = m.arb.findLeg f.exchangeOrderId.bytes) (now : Int) :
    (m.onFill f now).Reordered (m'.onFill f now) := by
  refine ⟨?_, h.arb.onFill hfind f.fillPrice f.filledQty f.isReject now, h.orders⟩
  rw [h.rest]
  rfl

theorem Reordered.setOrder (h : m.Reordered m') (id : CStr 15) (o : Order) :
    (m.setOrder id o).Reordered (m'.setOrder id o) := by
  refine ⟨?_, h.arb, AList.perm_insert h.orders⟩
  rw [h.rest]
  rfl

theorem Reordered.release (h : m.Reordered m') (s : Signal) : (m.release s).Reordered (m'.release s) := by
  refine ⟨?_, h.arb.release s, h.orders⟩
  rw [h.rest]
  rfl

theorem Reordered.bookFill (h : m.Reordered m') (id : CStr 15) (s : Signal) (price qty : ℚ) :
    (m.bookFill id s price qty).Reordered (m'.bookFill id s price qty) := by
  refine ⟨?_, ⟨?_, h.arb.pairs⟩, h.orders⟩
  · rw [h.rest]
    rfl
  · unfold OrderManager.bookFill
    rw [h.arb.rest]
    rfl

theorem Reordered.updateStatus (h : m.Reordered m') (id : CStr 15) (status : OrderStatus) :
    (m.updateStatus id status).Reordered (m'.updateStatus id status) := by
  refine ⟨?_, h.arb, h.orders⟩
  rw [h.rest]
  rfl

theorem Reordered.finishFill (h : m.Reordered m')
    (hfind : m'.findOrder f.exchangeOrderId = m.findOrder f.exchangeOrderId) :
    (m.finishFill f).Reordered (m'.finishFill f) := by
  unfold OrderManager.finishFill
  rw [hfind]
  cases m.findOrder f.exchangeOrderId with
  | none => exact h
  | some r =>
    obtain ⟨key, o⟩ := r
    simp only
    split
    · exact (h.setOrder key _).release o.signal
    · exact ((h.setOrder key _).bookFill key o.signal f.fillPrice f.filledQty).updateStatus key .FILLED

/-! ## Fills of the mock gateways -/

theorem Numbered.one_leg (hm : m.Numbered) (hf : GatewayReports f) (g : CStr 15) (p : ArbPair) (b : Bool)
    (g' : CStr 15) (p' : ArbPair) (b' : Bool) (hp : m.arb.pairs.lookup g = some p)
    (hb : p.matchLeg f.exchangeOrderId.bytes = some b) (hp' : m.arb.pairs.lookup g' = some p')
    (hb' : p'.matchLeg f.exchangeOrderId.bytes = some b') : g = g' := by
  have hn : m.Names f (.leg g b) := ⟨p, hp, matchLeg_eq_some hb⟩
  have hn' : m.Names f (.leg g' b') := ⟨p', hp', matchLeg_eq_some hb'⟩
  exact (Holder.leg.inj (hm.names_unique hf hn hn')).1

theorem Numbered.one_order (hm : m.Numbered) (hf : GatewayReports f) (key : CStr 15) (o : Order)
    (key' : CStr 15) (o' : Order) (ho : m.orders.lookup key = some o) (hx : o.exchangeOrderId = f.exchangeOrderId)
    (ho' : m.orders.lookup key' = some o') (hx' : o'.exchangeOrderId = f.exchangeOrderId) : key = key' := by
  have hn : m.Names f (.order key) := ⟨o, ho, hx⟩
  have hn' : m.Names f (.order key') := ⟨o', ho', hx'⟩
  exact Holder.order.inj (hm.names_unique hf hn hn')

/-- Neither critical section of `on_fill` depends on the order of a map. -/
theorem Numbered.fill_reordered (hm : m.Numbered) (hf : GatewayReports f) (h : m.Reordered m') (now : Int) :
    (m.onFill f now).Reordered (m'.onFill f now) ∧ (m.finishFill f).Reordered (m'.finishFill f) ∧
      (m.messageCall f now).Reordered (m'.messageCall f now) := by
  have honFill : (m.onFill f now).Reordered (m'.onFill f now) := h.onFill (h.arb.findLeg (hm.one_leg hf)) now
  refine ⟨honFill, h.finishFill (h.findOrder (hm.one_order hf)), ?_⟩
  -- the first critical section leaves `orders_` alone
  exact honFill.finishFill (honFill.findOrder (hm.one_order hf))

end

end OrderManager

/-! ## The manager among its gateways -/

theorem SingleView.Life.stored_ids {id : CStr 15} {v : SingleView} (h : v.Life id) {o : Order}
    (hl : v.order = some o) : o.orderId = id ∧
      (o.exchangeOrderId = .empty ∨ ∃ isCex, o.exchangeOrderId.bytes = exchangeIdOf isCex o.orderId) := by
  have unsent : ∀ {o' : Order}, o'.Unsent id → v.order = some o' → o.orderId = id ∧
      (o.exchangeOrderId = .empty ∨ ∃ isCex, o.exchangeOrderId.bytes = exchangeIdOf isCex o.orderId) := by
    intro o' hu ho'
    obtain rfl := Option.some.inj (hl.symm.trans ho')
    exact ⟨hu.orderId, .inl hu.exchangeOrderId⟩
  cases h with
  | undrawn | called _ _ | storeRefused _ _ | store _ _ => cases hl
  | stored _ hu _ => exact unsent hu rfl
  | storeRejected hu _ _ _ _ => exact unsent hu rfl
  | release hu _ | refused hu _ | waiting hu _ => exact unsent hu rfl
  | @answered o₁ o' l hu ha _ =>
    obtain rfl := Option.some.inj hl
    refine ⟨ha.orderId.trans hu.orderId, ?_⟩
    rcases ha.named with hn | ⟨hn, -⟩
    · rw [ha.orderId]
      exact .inr ⟨_, hn.trans o₁.exchangeId_eq⟩
    · exact .inl hn

section
variable {m : Market} {x x' : Holder} {o o' : Order}

theorem Market.Orderly.stored_ids (h : m.Orderly) {key : CStr 15} (ho : m.om.orders.lookup key = some o) :
    o.orderId = key ∧
      (o.exchangeOrderId = .empty ∨ ∃ isCex, o.exchangeOrderId.bytes = exchangeIdOf isCex o.orderId) :=
  (h.life key).stored_ids ho

theorem uses_of_held {g : CStr 15} {b : Bool} (ho : m.om.held (.leg g b) = some o) :
    (m.om.arb.view g).Uses (legRole b) o.orderId := by
  obtain ⟨p, hp, hb⟩ := Option.bind_eq_some_iff.mp ho
  split at hb
  · next hhas =>
    obtain rfl := Option.some.inj hb
    exact .inl ⟨p, b, hp, hhas, rfl, rfl⟩
  · cases hb

theorem Market.Orderly.drawn_of_held (h : m.Orderly) (ho : m.om.held x = some o) :
    DrawnBefore m.om.arb.uuid.orderCounter o.orderId := by
  cases x with
  | order key =>
    rw [(h.stored_ids ho).1]
    exact h.tagged.othersDrawn key (h.others_of_order ho)
  | leg g b => exact h.tagged.drawn g _ _ (uses_of_held ho)

/-- No leg has the id of an order. -/
theorem Market.Orderly.leg_ne_order (h : m.Orderly) {key g : CStr 15} {b : Bool}
    (ho : m.om.held (.order key) = some o) (ho' : m.om.held (.leg g b) = some o') : o.orderId ≠ o'.orderId := by
  intro hid
  refine absurd (h.others_of_order ho) ?_
  rw [← (h.stored_ids ho).1, hid]
  exact h.tagged.apart g _ _ (uses_of_held ho')

theorem Market.Orderly.holder_unique (h : m.Orderly) (ho : m.om.held x = some o) (ho' : m.om.held x' = some o')
    (hid : o.orderId = o'.orderId) : x = x' := by
  cases x with
  | order key =>
    cases x' with
    | order key' => rw [← (h.stored_ids ho).1, hid, (h.stored_ids ho').1]
    | leg g b => exact absurd hid (h.leg_ne_order ho ho')
  | leg g b =>
    cases x' with
    | order key => exact absurd hid.symm (h.leg_ne_order ho' ho)
    | leg g' b' =>
      obtain ⟨rfl, hrole⟩ := h.tagged.unique g g' _ _ _ (uses_of_held ho) (hid ▸ uses_of_held ho')
      cases b <;> cases b' <;> first | rfl | cases hrole

/-- In the market every state is one of distinct counter values. -/
theorem Market.Orderly.numbered (h : m.Orderly) (hn : m.om.arb.uuid.orderCounter ≤ 10 ^ 11) : m.om.Numbered := by
  have hnumber : ∀ x, ∃ n, ∀ o, m.om.held x = some o → n < 10 ^ 11 ∧ o.orderId = storedOrderId n := by
    intro x
    cases hx : m.om.held x with
    | none => exact ⟨0, fun o ho => by cases ho⟩
    | some o =>
      obtain ⟨n, hlt, hid⟩ := h.drawn_of_held hx
      refine ⟨n, fun o' ho' => ?_⟩
      obtain rfl := Option.some.inj ho'
      exact ⟨by omega, hid⟩
  choose number hnumber using hnumber
  refine ⟨⟨number, hnumber, fun x x' hx hx' he => ?_⟩, fun key o ho => (h.stored_ids ho).2⟩
  obtain ⟨o, ho⟩ := Option.isSome_iff_exists.mp hx
  obtain ⟨o', ho'⟩ := Option.isSome_iff_exists.mp hx'
  exact h.holder_unique ho ho' (by rw [(hnumber x o ho).2, (hnumber x' o' ho').2, he])

end

/-- Every state of a run, up to `10 ^ 11` ids. -/
theorem Market.run_numbered (signalConfig : SignalConfig) (portfolioConfig : PortfolioConfig) (arbConfig : ArbConfig)
    (hasGateway : Exchange → Bool) (es : List MarketEvent) (m : Market)
    (hr : Machine.run Market.step (.init signalConfig portfolioConfig arbConfig hasGateway) es = some m)
    (hids : Machine.Along Market.step (fun m _ => m.om.arb.uuid.orderCounter < 10 ^ 11)
      (.init signalConfig portfolioConfig arbConfig hasGateway) es)
    (hlast : m.om.arb.uuid.orderCounter ≤ 10 ^ 11) : m.om.Numbered := by
  have horderly : m.Orderly := Machine.inv_along (fun _ _ _ ho hlt hs => ho.step hlt hs) hids
    (Market.orderly_init signalConfig portfolioConfig arbConfig hasGateway) hr
  exact horderly.numbered hlast

/-- Order ids of different counter values are different, the gateways' ids of
them are stored whole and never equal across the gateways; so a gateway's fill
names one leg or one order at most, and what it does is the same for every order
of the maps. -/
theorem fill_attributed :
    (∀ i j, i < j → j < 10 ^ 11 → storedOrderId i ≠ storedOrderId j) ∧
    (∀ i j, i < 10 ^ 11 → j < 10 ^ 11 →
      (CStr.copy 31 (exIdOf (storedOrderId i))).bytes = lit "EX-" ++ orderIdText i ∧
      (CStr.copy 31 (hlIdOf (storedOrderId i))).bytes = lit "HL-" ++ orderIdText i ∧
      CStr.copy 31 (exIdOf (storedOrderId i)) ≠ CStr.copy 31 (hlIdOf (storedOrderId j))) ∧
    ∀ m : OrderManager, m.Numbered → ∀ f, GatewayReports f →
      (∀ h h', m.Names f h → m.Names f h' → h = h') ∧
      ∀ m', m.Reordered m' → ∀ now,
        (m.onFill f now).Reordered (m'.onFill f now) ∧
        (m.finishFill f).Reordered (m'.finishFill f) ∧
        (m.messageCall f now).Reordered (m'.messageCall f now) := by
  refine ⟨fun i j hij hj h => ?_, fun i j hi hj => ⟨?_, ?_, copy_exIdOf_ne_hlIdOf _ _⟩, fun m hm f hf => ⟨?_, ?_⟩⟩
  · exact absurd (storedOrderId_inj (hij.trans hj) hj h) hij.ne
  · rw [bytes_copy_exIdOf, exIdOf, bytes_storedOrderId hi]
  · rw [bytes_copy_hlIdOf, hlIdOf, bytes_storedOrderId hi]
  · exact fun h h' hn hn' => hm.names_unique hf hn hn'
  · exact fun m' hr now => hm.fill_reordered hf hr now

namespace Sample

/-- A pair of the orders 1 and 2. -/
def openPair : ArbPair where
  cexLeg := { orderId := storedOrderId 1, signal := single, status := .SENT }
  dexLeg := { orderId := storedOrderId 2, signal := { single with side := .SELL }, status := .SENT }
  hasCexLeg := true
  hasDexLeg := true

def restingOrder (n : Nat) : Order :=
  { singleSent with orderId := storedOrderId n, exchangeOrderId := .copy 31 (exIdOf (storedOrderId n)) }

/-- The pair, and the orders 3 and 4 in the order of `orders`. -/
def holding (orders : AList fun _ : CStr 15 => Order) : OrderManager :=
  { market.om with
    arb := { market.om.arb with pairs := .singleton (.copy 15 (lit "ARB-1")) openPair }
    orders := orders }

def ascending : AList fun _ : CStr 15 => Order :=
  (AList.singleton (storedOrderId 3) (restingOrder 3)).insert (storedOrderId 4) (restingOrder 4)

def descending : AList fun _ : CStr 15 => Order :=
  (AList.singleton (storedOrderId 4) (restingOrder 4)).insert (storedOrderId 3) (restingOrder 3)

def restingFill : Fill :=
  { exchangeOrderId := .copy 31 (exIdOf (storedOrderId 3)), filledQty := 1, fillPrice := 100, isFinal := true }

theorem lookup_singleton {β : Type} {key key' : CStr 15} {v v' : β}
    (h : (AList.singleton key v : AList fun _ => β).lookup key' = some v') : key' = key ∧ v' = v := by
  have hmem : (⟨key', v'⟩ : Sigma fun _ : CStr 15 => β) ∈ [⟨key, v⟩] := AList.mem_lookup_iff.mp h
  obtain ⟨rfl, hv⟩ := Sigma.mk.inj (List.mem_singleton.mp hmem)
  exact ⟨rfl, eq_of_heq hv⟩

theorem held_holding {x : Holder} {o : Order} (h : (holding ascending).held x = some o) :
    (x = .leg (.copy 15 (lit "ARB-1")) true ∧ o.orderId = storedOrderId 1) ∨
      (x = .leg (.copy 15 (lit "ARB-1")) false ∧ o.orderId = storedOrderId 2) ∨
      ∃ n, (n = 3 ∨ n = 4) ∧ x = .order (storedOrderId n) ∧ o = restingOrder n := by
  cases x with
  | order key =>
    refine .inr (.inr ?_)
    have hl : ascending.lookup key = some o := h
    by_cases h4 : key = storedOrderId 4
    · obtain rfl := h4
      exact ⟨4, .inr rfl, rfl, (Option.some.inj ((AList.lookup_insert _).symm.trans hl)).symm⟩
    · unfold ascending at hl
      rw [AList.lookup_insert_ne h4] at hl
      obtain ⟨rfl, ho⟩ := lookup_singleton hl
      exact ⟨3, .inl rfl, rfl, ho⟩
  | leg g b =>
    obtain ⟨p, hp, hb⟩ := Option.bind_eq_some_iff.mp h
    obtain ⟨rfl, rfl⟩ := lookup_singleton hp
    cases b with
    | true => exact .inl ⟨rfl, by rw [← Option.some.inj hb]; rfl⟩
    | false => exact .inr (.inl ⟨rfl, by rw [← Option.some.inj hb]; rfl⟩)

theorem numbered_holding : (holding ascending).Numbered where
  counters := by
    refine ⟨fun x => match x with
      | .leg _ isCex => if isCex then 1 else 2
      | .order key => if key = storedOrderId 3 then 3 else 4, fun x o h => ?_, fun x x' h h' he => ?_⟩
    · obtain ⟨rfl, ho⟩ | ⟨rfl, ho⟩ | ⟨n, rfl | rfl, rfl, rfl⟩ := held_holding h
      · exact ⟨by decide, ho⟩
      · exact ⟨by decide, ho⟩
      · exact ⟨by decide, rfl⟩
      · exact ⟨by decide, rfl⟩
    · obtain ⟨o, ho⟩ := Option.isSome_iff_exists.mp h
      obtain ⟨o', ho'⟩ := Option.isSome_iff_exists.mp h'
      obtain ⟨rfl, -⟩ | ⟨rfl, -⟩ | ⟨n, rfl | rfl, rfl, -⟩ := held_holding ho <;>
        obtain ⟨rfl, -⟩ | ⟨rfl, -⟩ | ⟨n, rfl | rfl, rfl, -⟩ := held_holding ho' <;>
        first | rfl | exact absurd he (by decide)
  named := by
    intro key o ho
    obtain ⟨hx, -⟩ | ⟨hx, -⟩ | ⟨n, hn, hx, rfl⟩ := held_holding (x := .order key) ho
    · cases hx
    · cases hx
    · exact .inr ⟨true, bytes_copy_exIdOf _⟩

theorem fill_attributed_resting (now : Int) :
    (∀ h h', (holding ascending).Names restingFill h → (holding ascending).Names restingFill h' → h = h') ∧
      ((holding ascending).messageCall restingFill now).Reordered
        ((holding descending).messageCall restingFill now) := by
  have hf : GatewayReports restingFill := .cex {} (restingOrder 3) 0 (by decide +kernel)
  obtain ⟨hone, hsame⟩ := fill_attributed.2.2 (holding ascending) numbered_holding restingFill hf
  exact ⟨hone, (hsame (holding descending) ⟨rfl, ⟨rfl, .refl _⟩, .swap _ _ _⟩ now).2.2⟩

end Sample

end OrderExecution
