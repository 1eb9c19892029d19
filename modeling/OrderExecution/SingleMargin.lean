import OrderExecution.MarketSteps
import OrderExecution.SingleCalls

/-!
# Margin is reserved exactly while a single-leg order is live

The status of an order is in `orders_` and its reservation in the guard.
`KeyedManager` runs whole calls of the manager next to the margin keys of its
signals, none of them twice, with at most 128 orders in flight after each call.
-/

namespace OrderExecution

open FlatHashMap PortfolioGuard SignalReceiver Machine

def OrderManager.live (m : OrderManager) : List (Sigma fun _ : CStr 15 => Order) :=
  m.orders.entries.filter fun e => !isTerminal e.2.status

structure KeyedManager where
  om : OrderManager
  keys : List Bytes := []

namespace KeyedManager

/-- The key of a call's signal is new, and a message names an exchange id. -/
def Allowed (k : KeyedManager) : CallEvent → Prop
  | .process s _ _ _ _ => marginKey s ∉ k.keys
  | .sendResult _ _ _ => True
  | .message f _ => f.exchangeOrderId.isEmpty = false

instance (k : KeyedManager) : ∀ e, Decidable (k.Allowed e)
  | .process s _ _ _ _ => inferInstanceAs (Decidable (marginKey s ∉ k.keys))
  | .sendResult _ _ _ => isTrue trivial
  | .message f _ => inferInstanceAs (Decidable (f.exchangeOrderId.isEmpty = false))

def newKeys : CallEvent → List Bytes
  | .process s _ _ _ _ => [marginKey s]
  | .sendResult _ _ _ | .message _ _ => []

def step (k : KeyedManager) (e : CallEvent) : Option KeyedManager :=
  if k.Allowed e then
    match k.om.call e with
    | none => none
    | some om => if om.live.length ≤ 128 then some ⟨om, newKeys e ++ k.keys⟩ else none
  else none

/-- Margin is reserved under a key exactly if an order of that key is in
`orders_` with a status that is not terminal. -/
def MarginFollows (k : KeyedManager) : Prop :=
  ∀ key, k.om.arb.portfolio.reservedUnder key ≠ none ↔
    ∃ id o, k.om.orders.lookup id = some o ∧ marginKey o.signal = key ∧ isTerminal o.status = false

/-- A new order does not take the place of one in flight. -/
def OwnId (k : KeyedManager) : CallEvent → Prop
  | .process s receiveNs _ _ _ => (validate k.om.signalConfig s receiveNs).valid = true →
    ∀ o ∈ k.om.orders.lookup (storedOrderId k.om.arb.uuid.orderCounter), isTerminal o.status = true
  | .sendResult _ _ _ | .message _ _ => True

instance (k : KeyedManager) : ∀ e, Decidable (k.OwnId e)
  | .process s receiveNs _ _ _ => inferInstanceAs (Decidable ((validate k.om.signalConfig s receiveNs).valid = true →
      ∀ o ∈ k.om.orders.lookup (storedOrderId k.om.arb.uuid.orderCounter), isTerminal o.status = true))
  | .sendResult _ _ _ | .message _ _ => isTrue trivial

end KeyedManager

/-! ## Reservations and orders -/

/-- The reservations `R` are those of the orders in flight, and no two orders
have one key. -/
structure Follows (R : Bytes → Option ℚ) (os : Orders) : Prop where
  reserved (key : Bytes) : R key ≠ none ↔
    ∃ id o, os.lookup id = some o ∧ marginKey o.signal = key ∧ isTerminal o.status = false
  distinct {i j : CStr 15} {o o' : Order} : os.lookup i = some o → os.lookup j = some o' →
    marginKey o.signal = marginKey o'.signal → i = j

section
variable {R S : Bytes → Option ℚ} {os : Orders} {id : CStr 15} {o o' : Order}

theorem Follows.self (h : Follows R os) (ho : os.lookup id = some o) :
    R (marginKey o.signal) ≠ none ↔ isTerminal o.status = false := by
  rw [h.reserved]
  constructor
  · rintro ⟨i, o₁, hi, hkey, hs⟩
    obtain rfl := h.distinct hi ho hkey
    rw [hi, Option.some.injEq] at ho
    exact ho ▸ hs
  · intro hs
    exact ⟨id, o, ho, rfl, hs⟩

/-- A write to the one order of a key, along with its reservation. It may take
the place of an order that is over. -/
theorem Follows.write (h : Follows R os)
    (hown : ∀ i o₁, os.lookup i = some o₁ → marginKey o₁.signal = marginKey o.signal → i = id)
    (hover : ∀ o₁, os.lookup id = some o₁ → marginKey o₁.signal = marginKey o.signal ∨ isTerminal o₁.status = true)
    (hself : S (marginKey o.signal) ≠ none ↔ isTerminal o.status = false)
    (hother : ∀ key, key ≠ marginKey o.signal → S key = R key) : Follows S (os.insert id o) where
  reserved := by
    intro key
    by_cases hkey : key = marginKey o.signal
    · subst hkey
      rw [hself]
      constructor
      · intro hs
        exact ⟨id, o, AList.lookup_insert .., rfl, hs⟩
      · rintro ⟨i, o₁, hi, hk, hs⟩
        by_cases hid : i = id
        · rw [hid, AList.lookup_insert, Option.some.injEq] at hi
          exact hi ▸ hs
        · rw [AList.lookup_insert_ne hid] at hi
          exact absurd (hown i o₁ hi hk) hid
    · rw [hother key hkey, h.reserved]
      constructor
      · rintro ⟨i, o₁, hi, hk, hs⟩
        have hid : i ≠ id := by
          rintro rfl
          rcases hover o₁ hi with he | he
          · exact hkey (hk.symm.trans he)
          · rw [hs] at he; cases he
        exact ⟨i, o₁, by rw [AList.lookup_insert_ne hid]; exact hi, hk, hs⟩
      · rintro ⟨i, o₁, hi, hk, hs⟩
        have hid : i ≠ id := by
          rintro rfl
          rw [AList.lookup_insert, Option.some.injEq] at hi
          exact hkey (hi ▸ hk.symm)
        exact ⟨i, o₁, by rw [← AList.lookup_insert_ne hid]; exact hi, hk, hs⟩
  distinct := by
    intro i j o₁ o₂ hi hj hk
    by_cases hid : i = id <;> by_cases hjd : j = id
    · rw [hid, hjd]
    · rw [hid, AList.lookup_insert, Option.some.injEq] at hi
      rw [AList.lookup_insert_ne hjd] at hj
      rw [hid]
      exact (hown j o₂ hj (hk.symm.trans (congrArg (marginKey ·.signal) hi.symm))).symm
    · rw [hjd, AList.lookup_insert, Option.some.injEq] at hj
      rw [AList.lookup_insert_ne hid] at hi
      rw [hjd]
      exact hown i o₁ hi (hk.trans (congrArg (marginKey ·.signal) hj.symm))
    · rw [AList.lookup_insert_ne hid] at hi
      rw [AList.lookup_insert_ne hjd] at hj
      exact h.distinct hi hj hk

theorem length_le_live {m : OrderManager} {keys : List Bytes} (hnd : keys.Nodup)
    (hkeys : ∀ key ∈ keys, ∃ id o, m.orders.lookup id = some o ∧ marginKey o.signal = key ∧
      isTerminal o.status = false) : keys.length ≤ m.live.length := by
  have hsub : keys ⊆ m.live.map fun e => marginKey e.2.signal := by
    intro key hkey
    obtain ⟨id, o, ho, hk, hs⟩ := hkeys key hkey
    refine List.mem_map.mpr ⟨⟨id, o⟩, List.mem_filter.mpr ⟨AList.mem_lookup_iff.mp ho, ?_⟩, hk⟩
    rw [hs]
    rfl
  have hle := (hnd.subperm hsub).length_le
  rw [List.length_map] at hle
  exact hle

theorem Follows.room {t : Table} (hw : t.Wf hashKey) {m : OrderManager} (h : Follows (t.find hashKey) os)
    (hs : isTerminal o.status = false) (hnone : t.find hashKey (marginKey o.signal) = none)
    (hover : ∀ o₁, os.lookup id = some o₁ → isTerminal o₁.status = true) (hm : m.orders = os.insert id o) :
    t.size < m.live.length := by
  have habsent := (find_eq_none hw).mp hnone
  have hnd : (marginKey o.signal :: t.entries.map Prod.fst).Nodup := by
    refine List.nodup_cons.mpr ⟨?_, entries_keys_nodup hw⟩
    intro hmem
    obtain ⟨⟨key, v⟩, he, hkey⟩ := List.mem_map.mp hmem
    exact habsent v (hkey ▸ he)
  have hle := length_le_live (m := m) hnd ?_
  · rw [List.length_cons, List.length_map, ← hw.size_eq] at hle
    exact hle
  intro key hkey
  rw [hm]
  rcases List.mem_cons.mp hkey with rfl | hkey
  · exact ⟨id, o, AList.lookup_insert .., rfl, hs⟩
  · obtain ⟨⟨key, v⟩, he, rfl⟩ := List.mem_map.mp hkey
    have hne : t.find hashKey key ≠ none := by
      rw [(find_eq_some hw).mpr he]
      exact Option.some_ne_none v
    obtain ⟨i, o₁, hi, hk, hlive⟩ := (h.reserved key).mp hne
    have hid : i ≠ id := by
      rintro rfl
      rw [hover o₁ hi] at hlive
      cases hlive
    exact ⟨i, o₁, by rw [AList.lookup_insert_ne hid]; exact hi, hk, hlive⟩

/-- The dispatch threads are about different orders, in flight and not yet named by
an exchange. -/
structure Waiting (ts : List SingleTask) (os : Orders) : Prop where
  distinct : (ts.map (·.order.orderId)).Nodup
  order (t : SingleTask) : t ∈ ts → ∃ o, os.lookup t.order.orderId = some o ∧ o.signal = t.order.signal ∧
    o.exchangeOrderId.isEmpty = true ∧ isTerminal o.status = false

variable {ts : List SingleTask}

theorem Waiting.insert (h : Waiting ts os) (hid : ∀ t ∈ ts, t.order.orderId ≠ id) (o : Order) :
    Waiting ts (os.insert id o) where
  distinct := h.distinct
  order := by
    intro t ht
    rw [AList.lookup_insert_ne (hid t ht)]
    exact h.order t ht

theorem Waiting.over (h : Waiting ts os) (hover : ∀ o, os.lookup id = some o → isTerminal o.status = true) :
    ∀ t ∈ ts, t.order.orderId ≠ id := by
  intro t ht hid
  obtain ⟨o, ho, -, -, hs⟩ := h.order t ht
  rw [hid] at ho
  rw [hover o ho] at hs
  cases hs

theorem Waiting.named (h : Waiting ts os) (ho : os.lookup id = some o) (hx : o.exchangeOrderId.isEmpty = false) :
    ∀ t ∈ ts, t.order.orderId ≠ id := by
  intro t ht hid
  obtain ⟨o₁, ho₁, -, hempty, -⟩ := h.order t ht
  rw [hid, ho, Option.some.injEq] at ho₁
  rw [← ho₁, hx] at hempty
  cases hempty

theorem Waiting.erase (h : Waiting ts os) {t : SingleTask} (ht : t ∈ ts) :
    Waiting (ts.erase t) os ∧ ∀ t' ∈ ts.erase t, t'.order.orderId ≠ t.order.orderId := by
  have hperm := List.perm_cons_erase ht
  have hnd : (t.order.orderId :: (ts.erase t).map (·.order.orderId)).Nodup :=
    ((hperm.map _).nodup_iff).mp h.distinct
  rw [List.nodup_cons] at hnd
  refine ⟨⟨hnd.2, fun t' ht' => h.order t' (List.mem_of_mem_erase ht')⟩, ?_⟩
  intro t' ht' he
  exact hnd.1 (List.mem_map.mpr ⟨t', ht', he⟩)

end

/-! ## The calls -/

namespace PortfolioGuard

variable {g : PortfolioGuard}

theorem reservedUnder_checkAndReserve_self (h : g.Wf) {s : Signal} (ha : (g.checkAndReserve s).2.approved = true)
    (hroom : g.state.marginReserved.size < 128) : (g.checkAndReserve s).1.reservedUnder (marginKey s) ≠ none := by
  rw [checkAndReserve_approved ha]
  obtain ⟨v, hv⟩ := find_update_self h.reserved (marginKey_fits s) g.dummy (· + g.calcRequiredMargin s) (.inr hroom)
  have : (g.reserve s (g.calcRequiredMargin s)).reservedUnder (marginKey s) = some _ := hv
  rw [this]
  exact Option.some_ne_none _

end PortfolioGuard

namespace KeyedManager

structure Kept (k : KeyedManager) : Prop where
  wf : k.om.arb.portfolio.Wf
  pairs : k.om.arb.pairs = ∅
  follows : Follows k.om.arb.portfolio.reservedUnder k.om.orders
  known (id : CStr 15) (o : Order) : k.om.orders.lookup id = some o → marginKey o.signal ∈ k.keys
  waiting : Waiting k.om.tasks k.om.orders

section
variable {k k' : KeyedManager} {s : Signal} {receiveNs now sentNow : Int} {answers : List (Option CancelResult)}

theorem known_insert (h : k.Kept) {keys : List Bytes} (hsub : ∀ x ∈ k.keys, x ∈ keys) (id : CStr 15) {o : Order}
    (ho : marginKey o.signal ∈ keys) : ∀ i o₁, (k.om.orders.insert id o).lookup i = some o₁ →
      marginKey o₁.signal ∈ keys := by
  intro i o₁ hi
  by_cases hid : i = id
  · rw [hid, AList.lookup_insert, Option.some.injEq] at hi
    exact hi ▸ ho
  · rw [AList.lookup_insert_ne hid] at hi
    exact hsub _ (h.known i o₁ hi)

theorem Kept.unreserved (h : k.Kept) (hnew : marginKey s ∉ k.keys) :
    k.om.arb.portfolio.reservedUnder (marginKey s) = none := by
  by_contra hne
  obtain ⟨i, o₁, hi, hk, -⟩ := (h.follows.reserved _).mp hne
  exact hnew (hk ▸ h.known i o₁ hi)

theorem Kept.reservedUnder_stranded (h : k.Kept) (hnew : marginKey s ∉ k.keys) (key : Bytes) :
    ((k.om.arb.portfolio.checkAndReserve s).1.releaseMargin s).reservedUnder key =
      k.om.arb.portfolio.reservedUnder key := by
  by_cases hkey : key = marginKey s
  · rw [hkey, reservedUnder_releaseMargin_self (h.wf.checkAndReserve s), h.unreserved hnew]
  · rw [reservedUnder_releaseMargin_ne (h.wf.checkAndReserve s) hkey, reservedUnder_checkAndReserve_ne h.wf hkey]

theorem strandedOrder_orders (m : OrderManager) (s : Signal) (now sentNow : Int)
    (answers : List (Option CancelResult)) :
    ((m.admitted s now sentNow answers).storeOrder (m.strandedOrder s now sentNow)).orders =
      m.orders.insert (storedOrderId m.arb.uuid.orderCounter) (m.strandedOrder s now sentNow) :=
  AList.insert_insert ..

theorem Kept.process (h : k.Kept) (hnew : marginKey s ∉ k.keys)
    (hid : k.OwnId (.process s receiveNs now sentNow answers))
    (hroom : (k.om.processCall s receiveNs now sentNow answers).live.length ≤ 128) :
    Kept ⟨k.om.processCall s receiveNs now sentNow answers, marginKey s :: k.keys⟩ := by
  have hown : ∀ i o₁, k.om.orders.lookup i = some o₁ → marginKey o₁.signal = marginKey s →
      i = storedOrderId k.om.arb.uuid.orderCounter := by
    intro i o₁ hi hk
    exact absurd (hk ▸ h.known i o₁ hi) hnew
  have hnone := h.unreserved hnew
  have hsub : ∀ x ∈ k.keys, x ∈ marginKey s :: k.keys := fun x hx => List.mem_cons_of_mem _ hx
  have hp := k.om.processCall_spec s receiveNs now sentNow answers
  generalize k.om.processCall s receiveNs now sentNow answers = m' at hp hroom
  cases hp with
  | invalid r hv => exact ⟨h.wf, h.pairs, h.follows, fun i o₁ hi => hsub _ (h.known i o₁ hi), h.waiting⟩
  | refused reason r hv =>
    have hover := hid hv
    refine ⟨h.wf, h.pairs, ?_, known_insert h hsub _ (List.mem_cons_self ..), h.waiting.insert (h.waiting.over hover) _⟩
    refine h.follows.write hown (fun o₁ ho₁ => .inr (hover o₁ ho₁)) ?_ fun _ _ => rfl
    exact ⟨fun hne => absurd hnone hne, nofun⟩
  | stranded r hpass hg =>
    -- without a gateway the margin is reserved and released in one call
    have hover := hid hpass.valid
    have hfree := h.waiting.over hover
    have hw := (h.wf.checkAndReserve s).releaseMargin s
    have hfollows : Follows ((k.om.arb.portfolio.checkAndReserve s).1.releaseMargin s).reservedUnder
        (k.om.orders.insert (storedOrderId k.om.arb.uuid.orderCounter) (k.om.strandedOrder s now sentNow)) := by
      refine h.follows.write hown (fun o₁ ho₁ => .inr (hover o₁ ho₁)) ?_ fun key _ => h.reservedUnder_stranded hnew key
      exact ⟨fun hne => absurd ((h.reservedUnder_stranded hnew _).trans hnone) hne, nofun⟩
    have hknown := known_insert h hsub (storedOrderId k.om.arb.uuid.orderCounter)
      (o := k.om.strandedOrder s now sentNow) (List.mem_cons_self ..)
    rw [← strandedOrder_orders k.om s now sentNow answers] at hfollows hknown
    exact ⟨hw, h.pairs, hfollows, hknown, (h.waiting.insert hfree _).insert hfree _⟩
  | sent r hpass hg =>
    have hover := hid hpass.valid
    have hfree := h.waiting.over hover
    have hsize := (h.follows.room h.wf.reserved (o := k.om.sentOrder s now sentNow) rfl hnone hover rfl).trans_le hroom
    refine ⟨h.wf.checkAndReserve s, h.pairs, ?_, known_insert h hsub _ (List.mem_cons_self ..), ?_⟩
    · refine h.follows.write hown (fun o₁ ho₁ => .inr (hover o₁ ho₁)) ?_
        fun key hkey => reservedUnder_checkAndReserve_ne h.wf hkey
      exact ⟨fun _ => rfl, fun _ => reservedUnder_checkAndReserve_self h.wf hpass.approved hsize⟩
    · have hrest := h.waiting.insert hfree (k.om.sentOrder s now sentNow)
      refine ⟨List.nodup_cons.mpr ⟨?_, hrest.distinct⟩, ?_⟩
      · intro hm
        obtain ⟨t, ht, he⟩ := List.mem_map.mp hm
        exact hfree t ht he
      · intro t ht
        rcases List.mem_cons.mp ht with rfl | ht
        · exact ⟨_, AList.lookup_insert .., rfl, rfl, rfl⟩
        · exact hrest.order t ht

theorem Kept.write (h : k.Kept) {id : CStr 15} {o o' : Order} (ho : k.om.orders.lookup id = some o)
    (hsignal : o'.signal = o.signal) {m : OrderManager} (hw : m.arb.portfolio.Wf) (hp : m.arb.pairs = ∅)
    (horders : m.orders = k.om.orders.insert id o')
    (hself : m.arb.portfolio.reservedUnder (marginKey o.signal) ≠ none ↔ isTerminal o'.status = false)
    (hother : ∀ key, key ≠ marginKey o.signal →
      m.arb.portfolio.reservedUnder key = k.om.arb.portfolio.reservedUnder key)
    (hwaiting : Waiting m.tasks k.om.orders) (hid : ∀ t ∈ m.tasks, t.order.orderId ≠ id) : Kept ⟨m, k.keys⟩ := by
  have hfollows : Follows m.arb.portfolio.reservedUnder (k.om.orders.insert id o') := by
    refine h.follows.write ?_ ?_ (hsignal ▸ hself) (hsignal ▸ hother)
    · intro i o₁ hi hk
      exact h.follows.distinct hi ho (hk.trans (congrArg marginKey hsignal))
    · intro o₁ ho₁
      rw [ho, Option.some.injEq] at ho₁
      exact .inl (by rw [← ho₁, hsignal])
  have hknown := known_insert h (fun x hx => hx) id (o := o') (hsignal ▸ h.known id o ho)
  have hinsert := hwaiting.insert hid o'
  rw [← horders] at hfollows hknown hinsert
  exact ⟨hw, hp, hfollows, hknown, hinsert⟩

theorem isTerminal_answeredBy (o : Order) (exch : Exchange) (r : OrderResult) :
    isTerminal (o.answeredBy exch r).status = !r.success := by
  unfold Order.answeredBy
  cases r.success with
  | false => rfl
  | true =>
    simp only [ite_true]
    cases getExchangeType exch <;> cases r.hasTxHash <;> rfl

theorem Kept.sendResult (h : k.Kept) {gw : Exchange} {o : Order} (ht : .send gw o ∈ k.om.tasks) (r : OrderResult) :
    Kept ⟨k.om.resultCall gw o r, k.keys⟩ := by
  obtain ⟨order, hl, hsignal, -, hlive⟩ := h.waiting.order _ ht
  obtain ⟨hrest, hother⟩ := h.waiting.erase ht
  have hanswered : (order.answeredBy o.signal.exchange r).signal = order.signal := signal_answeredBy ..
  have hstatus := isTerminal_answeredBy order o.signal.exchange r
  have hsig : order.signal = o.signal := hsignal
  have hlook : ((k.om.drop (.send gw o)).record (.sendOrder gw o)).orders.lookup o.orderId = some order := hl
  unfold OrderManager.resultCall OrderManager.sendResult
  simp only [hlook]
  split
  · next hr =>
    rw [hr] at hstatus
    refine h.write hl hanswered h.wf h.pairs rfl ?_ (fun _ _ => rfl) hrest hother
    rw [hstatus]
    exact ⟨fun _ => rfl, fun _ => (h.follows.self hl).mpr hlive⟩
  · next hr =>
    rw [Bool.eq_false_iff.mpr hr] at hstatus
    refine h.write hl hanswered (h.wf.releaseMargin o.signal) h.pairs rfl ?_ ?_ hrest hother
    · rw [hstatus, hsig]
      exact ⟨fun hne => absurd (reservedUnder_releaseMargin_self h.wf o.signal) hne, nofun⟩
    · intro key hkey
      rw [hsig] at hkey
      exact reservedUnder_releaseMargin_ne h.wf hkey

theorem Kept.message (h : k.Kept) {f : Fill} (hf : f.exchangeOrderId.isEmpty = false) (now : Int) :
    Kept ⟨k.om.messageCall f now, k.keys⟩ := by
  have harb : k.om.onFill f now = k.om := by
    apply OrderManager.onFill_unnamed
    unfold ArbCoordinator.findLeg
    rw [h.pairs]
    rfl
  unfold OrderManager.messageCall OrderManager.finishFill
  rw [harb]
  cases hfind : k.om.findOrder f.exchangeOrderId with
  | none => exact h
  | some x =>
    obtain ⟨id, order⟩ := x
    obtain ⟨hl, hx⟩ := OrderManager.lookup_of_findOrder hfind
    have hid := h.waiting.named hl (hx ▸ hf)
    simp only
    split
    · have hsignal : ({ order with status := .REJECTED } : Order).signal = order.signal := rfl
      refine h.write hl hsignal (h.wf.releaseMargin order.signal) h.pairs rfl ?_ ?_ h.waiting hid
      · exact ⟨fun hne => absurd (reservedUnder_releaseMargin_self h.wf order.signal) hne, nofun⟩
      · intro key hkey
        exact reservedUnder_releaseMargin_ne h.wf hkey
    · obtain ⟨-, hsignal, -, hstatus⟩ := filledBy_fields order f
      refine h.write hl hsignal (h.wf.onFill order.signal f.fillPrice f.filledQty) h.pairs rfl ?_ ?_ h.waiting hid
      · rw [hstatus]
        exact ⟨fun hne => absurd (reservedUnder_onFill_self h.wf order.signal f.fillPrice f.filledQty) hne, nofun⟩
      · intro key hkey
        exact reservedUnder_onFill_ne h.wf hkey

theorem Kept.step {e : CallEvent} (h : k.Kept) (hid : k.OwnId e) (hs : k.step e = some k') : k'.Kept := by
  unfold KeyedManager.step at hs
  split at hs
  · next ha =>
    split at hs
    · cases hs
    · next om hom =>
      split at hs
      · next hroom =>
        obtain rfl := Option.some.inj hs
        cases e with
        | process s receiveNs now sentNow answers =>
          simp only [OrderManager.call] at hom
          split at hom
          · cases hom
          · obtain rfl := Option.some.inj hom
            exact h.process ha hid hroom
        | sendResult gw o r =>
          simp only [OrderManager.call] at hom
          split at hom
          · next ht =>
            obtain rfl := Option.some.inj hom
            exact h.sendResult ht r
          · cases hom
        | message f now =>
          obtain rfl := Option.some.inj hom
          exact h.message ha now
      · cases hs
  · cases hs

theorem stores_process (h : k.Kept) (hv : (validate k.om.signalConfig s receiveNs).valid = true)
    (now sentNow : Int) (answers : List (Option CancelResult)) :
    ∃ x, x.signal = s ∧ (k.om.processCall s receiveNs now sentNow answers).orders =
        k.om.orders.insert (storedOrderId k.om.arb.uuid.orderCounter) x ∧
      ∀ key, key ≠ marginKey s →
        (k.om.processCall s receiveNs now sentNow answers).arb.portfolio.reservedUnder key =
          k.om.arb.portfolio.reservedUnder key := by
  have hp := k.om.processCall_spec s receiveNs now sentNow answers
  generalize k.om.processCall s receiveNs now sentNow answers = m' at hp
  cases hp with
  | invalid r hn => rw [hv] at hn; cases hn
  | refused reason r => exact ⟨_, rfl, rfl, fun _ _ => rfl⟩
  | stranded r =>
    refine ⟨k.om.strandedOrder s now sentNow, rfl, strandedOrder_orders k.om s now sentNow answers, fun key hkey => ?_⟩
    exact (reservedUnder_releaseMargin_ne (h.wf.checkAndReserve s) hkey).trans
      (reservedUnder_checkAndReserve_ne h.wf hkey)
  | sent r => exact ⟨_, rfl, rfl, fun key hkey => reservedUnder_checkAndReserve_ne h.wf hkey⟩

theorem Kept.ownId (h : k.Kept) {e : CallEvent} (hs : k.step e = some k') (hf : k'.MarginFollows) : k.OwnId e := by
  unfold KeyedManager.step at hs
  split at hs
  · next ha =>
    split at hs
    · cases hs
    · next om hom =>
      split at hs
      · obtain rfl := Option.some.inj hs
        cases e with
        | process s receiveNs now sentNow answers =>
          simp only [OrderManager.call] at hom
          split at hom
          · cases hom
          · obtain rfl := Option.some.inj hom
            intro hv o ho
            by_contra hlive
            have hne : marginKey o.signal ≠ marginKey s := fun he => ha (he ▸ h.known _ o ho)
            obtain ⟨x, hx, horders, hother⟩ := stores_process h hv now sentNow answers
            have hreserved : k.om.arb.portfolio.reservedUnder (marginKey o.signal) ≠ none :=
              (h.follows.self ho).mpr (Bool.eq_false_iff.mpr hlive)
            obtain ⟨i, o₁, hi, hk, -⟩ := (hf (marginKey o.signal)).mp (by rw [hother _ hne]; exact hreserved)
            rw [horders] at hi
            by_cases hid : i = storedOrderId k.om.arb.uuid.orderCounter
            · rw [hid, AList.lookup_insert, Option.some.injEq] at hi
              rw [← hi, hx] at hk
              exact hne hk.symm
            · rw [AList.lookup_insert_ne hid] at hi
              exact hid (h.follows.distinct hi ho hk)
        | sendResult gw o r => exact trivial
        | message f now => exact trivial
      · cases hs
  · cases hs

theorem Kept.along (h : k.Kept) {es : List CallEvent} (hr : run KeyedManager.step k es = some k')
    (hf : Always KeyedManager.step MarginFollows k es) : Along KeyedManager.step OwnId k es := by
  induction es generalizing k with
  | nil => exact trivial
  | cons e es ih =>
    obtain ⟨t, ht, hr⟩ := run_cons hr
    have hrest := hf.2 t ht
    have hown := h.ownId ht (always_iff.mp hrest [] es t rfl rfl)
    refine ⟨hown, fun s' hs' => ?_⟩
    obtain rfl := Option.some.inj (ht.symm.trans hs')
    exact ih (h.step hown ht) hr hrest

theorem kept_fresh (signalConfig : SignalConfig) (portfolioConfig : PortfolioConfig) (arbConfig : ArbConfig)
    (hasGateway : Exchange → Bool) (uuid : UuidGenerator) :
    Kept ⟨.fresh signalConfig portfolioConfig arbConfig hasGateway uuid, []⟩ := by
  have hempty : ∀ id : CStr 15, (∅ : Orders).lookup id = none := fun _ => rfl
  have hfollows : Follows (PortfolioGuard.init portfolioConfig).reservedUnder ∅ := by
    refine ⟨fun key => ?_, fun hi => ?_⟩
    · constructor
      · intro hne
        exact absurd (reservedUnder_init portfolioConfig key) hne
      · rintro ⟨i, o, hi, -⟩
        rw [hempty] at hi
        cases hi
    · rw [hempty] at hi
      cases hi
  refine ⟨wf_init portfolioConfig, rfl, hfollows, fun id o hi => ?_, List.nodup_nil,
    fun t ht => absurd ht List.not_mem_nil⟩
  have habs := (hempty id).symm.trans hi
  cases habs

end

end KeyedManager

open KeyedManager

/-- Margin is reserved exactly under the keys of the orders in flight, in every
state of the run, if and only if no new order takes the place of one in flight. -/
theorem margin_follows_iff (signalConfig : SignalConfig) (portfolioConfig : PortfolioConfig) (arbConfig : ArbConfig)
    (hasGateway : Exchange → Bool) (uuid : UuidGenerator) {es : List CallEvent} {k : KeyedManager}
    (hr : run KeyedManager.step ⟨.fresh signalConfig portfolioConfig arbConfig hasGateway uuid, []⟩ es = some k) :
    Always KeyedManager.step MarginFollows ⟨.fresh signalConfig portfolioConfig arbConfig hasGateway uuid, []⟩ es ↔
      Along KeyedManager.step OwnId ⟨.fresh signalConfig portfolioConfig arbConfig hasGateway uuid, []⟩ es := by
  have hkept := kept_fresh signalConfig portfolioConfig arbConfig hasGateway uuid
  constructor
  · exact hkept.along hr
  · intro h
    have hinv := inv_always (I := Kept) (fun _ _ _ hk hid hs => hk.step hid hs) h hkept
    exact hinv.mono fun k hk => hk.follows.reserved

namespace Sample

def singleCalls : List CallEvent :=
  [.process single 1 1 1 [], .sendResult .BINANCE singleSent taken, .message singleFill 2]

theorem margin_follows_filled : ∃ k,
    run KeyedManager.step ⟨.fresh {} {} {} (fun _ => true) {}, []⟩ singleCalls = some k ∧
      Always KeyedManager.step MarginFollows ⟨.fresh {} {} {} (fun _ => true) {}, []⟩ singleCalls := by
  obtain ⟨k, hk⟩ := Option.isSome_iff_exists.mp
    (show (run KeyedManager.step ⟨.fresh {} {} {} (fun _ => true) {}, []⟩ singleCalls).isSome by decide +kernel)
  exact ⟨k, hk, (margin_follows_iff {} {} {} (fun _ => true) {} hk).mpr (by decide +kernel)⟩

/-- Two signals once 10^11 ids have been drawn: their orders get one id. -/
def sharingCalls : List CallEvent :=
  [.process single 1 1 1 [], .process { single with signalId := storedSignalId 202 } 1 1 1 []]

theorem not_margin_follows : ¬ ∀ (signalConfig : SignalConfig) (portfolioConfig : PortfolioConfig)
    (arbConfig : ArbConfig) (hasGateway : Exchange → Bool) (uuid : UuidGenerator) (es : List CallEvent),
    Always KeyedManager.step MarginFollows ⟨.fresh signalConfig portfolioConfig arbConfig hasGateway uuid, []⟩ es := by
  intro h
  let k₀ : KeyedManager := ⟨.fresh {} {} {} (fun _ => true) { orderCounter := 10 ^ 11 }, []⟩
  let k := (run KeyedManager.step k₀ sharingCalls).getD k₀
  have hrun : run KeyedManager.step k₀ sharingCalls = some k := by
    obtain ⟨k', hk'⟩ := Option.isSome_iff_exists.mp
      (show (run KeyedManager.step k₀ sharingCalls).isSome by decide +kernel)
    simp only [k, hk', Option.getD_some]
  have hf : k.MarginFollows := always_iff.mp (h {} {} {} (fun _ => true) { orderCounter := 10 ^ 11 } sharingCalls)
    _ [] k (List.append_nil _).symm hrun
  obtain ⟨id, o, ho, hk, -⟩ := (hf (marginKey single)).mp (by decide +kernel)
  have hother : ∀ e ∈ k.om.orders.entries, marginKey e.2.signal ≠ marginKey single := by decide +kernel
  exact hother ⟨id, o⟩ (AList.mem_lookup_iff.mp ho) hk

end Sample

end OrderExecution
