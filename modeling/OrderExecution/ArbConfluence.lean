import OrderExecution.ArbCommute
import OrderExecution.ArbLedger
import OrderExecution.ArbMargin

/-!
# The outcome of a pair does not depend on the order of its messages

The two fills of a dispatched pair may come in either order, any number of
times, and between the two send results. The pair ends `COMPLETED` with one
realized spread, and the guard's tables with each fill booked once. `Account` is
what the three tables hold, as finite maps.
-/

namespace OrderExecution

open ArbCoordinator Machine FlatHashMap

/-! ## Booking a fill in finite maps -/

@[ext] structure Account where
  positions : Bytes → Option ℚ
  used : Bytes → Option ℚ
  reserved : Bytes → Option ℚ

namespace Account

/-- A fill moves the position of its symbol, and its margin from reserved to
used. -/
def book (a : Account) (s : Signal) (margin qty : ℚ) : Account where
  positions := Function.update a.positions s.symbol.bytes
    (some ((a.positions s.symbol.bytes).getD 0 + qty * s.side.sign))
  used := Function.update a.used (marginKey s) (some margin)
  reserved := Function.update a.reserved (marginKey s) none

section
variable (a : Account) (s : Signal) (margin qty : ℚ) (k : Bytes)

theorem positions_book : (a.book s margin qty).positions k = if k = s.symbol.bytes
    then some ((a.positions s.symbol.bytes).getD 0 + qty * s.side.sign) else a.positions k :=
  Function.update_apply ..

theorem used_book : (a.book s margin qty).used k = if k = marginKey s then some margin else a.used k :=
  Function.update_apply ..

theorem reserved_book : (a.book s margin qty).reserved k = if k = marginKey s then none else a.reserved k :=
  Function.update_apply ..

end

end Account

namespace PortfolioGuard

def account (g : PortfolioGuard) : Account where
  positions := g.state.positions.find hashKey
  used := g.state.marginUsed.find hashKey
  reserved := g.reservedUnder

/-- A slot for `k₁`, and then one for `k₂`. -/
def HasRoom (t : Table) (k₁ k₂ : Bytes) : Prop :=
  t.size + ((if t.find hashKey k₁ = none then 1 else 0) +
    if k₂ ≠ k₁ ∧ t.find hashKey k₂ = none then 1 else 0) ≤ 128

instance (t : Table) (k₁ k₂ : Bytes) : Decidable (HasRoom t k₁ k₂) := inferInstanceAs (Decidable (_ ≤ _))

/-- The tables are sound, and no free slot of the positions has a stale value. -/
structure Steady (g : PortfolioGuard) : Prop where
  wf : g.Wf
  fresh : Fresh g.state.positions

section
variable {g : PortfolioGuard} {t : Table}

theorem HasRoom.first {k₁ k₂ : Bytes} (h : HasRoom t k₁ k₂) : t.find hashKey k₁ ≠ none ∨ t.size < 128 := by
  unfold HasRoom at h
  by_cases hf : t.find hashKey k₁ = none
  · rw [if_pos hf] at h
    exact .inr (by omega)
  · exact .inl hf

theorem HasRoom.second {k₁ k₂ : Bytes} (h : HasRoom t k₁ k₂) (hw : t.Wf hashKey) (hk : Fits 31 k₁) (dummy : ℚ)
    (f : ℚ → ℚ) : (t.update hashKey dummy k₁ f).1.find hashKey k₂ ≠ none ∨
      (t.update hashKey dummy k₁ f).1.size < 128 := by
  by_cases he : k₂ = k₁
  · obtain ⟨v, hv⟩ := find_update_self hw hk dummy f h.first
    rw [he, hv]
    exact .inl (Option.some_ne_none _)
  · rw [find_update_ne hw hk dummy f he]
    by_cases hf : t.find hashKey k₂ = none
    · unfold HasRoom at h
      rw [if_pos (And.intro he hf)] at h
      obtain ⟨hw', hu⟩ := update_spec hw hk dummy f
      refine .inr ?_
      have hsize : (t.update hashKey dummy k₁ f).1.size ≤ t.size + if t.find hashKey k₁ = none then 1 else 0 := by
        rw [hw'.size_eq, hw.size_eq]
        cases hu with
        | changed v rest h₁ h₂ =>
          rw [h₁.length_eq, h₂.length_eq]
          exact Nat.le_add_right _ _
        | added p _ _ hn _ h₂ => rw [h₂.length_eq, if_pos hn]; exact le_refl _
        | lost _ _ h₂ => rw [h₂]; exact Nat.le_add_right _ _
      omega
    · exact .inl hf

theorem Steady.of_positions_eq {g' : PortfolioGuard} (h : g.Steady) (hw : g'.Wf)
    (he : g'.state.positions = g.state.positions) : g'.Steady :=
  ⟨hw, he ▸ h.fresh⟩

theorem Steady.onFill (h : g.Steady) (s : Signal) (price qty : ℚ) : (g.onFill s price qty).Steady :=
  ⟨h.wf.onFill s price qty, h.fresh.update h.wf.positions _ _ _⟩

theorem Steady.apply (h : g.Steady) (op : GuardOp) : (g.apply op).Steady := by
  cases op with
  | checkAndReserve s => exact h.of_positions_eq (h.wf.checkAndReserve s) (state_positions_checkAndReserve s)
  | checkAndReservePair cex dex =>
    exact h.of_positions_eq (h.wf.checkAndReservePair cex dex) (state_positions_checkAndReservePair cex dex)
  | releaseMargin s => exact h.of_positions_eq (h.wf.releaseMargin s) (state_positions_releaseMargin s)
  | onFill s price qty => exact h.onFill s price qty

theorem Steady.applyAll (h : g.Steady) (ops : List GuardOp) : (g.applyAll ops).Steady := by
  induction ops generalizing g with
  | nil => exact h
  | cons op ops ih => exact ih (h.apply op)

theorem steady_init (config : PortfolioConfig) : (init config).Steady := ⟨wf_init config, fresh_empty⟩

theorem account_onFill (h : g.Steady) (s : Signal) (price qty : ℚ)
    (hp : g.state.positions.find hashKey s.symbol.bytes ≠ none ∨ g.state.positions.size < 128)
    (hu : g.state.marginUsed.find hashKey (marginKey s) ≠ none ∨ g.state.marginUsed.size < 128) :
    (g.onFill s price qty).account = g.account.book s (g.usedMargin s price qty) qty := by
  apply Account.ext
  · funext k
    rw [Account.positions_book]
    by_cases hk : k = s.symbol.bytes
    · subst hk
      rw [if_pos rfl]
      exact find_update_fresh h.wf.positions h.fresh (symbol_fits s) _ _ hp
    · rw [if_neg hk]
      exact find_update_ne h.wf.positions (symbol_fits s) _ _ hk
  · funext k
    rw [Account.used_book]
    by_cases hk : k = marginKey s
    · subst hk
      rw [if_pos rfl]
      obtain ⟨v, hv⟩ := find_update_self h.wf.used (marginKey_fits s) g.dummy
        (fun _ => g.usedMargin s price qty) hu
      exact hv
    · rw [if_neg hk]
      exact find_update_ne h.wf.used (marginKey_fits s) _ _ hk
  · funext k
    rw [Account.reserved_book]
    by_cases hk : k = marginKey s
    · subst hk
      rw [if_pos rfl]
      exact reservedUnder_onFill_self h.wf s price qty
    · rw [if_neg hk]
      exact reservedUnder_onFill_ne h.wf hk

theorem account_onFill_onFill (h : g.Steady) (s₁ s₂ : Signal) (price₁ qty₁ price₂ qty₂ : ℚ)
    (hp : HasRoom g.state.positions s₁.symbol.bytes s₂.symbol.bytes)
    (hu : HasRoom g.state.marginUsed (marginKey s₁) (marginKey s₂)) :
    ((g.onFill s₁ price₁ qty₁).onFill s₂ price₂ qty₂).account =
      (g.account.book s₁ (g.usedMargin s₁ price₁ qty₁) qty₁).book s₂ (g.usedMargin s₂ price₂ qty₂) qty₂ := by
  have hp₂ := hp.second h.wf.positions (symbol_fits s₁)
    (g.state.marginUsed.update hashKey g.dummy (marginKey s₁) fun _ => g.usedMargin s₁ price₁ qty₁).2
    (· + qty₁ * s₁.side.sign)
  have hu₂ := hu.second h.wf.used (marginKey_fits s₁) g.dummy fun _ => g.usedMargin s₁ price₁ qty₁
  rw [account_onFill (h.onFill s₁ price₁ qty₁) s₂ price₂ qty₂ hp₂ hu₂,
    account_onFill h s₁ price₁ qty₁ hp.first hu.first]
  rfl

end

end PortfolioGuard

/-! ## The messages of a dispatched pair -/

/-- The fill of a leg: the exchange's id of its order, and what the exchange
reports. -/
structure LegFill where
  exchangeOrderId : Bytes
  price : ℚ
  qty : ℚ

def LegFill.message (f : LegFill) (now : Int) : ArbEvent := .onFill f.exchangeOrderId f.price f.qty false now

/-- A delivery of the fill of either leg, or a send result that is a success. -/
def IsDelivery (g : CStr 15) (fill : Bool → LegFill) (e : ArbEvent) : Prop :=
  (∃ b now, e = (fill b).message now) ∨
    ∃ b result now, e = .worker (.sendResult g b) result now ∧ result.success = true

def realizedSpread (p : ArbPair) (fill : Bool → LegFill) : ℚ :=
  calcRealizedSpread { p with
    cexLeg := { p.cexLeg with avgFillPrice := (fill true).price }
    dexLeg := { p.dexLeg with avgFillPrice := (fill false).price } }

def bookLegs (π : PortfolioGuard) (p : ArbPair) (fill : Bool → LegFill) : PortfolioGuard :=
  (π.onFill p.cexLeg.signal (fill true).price (fill true).qty).onFill p.dexLeg.signal (fill false).price
    (fill false).qty

/-- The status of the pair once the fills of `seen` have come. -/
def statusAfter (seen : Bool → Bool) : ArbPairStatus :=
  if seen true ∧ seen false then .COMPLETED
  else if seen true then .CEX_FILLED
  else if seen false then .DEX_FILLED
  else .DISPATCHED

section
variable {c c' : ArbCoordinator} {g : CStr 15} {p q : ArbPair} {b : Bool}

theorem ArbPair.SameLegs.matchLeg (h : p.SameLegs q) (x : Bytes) : q.matchLeg x = p.matchLeg x := by
  have hc : q.hasCexLeg = p.hasCexLeg := h.hasLeg true
  have hd : q.hasDexLeg = p.hasDexLeg := h.hasLeg false
  have hci : q.cexLeg.orderId = p.cexLeg.orderId := h.orderId true
  have hdi : q.dexLeg.orderId = p.dexLeg.orderId := h.orderId false
  unfold ArbPair.matchLeg
  rw [hc, hd, hci, hdi]

theorem onFill_first {x : Bytes} (hf : c.findLeg x = some (g, q, b)) (hs : q.status = .DISPATCHED)
    (price qty : ℚ) (now : Int) : c.onFill x price qty false now =
      c.setPair g { fillLeg q b price qty now with status := ArbPair.oneSided b } := by
  simp only [onFill, hf, Bool.false_eq_true, ite_false, status_fillLeg, hs, ite_true]

theorem onFill_second {x : Bytes} (hf : c.findLeg x = some (g, q, b)) (hs : q.status = ArbPair.oneSided (!b))
    (price qty : ℚ) (now : Int) : c.onFill x price qty false now =
      ((c.bookFill g (fillLeg q b price qty now).cexLeg).bookFill g (fillLeg q b price qty now).dexLeg).setPair g
        (fillLeg q b price qty now).finalized := by
  have hne : ArbPair.oneSided (!b) ≠ .DISPATCHED := by cases b <;> decide
  simp only [onFill, hf, Bool.false_eq_true, ite_false, status_fillLeg, hs, hne, ite_true, finalizePair,
    ArbPair.finalized]
  split <;> rfl

theorem onFill_late {x : Bytes} (hf : c.findLeg x = some (g, q, b)) (h₁ : q.status ≠ .DISPATCHED)
    (h₂ : q.status ≠ ArbPair.oneSided (!b)) (price qty : ℚ) (now : Int) :
    c.onFill x price qty false now = c.setPair g (fillLeg q b price qty now) := by
  simp only [onFill, hf, Bool.false_eq_true, ite_false, status_fillLeg, h₁, h₂]

theorem realizedSpreadBps_acknowledged (p : ArbPair) (b : Bool) (r : OrderResult) :
    (p.acknowledged b r).realizedSpreadBps = p.realizedSpreadBps := by
  cases b <;> rfl

/-- Where the pair is once the fills of `seen` have come to a dispatched pair
`p`. -/
structure Delivered (c₀ : ArbCoordinator) (g : CStr 15) (p : ArbPair) (fill : Bool → LegFill) (seen : Bool → Bool)
    (c : ArbCoordinator) (q : ArbPair) : Prop where
  find (b : Bool) : c.findLeg (fill b).exchangeOrderId = some (g, q, b)
  legs : p.SameLegs q
  status : q.status = statusAfter seen
  filled (b : Bool) : seen b = true →
    (q.leg b).avgFillPrice = (fill b).price ∧ (q.leg b).filledQuantity = (fill b).qty
  portfolio : c.portfolio = if seen true ∧ seen false then bookLegs c₀.portfolio p fill else c₀.portfolio
  spread : seen true = true → seen false = true → q.realizedSpreadBps = realizedSpread p fill

variable {c₀ : ArbCoordinator} {fill : Bool → LegFill} {seen : Bool → Bool}

theorem Delivered.sent (h : Delivered c₀ g p fill seen c q) {r : OrderResult} {now : Int}
    (hr : r.success = true) (hs : c.step (.worker (.sendResult g b) r now) = some c') :
    Delivered c₀ g p fill seen c' (q.acknowledged b r) := by
  obtain ⟨hlook, hmatch⟩ := mem_pairs_of_findLeg (h.find b)
  have hb := hasLeg_of_matchLeg hmatch
  have hc' : c' = (c.join (.sendResult g b)).setPair g (q.acknowledged b r) := by
    simp only [step] at hs
    split at hs
    · simp only [runWorker, sendResult, pairs_join, hlook, hb, hr, ite_true, Option.some.injEq] at hs
      exact hs.symm
    · cases hs
  subst hc'
  refine ⟨fun b' => ?_, ?_, ?_, fun b' hseen => ?_, h.portfolio, fun h₁ h₂ => ?_⟩
  · have hm := (mem_pairs_of_findLeg (h.find b')).2
    exact findLeg_setPair ((matchLeg_acknowledged ..).trans hm)
  · exact h.legs.trans (ArbPair.sameLegs_acknowledged q b r)
  · rw [status_acknowledged]; exact h.status
  · obtain ⟨hprice, hqty⟩ := Prod.ext_iff.mp (amounts_acknowledged q b b' r)
    exact ⟨hprice.trans (h.filled b' hseen).1, hqty.trans (h.filled b' hseen).2⟩
  · rw [realizedSpreadBps_acknowledged]; exact h.spread h₁ h₂

theorem eq_or_not (b b' : Bool) : b' = b ∨ b' = !b := by
  cases b <;> cases b' <;> simp

theorem statusAfter_none (h₁ : seen true = false) (h₂ : seen false = false) : statusAfter seen = .DISPATCHED := by
  simp [statusAfter, h₁, h₂]

theorem statusAfter_one (hb : seen b = true) (hn : seen (!b) = false) : statusAfter seen = ArbPair.oneSided b := by
  cases b
  · simp only [Bool.not_false] at hn
    simp [statusAfter, hb, hn, ArbPair.oneSided]
  · simp only [Bool.not_true] at hn
    simp [statusAfter, hb, hn, ArbPair.oneSided]

theorem statusAfter_both (h : ∀ b, seen b = true) : statusAfter seen = .COMPLETED := by
  simp [statusAfter, h]

theorem statusAfter_seen (hb : seen b = true) :
    statusAfter seen ≠ .DISPATCHED ∧ statusAfter seen ≠ ArbPair.oneSided (!b) := by
  cases hn : seen (!b) with
  | false => rw [statusAfter_one hb hn]; cases b <;> decide
  | true =>
    have hboth : ∀ b', seen b' = true := by
      intro b'
      rcases eq_or_not b b' with rfl | rfl
      · exact hb
      · exact hn
    rw [statusAfter_both hboth]
    cases b <;> decide

theorem realizedSpread_eq {q : ArbPair} (hl : p.SameLegs q) (hq : ∀ b, (q.leg b).avgFillPrice = (fill b).price) :
    calcRealizedSpread q = realizedSpread p fill := by
  have hs : q.cexLeg.signal = p.cexLeg.signal := hl.signal true
  have hc : q.cexLeg.avgFillPrice = (fill true).price := hq true
  have hd : q.dexLeg.avgFillPrice = (fill false).price := hq false
  unfold realizedSpread calcRealizedSpread
  rw [hs, hc, hd]

theorem Delivered.matchLeg (h : Delivered c₀ g p fill seen c q) {q' : ArbPair} (hq : q.SameLegs q') (b : Bool) :
    q'.matchLeg (fill b).exchangeOrderId = some b := by
  rw [hq.matchLeg]
  exact (mem_pairs_of_findLeg (h.find b)).2

theorem Delivered.amounts (h : Delivered c₀ g p fill seen c q) (b : Bool) (now : Int) (b' : Bool)
    (hseen : Function.update seen b true b' = true) :
    ((fillLeg q b (fill b).price (fill b).qty now).leg b').avgFillPrice = (fill b').price ∧
      ((fillLeg q b (fill b).price (fill b).qty now).leg b').filledQuantity = (fill b').qty := by
  by_cases hb : b' = b
  · rw [hb]; exact Prod.ext_iff.mp (amounts_fillLeg_self ..)
  · rw [Function.update_of_ne hb] at hseen
    rw [leg_fillLeg_ne q hb]
    exact h.filled b' hseen

theorem Delivered.again (h : Delivered c₀ g p fill seen c q) (hb : seen b = true) (now : Int) :
    ∃ q', Delivered c₀ g p fill (Function.update seen b true)
      (c.onFill (fill b).exchangeOrderId (fill b).price (fill b).qty false now) q' := by
  have hupd : Function.update seen b true = seen := by rw [← hb, Function.update_eq_self]
  have hsame : q.SameLegs (fillLeg q b (fill b).price (fill b).qty now) := ArbPair.sameLegs_fillLeg ..
  have hamounts := h.amounts b now
  obtain ⟨h₁, h₂⟩ := statusAfter_seen hb
  rw [onFill_late (h.find b) (h.status ▸ h₁) (h.status ▸ h₂)]
  rw [hupd] at hamounts ⊢
  refine ⟨_, fun b' => findLeg_setPair (h.matchLeg hsame b'), h.legs.trans hsame, ?_, hamounts, h.portfolio, ?_⟩
  · exact (status_fillLeg ..).trans h.status
  · intro hc hd
    rw [← h.spread hc hd]
    cases b <;> rfl

theorem Delivered.first (h : Delivered c₀ g p fill seen c q) (hb : seen b = false) (hn : seen (!b) = false)
    (now : Int) : ∃ q', Delivered c₀ g p fill (Function.update seen b true)
      (c.onFill (fill b).exchangeOrderId (fill b).price (fill b).qty false now) q' := by
  have hnone : ∀ b', seen b' = false := by
    intro b'
    rcases eq_or_not b b' with rfl | rfl
    · exact hb
    · exact hn
  have hun : Function.update seen b true (!b) = false := by
    rw [Function.update_of_ne (by cases b <;> decide)]
    exact hn
  have hone : ¬ (Function.update seen b true true = true ∧ Function.update seen b true false = true) := by
    intro hcd
    cases b
    · rw [Bool.not_false, hcd.1] at hun; cases hun
    · rw [Bool.not_true, hcd.2] at hun; cases hun
  have hstatus : q.status = .DISPATCHED := h.status.trans (statusAfter_none (hnone true) (hnone false))
  have hsame : q.SameLegs { fillLeg q b (fill b).price (fill b).qty now with status := ArbPair.oneSided b } :=
    (ArbPair.sameLegs_fillLeg ..).trans (ArbPair.sameLegs_of_eq rfl rfl rfl rfl rfl rfl)
  rw [onFill_first (h.find b) hstatus]
  refine ⟨_, fun b' => findLeg_setPair (h.matchLeg hsame b'), h.legs.trans hsame, ?_, ?_, ?_, ?_⟩
  · exact (statusAfter_one (Function.update_self ..) hun).symm
  · intro b' hseen
    have := h.amounts b now b' hseen
    cases b' <;> exact this
  · have hport := h.portfolio
    rw [if_neg (by rw [hnone true]; simp)] at hport
    rw [if_neg hone]
    exact hport
  · intro hc hd
    exact absurd (And.intro hc hd) hone

theorem Delivered.second (h : Delivered c₀ g p fill seen c q) (hb : seen b = false) (hn : seen (!b) = true)
    (now : Int) : ∃ q', Delivered c₀ g p fill (Function.update seen b true)
      (c.onFill (fill b).exchangeOrderId (fill b).price (fill b).qty false now) q' := by
  have hboth : ∀ b', Function.update seen b true b' = true := by
    intro b'
    rcases eq_or_not b b' with rfl | rfl
    · exact Function.update_self ..
    · rw [Function.update_of_ne (by cases b <;> decide)]
      exact hn
  have hnot : ¬ (seen true = true ∧ seen false = true) := by
    intro hcd
    cases b
    · rw [hcd.2] at hb; cases hb
    · rw [hcd.1] at hb; cases hb
  have hstatus : q.status = ArbPair.oneSided (!b) :=
    h.status.trans (statusAfter_one hn (by rw [Bool.not_not]; exact hb))
  -- the pair that `finalize_pair` books: both its fills are on it
  let q₁ := fillLeg q b (fill b).price (fill b).qty now
  have hsame₁ : p.SameLegs q₁ := h.legs.trans (ArbPair.sameLegs_fillLeg ..)
  have hsame : q.SameLegs q₁.finalized :=
    (ArbPair.sameLegs_fillLeg ..).trans (ArbPair.sameLegs_of_eq rfl rfl rfl rfl rfl rfl)
  have hamounts : ∀ b', (q₁.leg b').avgFillPrice = (fill b').price ∧ (q₁.leg b').filledQuantity = (fill b').qty :=
    fun b' => h.amounts b now b' (hboth b')
  rw [onFill_second (h.find b) hstatus]
  refine ⟨_, fun b' => findLeg_setPair (h.matchLeg hsame b'), h.legs.trans hsame, ?_, ?_, ?_, ?_⟩
  · exact (statusAfter_both hboth).symm
  · intro b' _
    have := hamounts b'
    cases b' <;> exact this
  · have hport := h.portfolio
    rw [if_neg hnot] at hport
    have hcs : q₁.cexLeg.signal = p.cexLeg.signal := hsame₁.signal true
    have hds : q₁.dexLeg.signal = p.dexLeg.signal := hsame₁.signal false
    rw [if_pos (And.intro (hboth true) (hboth false))]
    show (c.portfolio.onFill q₁.cexLeg.signal (q₁.leg true).avgFillPrice (q₁.leg true).filledQuantity).onFill
      q₁.dexLeg.signal (q₁.leg false).avgFillPrice (q₁.leg false).filledQuantity = _
    rw [hport, hcs, hds, (hamounts true).1, (hamounts true).2, (hamounts false).1, (hamounts false).2]
    rfl
  · intro _ _
    exact realizedSpread_eq hsame₁ fun b' => (hamounts b').1

theorem Delivered.message (h : Delivered c₀ g p fill seen c q) (b : Bool) (now : Int) :
    ∃ q', Delivered c₀ g p fill (Function.update seen b true)
      (c.onFill (fill b).exchangeOrderId (fill b).price (fill b).qty false now) q' := by
  cases hb : seen b with
  | true => exact h.again hb now
  | false =>
    cases hn : seen (!b) with
    | false => exact h.first hb hn now
    | true => exact h.second hb hn now

/-- The run lemma: every fill that a run delivers is seen after it. -/
theorem Delivered.run (h : Delivered c₀ g p fill seen c q) {es : List ArbEvent}
    (hes : ∀ e ∈ es, IsDelivery g fill e) (hr : run step c es = some c') :
    ∃ seen' q', Delivered c₀ g p fill seen' c' q' ∧
      ∀ b, (seen b = true ∨ ∃ now, (fill b).message now ∈ es) → seen' b = true := by
  induction es generalizing c q seen with
  | nil =>
    simp only [Machine.run, Option.some.injEq] at hr
    subst hr
    refine ⟨seen, q, h, fun b hb => hb.elim id ?_⟩
    rintro ⟨now, hm⟩
    exact absurd hm List.not_mem_nil
  | cons e es ih =>
    obtain ⟨c₁, hs, hr₁⟩ := run_cons hr
    have hrest : ∀ e ∈ es, IsDelivery g fill e := fun e' he' => hes e' (List.mem_cons_of_mem _ he')
    rcases hes e (List.mem_cons_self ..) with ⟨b₁, now, rfl⟩ | ⟨b₁, r, now, rfl, hsucc⟩
    · obtain ⟨q₁, h₁⟩ := h.message b₁ now
      obtain rfl := Option.some.inj hs
      obtain ⟨seen', q', h', hseen⟩ := ih h₁ hrest hr₁
      refine ⟨seen', q', h', fun b hb => hseen b ?_⟩
      by_cases hbb : b = b₁
      · subst hbb
        exact .inl (Function.update_self ..)
      · rw [Function.update_of_ne hbb]
        refine hb.imp id ?_
        rintro ⟨now', hm⟩
        rcases List.mem_cons.mp hm with he | hm
        · -- the two fills have different exchange ids
          have hx : (fill b).exchangeOrderId = (fill b₁).exchangeOrderId := (ArbEvent.onFill.inj he).1
          have hfind := h.find b
          rw [hx, h.find b₁, Option.some.injEq, Prod.mk.injEq, Prod.mk.injEq] at hfind
          exact absurd hfind.2.2.symm hbb
        · exact ⟨now', hm⟩
    · obtain ⟨seen', q', h', hseen⟩ := ih (h.sent hsucc hs) hrest hr₁
      refine ⟨seen', q', h', fun b hb => hseen b (hb.imp id ?_)⟩
      rintro ⟨now', hm⟩
      rcases List.mem_cons.mp hm with he | hm
      · cases he
      · exact ⟨now', hm⟩

end

/-- Both fills of a dispatched pair are delivered, in any order, any number of
times and anywhere between the send results: the outcome is the same. -/
theorem outcome_independent (config : ArbConfig) (pconfig : PortfolioConfig) (hasGateway : Exchange → Bool)
    (uuid : UuidGenerator) {before : List ArbEvent} {c : ArbCoordinator}
    (hc : run step ((init config (.init pconfig) hasGateway).setUuid uuid) before = some c) {g : CStr 15} {p : ArbPair}
    (hp : p.status = .DISPATCHED) {fill : Bool → LegFill}
    (hfind : ∀ b, c.findLeg (fill b).exchangeOrderId = some (g, p, b))
    (hpositions : PortfolioGuard.HasRoom c.portfolio.state.positions p.cexLeg.signal.symbol.bytes
      p.dexLeg.signal.symbol.bytes)
    (hused : PortfolioGuard.HasRoom c.portfolio.state.marginUsed (marginKey p.cexLeg.signal)
      (marginKey p.dexLeg.signal))
    {es : List ArbEvent} {c' : ArbCoordinator} (hes : ∀ e ∈ es, IsDelivery g fill e)
    (hboth : ∀ b, ∃ now, (fill b).message now ∈ es) (hr : run step c es = some c') :
    ∃ q, c'.pairs.lookup g = some q ∧ q.status = .COMPLETED ∧ q.realizedSpreadBps = realizedSpread p fill ∧
      c'.portfolio.account = (c.portfolio.account.book p.cexLeg.signal
        (c.portfolio.usedMargin p.cexLeg.signal (fill true).price (fill true).qty) (fill true).qty).book p.dexLeg.signal
        (c.portfolio.usedMargin p.dexLeg.signal (fill false).price (fill false).qty) (fill false).qty := by
  have hsteady : c.portfolio.Steady := inv_run (I := fun c => c.portfolio.Steady)
    (fun _ _ _ h hs => portfolio_step hs ▸ h.applyAll _) (PortfolioGuard.steady_init pconfig) hc
  have hstart : Delivered c g p fill (fun _ => false) c p :=
    ⟨hfind, .refl p, hp, fun _ h => absurd h Bool.false_ne_true, rfl, fun h => absurd h Bool.false_ne_true⟩
  obtain ⟨seen, q, hq, hseen⟩ := hstart.run hes hr
  have hall : ∀ b, seen b = true := fun b => hseen b (.inr (hboth b))
  refine ⟨q, (mem_pairs_of_findLeg (hq.find true)).1, hq.status.trans (statusAfter_both hall),
    hq.spread (hall true) (hall false), ?_⟩
  rw [hq.portfolio, if_pos ⟨hall true, hall false⟩]
  exact PortfolioGuard.account_onFill_onFill hsteady _ _ _ _ _ _ hpositions hused

namespace Sample

def fills : Bool → LegFill
  | true => ⟨exIdOf cexOrder.orderId, 100, 1⟩
  | false => ⟨hlIdOf dexOrder.orderId, 100, 1⟩

def deliveries : List ArbEvent :=
  [dexFill 3, .worker (.sendResult groupId false) dexAck 3, cexFill 4, dexFill 5, cexFill 6,
   .worker (.sendResult groupId true) cexAck 7]

theorem outcome_independent_dex_first : ∃ c' q, run step dispatched deliveries = some c' ∧
    c'.pairs.lookup groupId = some q ∧ q.status = .COMPLETED ∧
    q.realizedSpreadBps = realizedSpread dispatchedPair fills ∧
    c'.portfolio.account = (dispatched.portfolio.account.book cexSignal 10 1).book dexSignal 10 1 := by
  have hfind : ∀ b, dispatched.findLeg (fills b).exchangeOrderId = some (groupId, dispatchedPair, b) := by
    decide +kernel
  have hes : ∀ e ∈ deliveries, IsDelivery groupId fills e := by
    simp only [deliveries, List.forall_mem_cons]
    refine ⟨.inl ⟨false, 3, rfl⟩, .inr ⟨false, dexAck, 3, rfl, rfl⟩, .inl ⟨true, 4, rfl⟩, .inl ⟨false, 5, rfl⟩,
      .inl ⟨true, 6, rfl⟩, .inr ⟨true, cexAck, 7, rfl, rfl⟩, fun _ h => absurd h List.not_mem_nil⟩
  have hboth : ∀ b, ∃ now, (fills b).message now ∈ deliveries := by
    intro b
    cases b with
    | false => exact ⟨3, by simp [deliveries, fills, LegFill.message, dexFill]⟩
    | true => exact ⟨4, by simp [deliveries, fills, LegFill.message, cexFill]⟩
  obtain ⟨c', hr⟩ := Option.isSome_iff_exists.mp (show (run step dispatched deliveries).isSome by decide +kernel)
  obtain ⟨q, hq⟩ := outcome_independent {} {} (fun _ => true) {} dispatched_run (p := dispatchedPair) (by decide +kernel)
    hfind (by decide +kernel) (by decide +kernel) hes hboth hr
  have hc : dispatchedPair.cexLeg.signal = cexSignal := by decide +kernel
  have hd : dispatchedPair.dexLeg.signal = dexSignal := by decide +kernel
  rw [hc, hd] at hq
  refine ⟨c', q, hr, hq.1, hq.2.1, hq.2.2.1, hq.2.2.2.trans ?_⟩
  have hmc : dispatched.portfolio.usedMargin cexSignal (fills true).price (fills true).qty = 10 := by
    decide +kernel
  have hmd : dispatched.portfolio.usedMargin dexSignal (fills false).price (fills false).qty = 10 := by
    decide +kernel
  rw [hmc, hmd]
  rfl

end Sample

end OrderExecution
