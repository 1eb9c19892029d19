import OrderExecution.PortfolioGuardSound

/-!
# Positions are sums of fills

What the position table holds after any calls on a fresh guard is known from
the fills among them alone, and not from their order.
-/

namespace OrderExecution

open FlatHashMap PortfolioGuard

/-- The symbol a call fills, and what it adds to the position. -/
def GuardOp.booking : GuardOp → Option (CStr 15 × ℚ)
  | .onFill s _ fillQty => some (s.symbol, fillQty * s.side.sign)
  | _ => none

def bookings (ops : List GuardOp) : List (CStr 15 × ℚ) := ops.filterMap GuardOp.booking

/-- The amounts booked for a symbol. -/
def amountsFor (symbol : CStr 15) (bs : List (CStr 15 × ℚ)) : List ℚ :=
  (bs.filter (·.1 = symbol)).map Prod.snd

/-- The ledger that a list of bookings makes: no entry for a symbol without
one, and the sum for every other. -/
def ledger (bs : List (CStr 15 × ℚ)) (symbol : CStr 15) : Option ℚ :=
  if amountsFor symbol bs = [] then none else some (amountsFor symbol bs).sum

section
variable {bs bs' : List (CStr 15 × ℚ)} {symbol : CStr 15}

theorem amountsFor_append : amountsFor symbol (bs ++ bs') = amountsFor symbol bs ++ amountsFor symbol bs' := by
  simp [amountsFor]

theorem ledger_perm (h : bs.Perm bs') : ledger bs symbol = ledger bs' symbol := by
  have ha : (amountsFor symbol bs).Perm (amountsFor symbol bs') := (h.filter _).map _
  have hnil : amountsFor symbol bs = [] ↔ amountsFor symbol bs' = [] := by
    constructor
    · intro he; rw [he] at ha; exact ha.nil_eq.symm
    · intro he; rw [he] at ha; exact ha.eq_nil
  simp only [ledger, hnil, ha.sum_eq]

theorem getD_ledger : (ledger bs symbol).getD 0 = (amountsFor symbol bs).sum := by
  unfold ledger
  split
  · next h => rw [h]; rfl
  · rfl

theorem ledger_snoc (y : CStr 15) (q : ℚ) : ledger (bs ++ [(y, q)]) symbol =
    if y = symbol then some ((ledger bs symbol).getD 0 + q) else ledger bs symbol := by
  by_cases h : y = symbol
  · have ha : amountsFor symbol [(y, q)] = [q] := by simp [amountsFor, h]
    rw [if_pos h, getD_ledger, ledger, amountsFor_append, ha, if_neg (by simp)]
    simp
  · have ha : amountsFor symbol [(y, q)] = [] := by simp [amountsFor, h]
    rw [if_neg h, ledger, amountsFor_append, ha, List.append_nil, ledger]

theorem ledger_isSome : (ledger bs symbol).isSome = true ↔ ∃ q, (symbol, q) ∈ bs := by
  have key : amountsFor symbol bs ≠ [] ↔ ∃ q, (symbol, q) ∈ bs := by
    rw [Ne, List.eq_nil_iff_forall_not_mem]
    simp [amountsFor]
  rw [← key, ledger]
  split <;> simp_all

end

theorem mem_bookings {ops : List GuardOp} {symbol : CStr 15} :
    (∃ q, (symbol, q) ∈ bookings ops) ↔ ∃ s price qty, GuardOp.onFill s price qty ∈ ops ∧ s.symbol = symbol := by
  constructor
  · intro ⟨q, hq⟩
    obtain ⟨op, hop, hb⟩ := List.mem_filterMap.mp hq
    cases op with
    | onFill s price qty =>
      rw [GuardOp.booking, Option.some.injEq, Prod.mk.injEq] at hb
      exact ⟨s, price, qty, hop, hb.1⟩
    | _ => cases hb
  · intro ⟨s, price, qty, hop, hs⟩
    exact ⟨_, List.mem_filterMap.mpr ⟨_, hop, by rw [GuardOp.booking, hs]⟩⟩

namespace PortfolioGuard

/-- The position table is the ledger of `bs`. -/
structure Holds (symbols : Finset (CStr 15)) (bs : List (CStr 15 × ℚ)) (g : PortfolioGuard) : Prop where
  booked : g.Booked symbols
  find : ∀ symbol : CStr 15, g.state.positions.find hashKey symbol.bytes = ledger bs symbol

variable {symbols : Finset (CStr 15)} {bs : List (CStr 15 × ℚ)} {g : PortfolioGuard}

theorem Holds.of_positions_eq (h : Holds symbols bs g) {g' : PortfolioGuard} (hw : g'.Wf)
    (he : g'.state.positions = g.state.positions) : Holds symbols bs g' :=
  ⟨h.booked.of_positions_eq hw he, he ▸ h.find⟩

theorem Holds.apply (h : Holds symbols bs g) {op : GuardOp} (hop : ∀ b ∈ op.booking, b.1 ∈ symbols) :
    Holds symbols (bs ++ op.booking.toList) (g.apply op) := by
  have hw := h.booked.wf.apply op
  cases op with
  | onFill s price qty =>
    have hs : s.symbol ∈ symbols := hop _ rfl
    refine ⟨h.booked.onFill hs price qty, fun symbol => ?_⟩
    simp only [GuardOp.booking, Option.toList_some]
    rw [ledger_snoc, ← h.find]
    exact h.booked.find_onFill hs price qty symbol
  | checkAndReserve s =>
    simp only [GuardOp.booking, Option.toList_none, List.append_nil]
    exact h.of_positions_eq hw (state_positions_checkAndReserve s)
  | checkAndReservePair cex dex =>
    simp only [GuardOp.booking, Option.toList_none, List.append_nil]
    exact h.of_positions_eq hw (state_positions_checkAndReservePair cex dex)
  | releaseMargin s =>
    simp only [GuardOp.booking, Option.toList_none, List.append_nil]
    exact h.of_positions_eq hw (state_positions_releaseMargin s)

theorem Holds.applyAll (h : Holds symbols bs g) (ops : List GuardOp) (hops : ∀ b ∈ bookings ops, b.1 ∈ symbols) :
    Holds symbols (bs ++ bookings ops) (ops.foldl PortfolioGuard.apply g) := by
  induction ops generalizing bs g with
  | nil => simpa [bookings] using h
  | cons op ops ih =>
    have hcons : bookings (op :: ops) = op.booking.toList ++ bookings ops := by
      simp only [bookings, List.filterMap_cons]
      cases op.booking <;> rfl
    rw [hcons] at hops ⊢
    rw [← List.append_assoc]
    refine ih (h.apply fun b hb => ?_) fun b hb => hops b (List.mem_append_right _ hb)
    exact hops b (List.mem_append_left _ (Option.mem_toList.mpr hb))

theorem holds_init (config : PortfolioConfig) (dummy : ℚ) (h : symbols.card ≤ 128) :
    Holds symbols [] { init config with dummy := dummy } := by
  have hb := booked_init config h
  refine ⟨⟨⟨hb.wf.1, hb.wf.2, hb.wf.3⟩, hb.fresh, hb.known, hb.card⟩, fun symbol => ?_⟩
  exact reservedUnder_init config symbol.bytes

end PortfolioGuard

def guardAfter (config : PortfolioConfig) (dummy : ℚ) (ops : List GuardOp) : PortfolioGuard :=
  ops.foldl PortfolioGuard.apply { PortfolioGuard.init config with dummy := dummy }

def filledSymbols (ops : List GuardOp) : Finset (CStr 15) := ((bookings ops).map Prod.fst).toFinset

theorem find_guardAfter (config : PortfolioConfig) (dummy : ℚ) {ops : List GuardOp}
    (hroom : (filledSymbols ops).card ≤ 128) (symbol : CStr 15) :
    (guardAfter config dummy ops).state.positions.find hashKey symbol.bytes = ledger (bookings ops) symbol := by
  have h := (holds_init config dummy hroom).applyAll ops fun b hb =>
    List.mem_toFinset.mpr (List.mem_map_of_mem hb)
  exact h.find symbol

/-- While the position table has room for every symbol filled, a symbol has an
entry if and only if a fill named it, the entry is the sum of those fills, and
calls with the same fills in another order make the same positions. -/
theorem positions_are_sums (config : PortfolioConfig) (dummy : ℚ) (ops : List GuardOp)
    (hroom : (filledSymbols ops).card ≤ 128) :
    (∀ symbol : CStr 15,
      (((guardAfter config dummy ops).state.positions.find hashKey symbol.bytes).isSome = true ↔
        ∃ s price qty, GuardOp.onFill s price qty ∈ ops ∧ s.symbol = symbol) ∧
      ∀ v, (guardAfter config dummy ops).state.positions.find hashKey symbol.bytes = some v →
        v = (amountsFor symbol (bookings ops)).sum) ∧
    ∀ ops' : List GuardOp, (bookings ops').Perm (bookings ops) → ∀ symbol : CStr 15,
      (guardAfter config dummy ops').state.positions.find hashKey symbol.bytes =
        (guardAfter config dummy ops).state.positions.find hashKey symbol.bytes := by
  constructor
  · intro symbol
    rw [find_guardAfter config dummy hroom]
    constructor
    · exact ledger_isSome.trans mem_bookings
    · intro v hv
      rw [← getD_ledger, hv, Option.getD_some]
  · intro ops' hp symbol
    have hroom' : (filledSymbols ops').card ≤ 128 := by
      have he : filledSymbols ops' = filledSymbols ops := List.toFinset_eq_of_perm _ _ (hp.map Prod.fst)
      rw [he]
      exact hroom
    rw [find_guardAfter config dummy hroom', find_guardAfter config dummy hroom, ledger_perm hp]

namespace Sample

def ethFill (side : Side) (qty : ℚ) : GuardOp :=
  .onFill { signalId := .copy 15 (lit "S"), symbol := .copy 15 (lit "ETH"), side := side } 3000 qty

end Sample

theorem positions_are_sums_bought_sold :
    (filledSymbols [Sample.ethFill .BUY 2, Sample.ethFill .SELL (1 / 2)]).card ≤ 128 ∧
      (guardAfter {} 0 [Sample.ethFill .SELL (1 / 2), Sample.ethFill .BUY 2]).state.positions.find hashKey
          (CStr.copy 15 (lit "ETH")).bytes =
        (guardAfter {} 0 [Sample.ethFill .BUY 2, Sample.ethFill .SELL (1 / 2)]).state.positions.find hashKey
          (CStr.copy 15 (lit "ETH")).bytes :=
  ⟨by decide +kernel, (positions_are_sums {} 0 _ (by decide +kernel)).2 _ (by decide +kernel) _⟩

end OrderExecution
