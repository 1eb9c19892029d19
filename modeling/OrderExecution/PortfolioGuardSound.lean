import OrderExecution.FlatHashMapSound
import OrderExecution.PortfolioGuard

/-!
# What the guard's calls do to its tables

Each call touches the reservation of its own signals only; a release and a fill
leave none under the key. The position of a symbol moves by the fills of that
symbol, as long as the position table has room.
-/

namespace OrderExecution

namespace PortfolioGuard

open FlatHashMap

structure Wf (g : PortfolioGuard) : Prop where
  positions : g.state.positions.Wf hashKey
  used : g.state.marginUsed.Wf hashKey
  reserved : g.state.marginReserved.Wf hashKey

theorem wf_init (config : PortfolioConfig) : (init config).Wf :=
  ⟨wf_empty hashKey (by omega), wf_empty hashKey (by omega), wf_empty hashKey (by omega)⟩

def reservedUnder (g : PortfolioGuard) (key : Bytes) : Option ℚ := g.state.marginReserved.find hashKey key

/-- The position of a symbol, zero if it has none. -/
def position (g : PortfolioGuard) (symbol : CStr 15) : ℚ :=
  (g.state.positions.find hashKey symbol.bytes).getD 0

theorem reservedUnder_init (config : PortfolioConfig) (k : Bytes) : (init config).reservedUnder k = none := by
  refine (find_eq_none (wf_init config).reserved).mpr fun v hv => ?_
  have : (k, v) ∈ (FlatHashMap.empty : Table).entries := hv
  rw [entries_empty] at this
  cases this

section
variable {g : PortfolioGuard}

/-! ## Each call keeps the tables -/

theorem Wf.reserve (h : g.Wf) (s : Signal) (amount : ℚ) : (g.reserve s amount).Wf where
  positions := h.positions
  used := h.used
  reserved := (update_spec h.reserved (marginKey_fits s) _ _).1

theorem Wf.checkAndReserve (h : g.Wf) (s : Signal) : (g.checkAndReserve s).1.Wf := by
  unfold PortfolioGuard.checkAndReserve
  simp only
  split
  · exact h
  · exact h.reserve s _

theorem Wf.checkAndReservePair (h : g.Wf) (cex dex : Signal) : (g.checkAndReservePair cex dex).1.Wf := by
  unfold PortfolioGuard.checkAndReservePair
  simp only
  split
  · exact h
  · exact (h.reserve cex _).reserve dex _

theorem Wf.releaseMargin (h : g.Wf) (s : Signal) : (g.releaseMargin s).Wf := by
  unfold PortfolioGuard.releaseMargin
  split
  · exact ⟨h.positions, h.used, (erase_spec h.reserved _).1⟩
  · exact h

theorem Wf.onFill (h : g.Wf) (s : Signal) (price qty : ℚ) : (g.onFill s price qty).Wf where
  positions := (update_spec h.positions (symbol_fits s) _ _).1
  used := (update_spec h.used (marginKey_fits s) _ _).1
  reserved := (erase_spec h.reserved _).1

theorem Wf.apply (h : g.Wf) (op : GuardOp) : (g.apply op).Wf := by
  cases op with
  | checkAndReserve s => exact h.checkAndReserve s
  | checkAndReservePair cex dex => exact h.checkAndReservePair cex dex
  | onFill s price qty => exact h.onFill s price qty
  | releaseMargin s => exact h.releaseMargin s

/-! ## The two outcomes of a check -/

theorem checkAndReserve_approved {s : Signal} (h : (g.checkAndReserve s).2.approved = true) :
    (g.checkAndReserve s).1 = g.reserve s (g.calcRequiredMargin s) := by
  unfold checkAndReserve at h ⊢
  simp only at h ⊢
  split at h
  · cases h
  · next hav => rw [if_neg hav]

theorem checkAndReservePair_approved {s t : Signal} (h : (g.checkAndReservePair s t).2.approved = true) :
    (g.checkAndReservePair s t).1 =
      (g.reserve s (g.calcRequiredMargin s)).reserve t (g.calcRequiredMargin t) := by
  unfold checkAndReservePair at h ⊢
  simp only at h ⊢
  split at h
  · cases h
  · next hav => rw [if_neg hav]

theorem approved_iff {s : Signal} :
    (g.checkAndReserve s).2.approved = true ↔ g.calcRequiredMargin s ≤ g.state.availableMargin := by
  unfold checkAndReserve
  simp only
  split
  · next hav => exact iff_of_false Bool.false_ne_true (not_le.mpr hav)
  · next hav => exact iff_of_true rfl (not_lt.mp hav)

theorem checkAndReserve_refused {s : Signal} (h : (g.checkAndReserve s).2.approved = false) :
    (g.checkAndReserve s).1 = g := by
  unfold checkAndReserve at h ⊢
  simp only at h ⊢
  split at h
  · next hav => rw [if_pos hav]
  · cases h

/-! ## Reservations -/

theorem reservedUnder_reserve_ne (h : g.Wf) {s : Signal} {a : ℚ} {k : Bytes} (hk : k ≠ marginKey s) :
    (g.reserve s a).reservedUnder k = g.reservedUnder k :=
  find_update_ne h.reserved (marginKey_fits s) _ _ hk

theorem reservedUnder_checkAndReserve_ne (h : g.Wf) {s : Signal} {k : Bytes} (hk : k ≠ marginKey s) :
    (g.checkAndReserve s).1.reservedUnder k = g.reservedUnder k := by
  unfold checkAndReserve
  simp only
  split
  · rfl
  · exact reservedUnder_reserve_ne h hk

theorem reservedUnder_checkAndReservePair_ne (h : g.Wf) {cex dex : Signal} {k : Bytes}
    (hc : k ≠ marginKey cex) (hd : k ≠ marginKey dex) :
    (g.checkAndReservePair cex dex).1.reservedUnder k = g.reservedUnder k := by
  unfold checkAndReservePair
  simp only
  split
  · rfl
  · rw [reservedUnder_reserve_ne (h.reserve cex _) hd, reservedUnder_reserve_ne h hc]

theorem reservedUnder_releaseMargin_self (h : g.Wf) (s : Signal) :
    (g.releaseMargin s).reservedUnder (marginKey s) = none := by
  unfold releaseMargin
  split
  · exact find_erase_self h.reserved _
  · assumption

theorem reservedUnder_releaseMargin_ne (h : g.Wf) {s : Signal} {k : Bytes} (hk : k ≠ marginKey s) :
    (g.releaseMargin s).reservedUnder k = g.reservedUnder k := by
  unfold releaseMargin
  split
  · exact find_erase_ne h.reserved hk
  · rfl

theorem reservedUnder_releaseMargin_none (h : g.Wf) (s : Signal) {k : Bytes}
    (hk : g.reservedUnder k = none) : (g.releaseMargin s).reservedUnder k = none := by
  by_cases he : k = marginKey s
  · rw [he]; exact reservedUnder_releaseMargin_self h s
  · rw [reservedUnder_releaseMargin_ne h he]; exact hk

theorem reservedUnder_onFill_self (h : g.Wf) (s : Signal) (price qty : ℚ) :
    (g.onFill s price qty).reservedUnder (marginKey s) = none :=
  find_erase_self h.reserved _

theorem reservedUnder_onFill_ne (h : g.Wf) {s : Signal} {price qty : ℚ} {k : Bytes}
    (hk : k ≠ marginKey s) : (g.onFill s price qty).reservedUnder k = g.reservedUnder k :=
  find_erase_ne h.reserved hk

theorem reservedUnder_onFill_none (h : g.Wf) (s : Signal) (price qty : ℚ) {k : Bytes}
    (hk : g.reservedUnder k = none) : (g.onFill s price qty).reservedUnder k = none := by
  by_cases he : k = marginKey s
  · rw [he]; exact reservedUnder_onFill_self h s price qty
  · rw [reservedUnder_onFill_ne h he]; exact hk

theorem reservedUnder_apply_ne (h : g.Wf) {op : GuardOp} {k : Bytes}
    (hk : ∀ s ∈ op.signals, k ≠ marginKey s) : (g.apply op).reservedUnder k = g.reservedUnder k := by
  cases op with
  | checkAndReserve s => exact reservedUnder_checkAndReserve_ne h (hk s (by simp [GuardOp.signals]))
  | checkAndReservePair cex dex =>
    exact reservedUnder_checkAndReservePair_ne h (hk cex (by simp [GuardOp.signals]))
      (hk dex (by simp [GuardOp.signals]))
  | onFill s price qty => exact reservedUnder_onFill_ne h (hk s (by simp [GuardOp.signals]))
  | releaseMargin s => exact reservedUnder_releaseMargin_ne h (hk s (by simp [GuardOp.signals]))

/-! ## Buying power -/

theorem availableMargin_reserve (h : g.Wf) {s : Signal} (hnone : g.reservedUnder (marginKey s) = none)
    (hroom : g.state.marginReserved.size < 128) (amount : ℚ) :
    (g.reserve s amount).state.availableMargin =
      g.state.availableMargin - (g.state.marginReserved.leftover hashKey (marginKey s) + amount) := by
  have htotal := total_cons (entries_update_absent h.reserved (marginKey_fits s) g.dummy (· + amount) hnone hroom)
  show g.state.cash - (g.reserve s amount).state.marginReserved.total - g.state.marginUsed.total = _
  rw [PortfolioState.availableMargin, show (g.reserve s amount).state.marginReserved.total = _ from htotal]
  ring

/-- A fill gives back what is reserved under the key, and takes what it uses. -/
theorem availableMargin_onFill (h : g.Wf) {s : Signal} (hnone : g.state.marginUsed.find hashKey (marginKey s) = none)
    (hroom : g.state.marginUsed.size < 128) (price qty : ℚ) :
    (g.onFill s price qty).state.availableMargin =
      g.state.availableMargin + (g.reservedUnder (marginKey s)).getD 0 - g.usedMargin s price qty := by
  have hreserved := total_erase h.reserved (marginKey s)
  have hused := total_cons (entries_update_absent h.used (marginKey_fits s) g.dummy
    (fun _ => g.usedMargin s price qty) hnone hroom)
  show g.state.cash - (g.onFill s price qty).state.marginReserved.total -
    (g.onFill s price qty).state.marginUsed.total = _
  rw [PortfolioState.availableMargin, reservedUnder,
    show (g.onFill s price qty).state.marginReserved.total = _ from hreserved,
    show (g.onFill s price qty).state.marginUsed.total = _ from hused]
  ring

/-! ## Positions -/

theorem state_positions_checkAndReserve (s : Signal) :
    (g.checkAndReserve s).1.state.positions = g.state.positions := by
  unfold checkAndReserve
  simp only
  split <;> rfl

theorem state_positions_checkAndReservePair (cex dex : Signal) :
    (g.checkAndReservePair cex dex).1.state.positions = g.state.positions := by
  unfold checkAndReservePair
  simp only
  split <;> rfl

theorem state_positions_releaseMargin (s : Signal) :
    (g.releaseMargin s).state.positions = g.state.positions := by
  unfold releaseMargin
  split <;> rfl

/-- Every position is held for one of `symbols`, no more of them than the table
has slots, and no free slot of the table has a stale value. -/
structure Booked (symbols : Finset (CStr 15)) (g : PortfolioGuard) : Prop where
  wf : g.Wf
  fresh : Fresh g.state.positions
  known : ∀ e ∈ g.state.positions.entries, ∃ y ∈ symbols, e.1 = y.bytes
  card : symbols.card ≤ 128

variable {symbols : Finset (CStr 15)}

theorem booked_init (config : PortfolioConfig) (h : symbols.card ≤ 128) :
    Booked symbols (init config) where
  wf := wf_init config
  fresh := fresh_empty
  known := by
    intro e he
    have : e ∈ (FlatHashMap.empty : Table).entries := he
    rw [entries_empty] at this
    cases this
  card := h

theorem Booked.of_positions_eq {g' : PortfolioGuard} (h : g.Booked symbols) (hw : g'.Wf)
    (he : g'.state.positions = g.state.positions) : g'.Booked symbols :=
  ⟨hw, he ▸ h.fresh, he ▸ h.known, h.card⟩

theorem Booked.room (h : g.Booked symbols) {y : CStr 15} (hy : y ∈ symbols) :
    g.state.positions.find hashKey y.bytes ≠ none ∨ g.state.positions.size < 128 := by
  by_cases hf : g.state.positions.find hashKey y.bytes = none
  · refine .inr (lt_of_lt_of_le ?_ h.card)
    have habs := (find_eq_none h.wf.positions).mp hf
    rw [h.wf.positions.size_eq, ← List.length_map (f := Prod.fst),
      ← List.toFinset_card_of_nodup (entries_keys_nodup h.wf.positions)]
    refine (Finset.card_lt_card (t := symbols.image CStr.bytes) ?_).trans_le Finset.card_image_le
    rw [Finset.ssubset_iff_of_subset]
    · refine ⟨y.bytes, Finset.mem_image_of_mem _ hy, ?_⟩
      rw [List.mem_toFinset, List.mem_map]
      rintro ⟨⟨k, v⟩, hm, rfl⟩
      exact habs v hm
    · intro k hk
      rw [List.mem_toFinset, List.mem_map] at hk
      obtain ⟨e, he, rfl⟩ := hk
      obtain ⟨y', hy', h'⟩ := h.known e he
      exact h' ▸ Finset.mem_image_of_mem _ hy'
  · exact .inl hf

theorem Booked.onFill (h : g.Booked symbols) {s : Signal} (hs : s.symbol ∈ symbols) (price qty : ℚ) :
    (g.onFill s price qty).Booked symbols where
  wf := h.wf.onFill s price qty
  fresh := h.fresh.update h.wf.positions _ _ _
  known := by
    intro e he
    have hu := (update_spec h.wf.positions (symbol_fits s)
      (g.state.marginUsed.update hashKey g.dummy (marginKey s) fun _ => g.usedMargin s price qty).2
      (· + qty * s.side.sign)).2
    have old : ∀ e ∈ g.state.positions.entries, ∃ y ∈ symbols, e.1 = y.bytes := h.known
    cases hu with
    | changed v rest h₁ h₂ =>
      rcases List.mem_cons.mp (h₂.mem_iff.mp he) with rfl | hr
      · exact ⟨s.symbol, hs, rfl⟩
      · exact old e (h₁.mem_iff.mpr (List.mem_cons_of_mem _ hr))
    | added p _ _ _ _ h₂ =>
      rcases List.mem_cons.mp (h₂.mem_iff.mp he) with rfl | hr
      · exact ⟨s.symbol, hs, rfl⟩
      · exact old e hr
    | lost _ _ h₂ => exact old e (h₂ ▸ he)
  card := h.card

theorem Booked.find_onFill (h : g.Booked symbols) {s : Signal} (hs : s.symbol ∈ symbols)
    (price qty : ℚ) (y : CStr 15) : (g.onFill s price qty).state.positions.find hashKey y.bytes =
      if s.symbol = y then some (g.position y + qty * s.side.sign)
      else g.state.positions.find hashKey y.bytes := by
  by_cases hy : s.symbol = y
  · subst hy
    rw [if_pos rfl]
    exact find_update_fresh h.wf.positions h.fresh (symbol_fits s) _ _ (h.room hs)
  · have hne : y.bytes ≠ s.symbol.bytes := fun e => hy (CStr.ext e.symm)
    rw [if_neg hy]
    exact find_update_ne h.wf.positions (symbol_fits s) _ _ hne

theorem Booked.position_onFill (h : g.Booked symbols) {s : Signal} (hs : s.symbol ∈ symbols)
    (price qty : ℚ) (y : CStr 15) : (g.onFill s price qty).position y =
      g.position y + if s.symbol = y then qty * s.side.sign else 0 := by
  rw [position, h.find_onFill hs]
  split
  · rfl
  · rw [add_zero, position]

end

end PortfolioGuard

end OrderExecution
