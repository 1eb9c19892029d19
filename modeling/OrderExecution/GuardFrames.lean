import OrderExecution.FreshKeys

/-!
# What a call of the guard leaves alone

A release takes back what a reservation did, whatever entries the two had to
move. Calls for two signals stay apart as long as their keys do, and the keys
`symbol:signal_id` of two signals can be one, since a field may have a colon.
-/

namespace OrderExecution

namespace PortfolioGuard

open FlatHashMap

def usedUnder (g : PortfolioGuard) (key : Bytes) : Option ℚ := g.state.marginUsed.find hashKey key

variable {g : PortfolioGuard}

theorem Wf.call (h : g.Wf) (c : Call) : (g.call c).Wf := by
  cases c with
  | op op => exact h.apply op
  | reset =>
    refine ⟨?_, ?_, ?_⟩
    · exact wf_clear (by omega) g.state.positions
    · exact wf_clear (by omega) g.state.marginUsed
    · exact wf_clear (by omega) g.state.marginReserved

theorem always_wf (config : PortfolioConfig) (dummy : ℚ) (calls : List Call) :
    Machine.Always (fun g c => some (PortfolioGuard.call g c)) Wf { init config with dummy := dummy } calls := by
  have hw := wf_init config
  exact Machine.inv_always (C := fun _ _ => True)
    (fun g c g' h _ hs => Option.some.inj hs ▸ h.call c)
    (Machine.along_of_mem (fun _ _ _ => trivial) _) ⟨hw.1, hw.2, hw.3⟩

/-! ## Releases -/

/-- `g'` has the buying power, the reservations, the used margins and the
positions of `g`. -/
structure Restores (g g' : PortfolioGuard) : Prop where
  available : g'.state.availableMargin = g.state.availableMargin
  reserved : ∀ key, g'.reservedUnder key = g.reservedUnder key
  used : g'.state.marginUsed = g.state.marginUsed
  positions : g'.state.positions = g.state.positions

theorem restores_of_perm (h : g.Wf) {g' : PortfolioGuard} (h' : g'.Wf) (hcash : g'.state.cash = g.state.cash)
    (hused : g'.state.marginUsed = g.state.marginUsed) (hpos : g'.state.positions = g.state.positions)
    (hp : g'.state.marginReserved.entries.Perm g.state.marginReserved.entries) : Restores g g' where
  available := by
    have htotal : g'.state.marginReserved.total = g.state.marginReserved.total := by
      rw [total_of_perm hp, total_eq_sum]
    rw [PortfolioState.availableMargin, PortfolioState.availableMargin, hcash, hused, htotal]
  reserved := find_eq_of_perm h.reserved h'.reserved hp
  used := hused
  positions := hpos

/-- A release erases the key, which does nothing without an entry. -/
theorem releaseMargin_eq (h : g.Wf) (s : Signal) : g.releaseMargin s = { g with
    state := { g.state with marginReserved := (g.state.marginReserved.erase hashKey (marginKey s)).1 } } := by
  unfold releaseMargin
  split
  · rfl
  · next hnone =>
    have he := (erase_spec h.reserved (marginKey s)).2
    generalize g.state.marginReserved.erase hashKey (marginKey s) = r at he
    cases he with
    | absent _ => rfl
    | erased m' v hp => rw [find_some_of_perm h.reserved hp] at hnone; cases hnone

theorem entries_releaseMargin (h : g.Wf) (s : Signal) :
    (g.releaseMargin s).state.marginReserved.entries.Perm (g.state.marginReserved.others (marginKey s)) := by
  rw [releaseMargin_eq h]
  exact entries_erase h.reserved (marginKey s)

theorem others_reserve (h : g.Wf) (s : Signal) (amount : ℚ) :
    ((g.reserve s amount).state.marginReserved.others (marginKey s)).Perm
      (g.state.marginReserved.others (marginKey s)) :=
  others_update h.reserved (marginKey_fits s) g.dummy (· + amount)

theorem releaseMargin_reserve (h : g.Wf) {s : Signal} (hs : g.reservedUnder (marginKey s) = none) (amount : ℚ) :
    Restores g ((g.reserve s amount).releaseMargin s) := by
  have hw := h.reserve s amount
  have hp : ((g.reserve s amount).releaseMargin s).state.marginReserved.entries.Perm
      (g.state.marginReserved.others (marginKey s)) :=
    (entries_releaseMargin hw s).trans (others_reserve h s amount)
  rw [others_of_absent h.reserved hs] at hp
  apply restores_of_perm h (hw.releaseMargin s) _ _ _ hp <;> rw [releaseMargin_eq hw] <;> rfl

section
variable {s t : Signal} {a b : ℚ}

theorem others_reserve_pair (h : g.Wf) (hs : g.reservedUnder (marginKey s) = none)
    (ht : g.reservedUnder (marginKey t) = none) :
    ((((g.reserve s a).reserve t b).state.marginReserved.others (marginKey s)).filter
      (·.1 ≠ marginKey t)).Perm g.state.marginReserved.entries := by
  have hw := h.reserve s a
  have h₁ := (others_reserve hw t b).filter (·.1 ≠ marginKey s)
  have h₂ := (others_reserve h s a).filter (·.1 ≠ marginKey t)
  rw [others_comm] at h₁
  refine h₁.trans ?_
  rw [others_comm]
  refine h₂.trans ?_
  rw [others_of_absent h.reserved hs]
  show (g.state.marginReserved.others (marginKey t)).Perm _
  rw [others_of_absent h.reserved ht]

theorem entries_releaseMargin_twice (h : g.Wf) (s t : Signal) :
    ((g.releaseMargin s).releaseMargin t).state.marginReserved.entries.Perm
      ((g.state.marginReserved.others (marginKey s)).filter (·.1 ≠ marginKey t)) :=
  (entries_releaseMargin (h.releaseMargin s) t).trans ((entries_releaseMargin h s).filter _)

theorem releaseMargin_reserve_pair (h : g.Wf) (hs : g.reservedUnder (marginKey s) = none)
    (ht : g.reservedUnder (marginKey t) = none) :
    Restores g ((((g.reserve s a).reserve t b).releaseMargin s).releaseMargin t) ∧
      Restores g ((((g.reserve s a).reserve t b).releaseMargin t).releaseMargin s) := by
  have hw := (h.reserve s a).reserve t b
  have hp := others_reserve_pair (a := a) (b := b) h hs ht
  constructor
  · apply restores_of_perm h ((hw.releaseMargin s).releaseMargin t) _ _ _
      ((entries_releaseMargin_twice hw s t).trans hp) <;>
      rw [releaseMargin_eq (hw.releaseMargin s), releaseMargin_eq hw] <;> rfl
  · have hp' := (entries_releaseMargin_twice hw t s).trans (others_comm _ _ _ ▸ hp)
    apply restores_of_perm h ((hw.releaseMargin t).releaseMargin s) _ _ _ hp' <;>
      rw [releaseMargin_eq (hw.releaseMargin t), releaseMargin_eq hw] <;> rfl

end

/-- From `g`, releasing what was approved and reserved under new keys leads back. -/
structure ReleaseUndoes (g : PortfolioGuard) : Prop where
  single : ∀ s : Signal, g.reservedUnder (marginKey s) = none → (g.checkAndReserve s).2.approved = true →
    Restores g ((g.checkAndReserve s).1.releaseMargin s)
  pair : ∀ s t : Signal, g.reservedUnder (marginKey s) = none → g.reservedUnder (marginKey t) = none →
    (g.checkAndReservePair s t).2.approved = true →
      Restores g (((g.checkAndReservePair s t).1.releaseMargin s).releaseMargin t) ∧
        Restores g (((g.checkAndReservePair s t).1.releaseMargin t).releaseMargin s)

theorem Wf.releaseUndoes (h : g.Wf) : g.ReleaseUndoes where
  single := by
    intro s hs happ
    rw [checkAndReserve_approved happ]
    exact releaseMargin_reserve h hs _
  pair := by
    intro s t hs ht happ
    rw [checkAndReservePair_approved happ]
    exact releaseMargin_reserve_pair h hs ht

/-! ## What a fill uses -/

theorem usedUnder_onFill_iff (h : g.Wf) (s : Signal) (price qty : ℚ) :
    (g.onFill s price qty).usedUnder (marginKey s) = some (g.usedMargin s price qty) ↔
      g.usedUnder (marginKey s) ≠ none ∨ g.state.marginUsed.size < 128 := by
  have hu := (update_spec h.used (marginKey_fits s) g.dummy fun _ => g.usedMargin s price qty).2
  constructor
  · intro hfind
    cases hu with
    | changed v rest he _ =>
      rw [usedUnder, find_some_of_perm h.used he]
      exact .inl (Option.some_ne_none v)
    | added p _ _ _ hs _ => exact .inr hs
    | lost hn _ he =>
      have hsame : (g.onFill s price qty).usedUnder (marginKey s) = g.usedUnder (marginKey s) :=
        congrArg (FlatHashMap.find hashKey · (marginKey s)) he
      rw [hsame, usedUnder, hn] at hfind
      cases hfind
  · intro hroom
    obtain ⟨v, hv⟩ := find_update_self h.used (marginKey_fits s) g.dummy
      (fun _ => g.usedMargin s price qty) hroom
    exact hv

/-! ## Calls for another signal -/

/-- The amounts under `key` are the same in both guards. -/
structure SameUnder (key : Bytes) (g g' : PortfolioGuard) : Prop where
  reserved : g'.reservedUnder key = g.reservedUnder key
  used : g'.usedUnder key = g.usedUnder key

/-- The calls for `s` leave the amounts of `t` alone. -/
structure LeavesAlone (s t : Signal) (g : PortfolioGuard) : Prop where
  checkAndReserve : SameUnder (marginKey t) g (g.checkAndReserve s).1
  releaseMargin : SameUnder (marginKey t) g (g.releaseMargin s)
  onFill : ∀ fillPrice fillQty, SameUnder (marginKey t) g (g.onFill s fillPrice fillQty)

theorem state_marginUsed_checkAndReserve (s : Signal) :
    (g.checkAndReserve s).1.state.marginUsed = g.state.marginUsed := by
  unfold checkAndReserve
  simp only
  split <;> rfl

theorem state_marginUsed_releaseMargin (s : Signal) :
    (g.releaseMargin s).state.marginUsed = g.state.marginUsed := by
  unfold releaseMargin
  split <;> rfl

theorem Wf.leavesAlone (h : g.Wf) {s t : Signal} (hne : marginKey s ≠ marginKey t) : LeavesAlone s t g where
  checkAndReserve := by
    refine ⟨reservedUnder_checkAndReserve_ne h hne.symm, ?_⟩
    rw [usedUnder, state_marginUsed_checkAndReserve, usedUnder]
  releaseMargin := by
    refine ⟨reservedUnder_releaseMargin_ne h hne.symm, ?_⟩
    rw [usedUnder, state_marginUsed_releaseMargin, usedUnder]
  onFill := by
    intro fillPrice fillQty
    exact ⟨reservedUnder_onFill_ne h hne.symm, find_update_ne h.used (marginKey_fits s) _ _ hne.symm⟩

end PortfolioGuard

/-- The symbol of `t` goes on after that of `s` with a colon and what the id of
`s` has before the id of `t`. -/
def Overlaps (s t : Signal) : Prop :=
  ∃ w, t.symbol.bytes = s.symbol.bytes ++ lit ":" ++ w ∧ s.signalId.bytes = w ++ lit ":" ++ t.signalId.bytes

theorem marginKey_eq_of_overlaps {s t : Signal} (h : Overlaps s t) : marginKey s = marginKey t := by
  obtain ⟨w, hsym, hid⟩ := h
  simp only [marginKey, hsym, hid, List.append_assoc]

theorem marginKey_eq_iff {s t : Signal} : marginKey s = marginKey t ↔
    (s.symbol, s.signalId) = (t.symbol, t.signalId) ∨ Overlaps s t ∨ Overlaps t s := by
  constructor
  · intro h
    have cut : ∀ a b : Signal, ∀ u, b.symbol.bytes = a.symbol.bytes ++ u →
        lit ":" ++ a.signalId.bytes = u ++ (lit ":" ++ b.signalId.bytes) →
          (a.symbol, a.signalId) = (b.symbol, b.signalId) ∨ Overlaps a b := by
      intro a b u hsym hid
      cases u with
      | nil =>
        rw [List.append_nil] at hsym
        rw [List.nil_append, List.append_cancel_left_eq] at hid
        exact .inl (Prod.ext (CStr.ext hsym.symm) (CStr.ext hid))
      | cons c w =>
        have hlit : lit ":" = [58] := by decide
        rw [hlit, List.cons_append, List.nil_append, List.cons_append, List.cons.injEq] at hid
        refine .inr ⟨w, ?_, ?_⟩
        · rw [hsym, ← hid.1, hlit, List.append_assoc]; rfl
        · rw [hid.2, hlit, List.append_assoc]
    rw [marginKey, marginKey, List.append_assoc, List.append_assoc, List.append_eq_append_iff] at h
    cases h with
    | inl h =>
      obtain ⟨u, hsym, hid⟩ := h
      exact (cut s t u hsym hid).imp_right .inl
    | inr h =>
      obtain ⟨u, hsym, hid⟩ := h
      exact (cut t s u hsym hid).imp Eq.symm .inr
  · intro h
    rcases h with h | h | h
    · rw [Prod.mk.injEq] at h
      rw [marginKey, marginKey, h.1, h.2]
    · exact marginKey_eq_of_overlaps h
    · exact (marginKey_eq_of_overlaps h).symm

theorem not_overlaps_of_no_colon {s t : Signal} (h : 58 ∉ t.symbol.bytes) : ¬ Overlaps s t := by
  intro ⟨w, hsym, _⟩
  apply h
  rw [hsym]
  simp [lit]

open Machine PortfolioGuard

/-- Reserving and releasing is no change to any other figure, in every state of
every run of calls on a guard. -/
theorem release_undoes_reserve (config : PortfolioConfig) (dummy : ℚ) (calls : List Call) :
    Always (fun g c => some (PortfolioGuard.call g c)) ReleaseUndoes
      { PortfolioGuard.init config with dummy := dummy } calls :=
  (always_wf config dummy calls).mono fun _ h => h.releaseUndoes

/-- Signal 108 takes the slot that holds the amount of a moved entry, and gives
back all it took. -/
theorem release_undoes_reserve_colliding :
    let g := Sample.collidingCalls.foldl PortfolioGuard.call (.init {})
    (g.checkAndReserve (Sample.ethSignal 108 1)).2.approved = true ∧
      Restores g ((g.checkAndReserve (Sample.ethSignal 108 1)).1.releaseMargin (Sample.ethSignal 108 1)) :=
  ⟨by decide +kernel, (always_iff.mp (release_undoes_reserve {} 0 Sample.collidingCalls) _ [] _
    (List.append_nil _).symm rfl).single _ (by decide +kernel) (by decide +kernel)⟩

/-- Two signals stay apart in every state of every run if and only if their
fields do not overlap in the key. -/
theorem signals_leave_alone_iff (config : PortfolioConfig) (dummy : ℚ) (s t : Signal)
    (hne : (s.symbol, s.signalId) ≠ (t.symbol, t.signalId)) :
    (∀ calls : List Call, Always (fun g c => some (PortfolioGuard.call g c)) (LeavesAlone s t)
      { PortfolioGuard.init config with dummy := dummy } calls) ↔ ¬ Overlaps s t ∧ ¬ Overlaps t s := by
  constructor
  · intro h
    -- in the fresh guard a fill is a new entry under the common key
    have hfill := ((h []).onFill 0 0).used
    have apart : marginKey s ≠ marginKey t := by
      intro hkey
      have hw := wf_init config
      obtain ⟨v, hv⟩ := FlatHashMap.find_update_self hw.used (marginKey_fits s) dummy
        (fun _ => (PortfolioGuard.init config).usedMargin s 0 0) (.inr (Nat.zero_lt_succ 127))
      have hnone : (PortfolioGuard.init config).usedUnder (marginKey s) = none :=
        reservedUnder_init config (marginKey s)
      rw [← hkey] at hfill
      exact absurd (hv.symm.trans (hfill.trans hnone)) (Option.some_ne_none _)
    constructor
    · exact fun ho => apart (marginKey_eq_of_overlaps ho)
    · exact fun ho => apart (marginKey_eq_of_overlaps ho).symm
  · intro h calls
    have apart : marginKey s ≠ marginKey t := by
      intro hkey
      rcases marginKey_eq_iff.mp hkey with he | ho | ho
      · exact hne he
      · exact h.1 ho
      · exact h.2 ho
    exact (always_wf config dummy calls).mono fun _ hw => hw.leavesAlone apart

namespace Sample

def keyed (symbol signalId : String) : Signal :=
  { signalId := .copy 15 (lit signalId), symbol := .copy 15 (lit symbol), quantity := 1, price := 3000 }

end Sample

theorem signals_leave_alone_iff_plain :
    ((Sample.keyed "ETH" "A").symbol, (Sample.keyed "ETH" "A").signalId) ≠
        ((Sample.keyed "ETH" "B").symbol, (Sample.keyed "ETH" "B").signalId) ∧
      ∀ calls : List Call, Always (fun g c => some (PortfolioGuard.call g c))
        (LeavesAlone (Sample.keyed "ETH" "A") (Sample.keyed "ETH" "B"))
        { PortfolioGuard.init {} with dummy := 0 } calls :=
  ⟨by decide, (signals_leave_alone_iff {} 0 _ _ (by decide)).mpr
    ⟨not_overlaps_of_no_colon (by decide), not_overlaps_of_no_colon (by decide)⟩⟩

/-- The release for `("A:B", "C")` frees what is reserved for `("A", "B:C")`. -/
theorem not_signals_leave_alone :
    ¬ ∀ (config : PortfolioConfig) (dummy : ℚ) (calls : List Call) (s t : Signal),
      (s.symbol, s.signalId) ≠ (t.symbol, t.signalId) →
        Always (fun g c => some (PortfolioGuard.call g c)) (LeavesAlone s t)
          { PortfolioGuard.init config with dummy := dummy } calls := by
  intro h
  let g := (PortfolioGuard.init {}).call (.op (.checkAndReserve (Sample.keyed "A" "B:C")))
  have hl : LeavesAlone (Sample.keyed "A:B" "C") (Sample.keyed "A" "B:C") g :=
    always_iff.mp (h {} 0 [.op (.checkAndReserve (Sample.keyed "A" "B:C"))] _ _ (by decide)) _ [] g
      (List.append_nil _).symm rfl
  have he := hl.releaseMargin.reserved
  revert he
  decide +kernel

end OrderExecution
