import OrderExecution.GuardAccesses
import OrderExecution.PortfolioGuardSound

/-!
# `PortfolioGuard` under `mutex_`

Threads call one guard and are interleaved at each access to a slot of its
tables. Its calls take effect one at a time, in the order in which they took
`mutex_`, so what is approved at once never exceeds the cash.
-/

namespace OrderExecution

open CriticalSections FlatHashMap

open PortfolioGuard (Call)

abbrev LockedGuard := Locked Call PortfolioGuard (Option MarginResult)

/-- One step of one of the threads that call the guard. -/
def LockedGuard.step : LockedGuard → Event Call → Option LockedGuard := Locked.step Call.accesses

theorem LockedGuard.serial_eq (g : PortfolioGuard) (calls : List (Nat × Call)) :
    Locked.serial Call.accesses g calls = oneAtATime PortfolioGuard.answered g calls := by
  unfold Locked.serial
  congr 1
  funext g c
  exact c.run_accesses g

theorem LockedGuard.calls_in_lock_order {g : PortfolioGuard} {es : List (Event Call)} {s : LockedGuard}
    (hr : Machine.run LockedGuard.step { data := g } es = some s) :
    (∀ t u i j rest rest', s.threads t = .inside i rest → s.threads u = .inside j rest' → u = t) ∧
    (∃ calls, calls <+: s.entered ∧ s.entered.length ≤ calls.length + 1 ∧
      s.returned = (oneAtATime PortfolioGuard.answered g calls).2) ∧
    (s.flag = false → s.data = (oneAtATime PortfolioGuard.answered g s.entered).1 ∧
      s.returned = (oneAtATime PortfolioGuard.answered g s.entered).2) ∧
    (∀ es₁ es₂ s₁, es = es₁ ++ es₂ → Machine.run LockedGuard.step { data := g } es₁ = some s₁ →
      s₁.entered <+: s.entered) ∧
    ∀ t, ∃ es' s', Machine.run LockedGuard.step s es' = some s' ∧ s'.threads t = .idle := by
  have h := Locked.inv_run hr
  refine ⟨fun t u i j rest rest' ht hu => h.exclusive ht hu, ?_, fun hf => ?_, fun es₁ es₂ s₁ he h₁ => ?_,
    h.can_return⟩
  · obtain ⟨calls, hp, hl, hret⟩ := h.returned_serial
    exact ⟨calls, hp, hl, by rw [hret, serial_eq]⟩
  · have ho := h.open hf
    rw [← serial_eq]
    exact ⟨ho.data, ho.returned⟩
  · subst he
    obtain ⟨s₂, h₂, hrest⟩ := Machine.run_append_some hr
    rw [h₁] at h₂
    cases h₂
    exact Locked.entered_prefix hrest

namespace Sample

def rivalSignal (id : String) : Signal where
  signalId := .copy 15 (lit id)
  symbol := .copy 15 (lit "BTC-USDT")
  quantity := 6
  price := 100000

def rivalCall (id : String) : Call := .op (.checkAndReserve (rivalSignal id))

/-- Thread 1 finds the flag set; thread 0 reserves, and then thread 1 is refused. -/
def rivalEvents : List (Event Call) :=
  [.call 0 (rivalCall "a"), .call 1 (rivalCall "b"), .go 0, .go 1] ++ List.replicate 263 (.go 0) ++
    List.replicate 260 (.go 1)

def rivalRun : Option LockedGuard := Machine.run LockedGuard.step { data := .init {} } rivalEvents

theorem rivalRun_isSome : rivalRun.isSome = true := by decide +kernel

def rivalState : LockedGuard := rivalRun.get rivalRun_isSome

theorem rivalRun_eq : rivalRun = some rivalState := (Option.some_get _).symm

theorem calls_in_lock_order_rivals : rivalRun = some rivalState ∧ ∃ calls, calls <+: rivalState.entered ∧
    rivalState.entered.length ≤ calls.length + 1 ∧
      rivalState.returned = (oneAtATime PortfolioGuard.answered (.init {}) calls).2 :=
  ⟨rivalRun_eq, (LockedGuard.calls_in_lock_order rivalRun_eq).2.1⟩

end Sample

/-! ## What is approved -/

/-- A call that reserves, and only under `keys`. -/
def PortfolioGuard.Call.Reserves (keys : Finset Bytes) : Call → Prop
  | .op (.checkAndReserve s) => marginKey s ∈ keys
  | .op (.checkAndReservePair cex dex) => marginKey cex ∈ keys ∧ marginKey dex ∈ keys
  | _ => False

instance (keys : Finset Bytes) : (c : Call) → Decidable (c.Reserves keys)
  | .op (.checkAndReserve s) => inferInstanceAs (Decidable (marginKey s ∈ keys))
  | .op (.checkAndReservePair cex dex) => inferInstanceAs (Decidable (marginKey cex ∈ keys ∧ marginKey dex ∈ keys))
  | .op (.onFill _ _ _) => isFalse id
  | .op (.releaseMargin _) => isFalse id
  | .reset => isFalse id

/-- The margin that an answer grants. -/
def granted : Option MarginResult → ℚ
  | some r => if r.approved then r.requiredMargin else 0
  | none => 0

/-- Nothing is used, and what is reserved, for `keys` only, is what was granted. -/
structure Reserving (config : PortfolioConfig) (keys : Finset Bytes) (g : PortfolioGuard) (total : ℚ) : Prop where
  wf : g.Wf
  fresh : Fresh g.state.marginReserved
  known : ∀ e ∈ g.state.marginReserved.entries, e.1 ∈ keys
  used : g.state.marginUsed.total = 0
  cash : g.state.cash = config.initialCash
  reserved : g.state.marginReserved.total = total

section
variable {config : PortfolioConfig} {keys : Finset Bytes} {g : PortfolioGuard} {total : ℚ}

theorem reserving_init : Reserving config keys (.init config) 0 where
  wf := PortfolioGuard.wf_init config
  fresh := fresh_empty
  known := by
    intro e he
    have hempty : e ∈ (FlatHashMap.empty : Table).entries := he
    rw [entries_empty] at hempty
    cases hempty
  used := total_empty
  cash := rfl
  reserved := total_empty

theorem Reserving.available (h : Reserving config keys g total) :
    g.state.availableMargin = config.initialCash - total := by
  rw [PortfolioState.availableMargin, h.cash, h.reserved, h.used, sub_zero]

/-- A table that is full has no room for a key only if it has all of `keys`. -/
theorem Reserving.room (h : Reserving config keys g total) (hcard : keys.card ≤ 128) {k : Bytes} (hk : k ∈ keys)
    (hfind : g.state.marginReserved.find hashKey k = none) : g.state.marginReserved.size < 128 := by
  refine lt_of_lt_of_le ?_ hcard
  have habs := (find_eq_none h.wf.reserved).mp hfind
  rw [h.wf.reserved.size_eq, ← List.length_map (f := Prod.fst),
    ← List.toFinset_card_of_nodup (entries_keys_nodup h.wf.reserved)]
  refine Finset.card_lt_card ((Finset.ssubset_iff_of_subset ?_).mpr ⟨k, hk, ?_⟩)
  · intro k' hk'
    rw [List.mem_toFinset, List.mem_map] at hk'
    obtain ⟨e, he, rfl⟩ := hk'
    exact h.known e he
  · rw [List.mem_toFinset, List.mem_map]
    intro hm
    obtain ⟨⟨k', v⟩, hm, rfl⟩ := hm
    exact habs v hm

theorem Reserving.reserve (h : Reserving config keys g total) (hcard : keys.card ≤ 128) {s : Signal}
    (hs : marginKey s ∈ keys) (amount : ℚ) : Reserving config keys (g.reserve s amount) (total + amount) := by
  obtain ⟨-, hu⟩ := update_spec h.wf.reserved (marginKey_fits s) g.dummy (· + amount)
  refine ⟨h.wf.reserve s amount, h.fresh.update h.wf.reserved _ _ _, ?_, h.used, h.cash, ?_⟩
  · intro e he
    cases hu with
    | changed v rest h₁ h₂ =>
      rcases List.mem_cons.mp (h₂.mem_iff.mp he) with rfl | hr
      · exact hs
      · exact h.known e (h₁.mem_iff.mpr (List.mem_cons_of_mem _ hr))
    | added p _ _ _ _ h₂ =>
      rcases List.mem_cons.mp (h₂.mem_iff.mp he) with rfl | hr
      · exact hs
      · exact h.known e hr
    | lost _ _ h₂ => exact h.known e (h₂ ▸ he)
  · show (g.state.marginReserved.update hashKey g.dummy (marginKey s) (· + amount)).1.total = _
    cases hu with
    | changed v rest h₁ h₂ =>
      rw [← h.reserved, total_of_perm h₁, total_of_perm h₂]
      simp only [List.map_cons, List.sum_cons]
      ring
    | added p hp hfree _ _ h₂ => rw [total_cons h₂, h.reserved, h.fresh p hp hfree]; ring
    | lost hfind hsize _ => exact absurd hsize (h.room hcard hs hfind).ne

theorem Reserving.answered (h : Reserving config keys g total) (hcard : keys.card ≤ 128)
    (hcash : total ≤ config.initialCash) {c : Call} (hc : c.Reserves keys) :
    Reserving config keys (g.answered c).1 (total + granted (g.answered c).2) ∧
      total + granted (g.answered c).2 ≤ config.initialCash := by
  have havail := h.available
  cases c with
  | reset => exact absurd hc id
  | op op =>
    cases op with
    | onFill s fillPrice fillQty => exact absurd hc id
    | releaseMargin s => exact absurd hc id
    | checkAndReserve s =>
      simp only [PortfolioGuard.answered, PortfolioGuard.call, PortfolioGuard.apply, PortfolioGuard.answer,
        PortfolioGuard.checkAndReserve]
      by_cases hgt : g.calcRequiredMargin s > g.state.availableMargin
      · simp only [if_pos hgt, granted, Bool.false_eq_true, if_false, add_zero]
        exact ⟨h, hcash⟩
      · simp only [if_neg hgt, granted, if_true]
        refine ⟨h.reserve hcard hc _, ?_⟩
        rw [havail] at hgt
        linarith
    | checkAndReservePair cex dex =>
      simp only [PortfolioGuard.answered, PortfolioGuard.call, PortfolioGuard.apply, PortfolioGuard.answer,
        PortfolioGuard.checkAndReservePair]
      by_cases hgt : g.calcRequiredMargin cex + g.calcRequiredMargin dex > g.state.availableMargin
      · simp only [if_pos hgt, granted, Bool.false_eq_true, if_false, add_zero]
        exact ⟨h, hcash⟩
      · simp only [if_neg hgt, granted, if_true]
        have hboth := (h.reserve hcard hc.1 (g.calcRequiredMargin cex)).reserve hcard hc.2 (g.calcRequiredMargin dex)
        refine ⟨by rw [← add_assoc]; exact hboth, ?_⟩
        rw [havail] at hgt
        linarith

theorem reserving_oneAtATime (hcard : keys.card ≤ 128) (hcash : 0 ≤ config.initialCash)
    {calls : List (Nat × Call)} (hcalls : ∀ c ∈ calls, c.2.Reserves keys) :
    let r := oneAtATime PortfolioGuard.answered (.init config) calls
    Reserving config keys r.1 (r.2.map fun a => granted a.2.2).sum ∧
      (r.2.map fun a => granted a.2.2).sum ≤ config.initialCash := by
  induction calls using List.reverseRecOn with
  | nil => exact ⟨reserving_init, hcash⟩
  | append_singleton calls c ih =>
    obtain ⟨h, hle⟩ := ih fun c hc => hcalls c (List.mem_append_left _ hc)
    simp only [oneAtATime_concat, List.map_append, List.map_cons, List.map_nil, List.sum_append, List.sum_cons,
      List.sum_nil, add_zero]
    exact h.answered hcard hle (hcalls c (by simp))

end

/-- Whatever the interleaving, what was approved does not exceed the cash. -/
theorem LockedGuard.never_overspent {config : PortfolioConfig} {keys : Finset Bytes}
    {es : List (Event Call)} {s : LockedGuard} (hcash : 0 ≤ config.initialCash) (hcard : keys.card ≤ 128)
    (hr : Machine.run LockedGuard.step { data := .init config } es = some s)
    (hcalls : ∀ c ∈ s.entered, c.2.Reserves keys) :
    (s.returned.map fun a => granted a.2.2).sum ≤ config.initialCash := by
  obtain ⟨calls, hp, -, hret⟩ := (Locked.inv_run hr).returned_serial
  rw [hret, serial_eq]
  exact (reserving_oneAtATime hcard hcash fun c hc => hcalls c (hp.subset hc)).2

theorem Sample.never_overspent_rivals :
    (Sample.rivalState.returned.map fun a => granted a.2.2) = [60000, 0] ∧
      (Sample.rivalState.returned.map fun a => granted a.2.2).sum ≤ 100000 :=
  ⟨by decide +kernel,
    @LockedGuard.never_overspent {} {marginKey (Sample.rivalSignal "a"), marginKey (Sample.rivalSignal "b")}
      Sample.rivalEvents Sample.rivalState (by decide) (by decide +kernel) Sample.rivalRun_eq (by decide +kernel)⟩

end OrderExecution
