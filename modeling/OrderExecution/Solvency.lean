import OrderExecution.Machine
import OrderExecution.PortfolioGuardSound

/-!
# Solvency of the margin ledger

`PortfolioGuard` keeps no total of what it approved: it sums two tables of 128
slots. `MarginLedger` runs the guard next to the amounts it granted. As long
as no call needs a slot of a full table, and fills are for standing
reservations, the granted amounts stay within the initial cash.
-/

namespace OrderExecution

open FlatHashMap

/-- A guard, every reservation it approved with the amount required for it,
those not yet released or filled, the keys of all reservation calls, and the
sum of the used margins of all fills. -/
structure MarginLedger where
  guard : PortfolioGuard
  approved : List (Signal × ℚ) := []
  live : List (Signal × ℚ) := []
  keys : List Bytes := []
  filled : ℚ := 0

namespace MarginLedger

def start (config : PortfolioConfig) : MarginLedger := { guard := .init config }

/-- What is reserved and not yet released or filled, and what the fills use. -/
def committed (l : MarginLedger) : ℚ := (l.live.map Prod.snd).sum + l.filled

def settle (l : MarginLedger) (s : Signal) : List (Signal × ℚ) :=
  l.live.filter fun e => marginKey e.1 ≠ marginKey s

def note (l : MarginLedger) (s : Signal) (amount : ℚ) : MarginLedger :=
  { l with approved := (s, amount) :: l.approved, live := (s, amount) :: l.live }

/-- A call on the guard. Reservation calls are for positive quantities and keys
not used before, and a fill uses at most what was required at an approved
reservation of its signal. -/
def step (l : MarginLedger) : GuardOp → Option MarginLedger
  | .checkAndReserve s =>
    if 0 < s.quantity ∧ marginKey s ∉ l.keys then
      let r := l.guard.checkAndReserve s
      let l' := { l with guard := r.1, keys := marginKey s :: l.keys }
      some (if r.2.approved then l'.note s r.2.requiredMargin else l')
    else none
  | .checkAndReservePair cex dex =>
    if (0 < cex.quantity ∧ marginKey cex ∉ l.keys) ∧
        (0 < dex.quantity ∧ marginKey dex ∉ marginKey cex :: l.keys) then
      let r := l.guard.checkAndReservePair cex dex
      let l' := { l with guard := r.1, keys := marginKey dex :: marginKey cex :: l.keys }
      some (if r.2.approved then
        (l'.note cex (l.guard.calcRequiredMargin cex)).note dex (l.guard.calcRequiredMargin dex) else l')
    else none
  | .releaseMargin s => some { l with guard := l.guard.releaseMargin s, live := l.settle s }
  | .onFill s price qty =>
    if ∃ e ∈ l.approved, e.1 = s ∧ l.guard.usedMargin s price qty ≤ e.2 then
      some { l with
        guard := l.guard.onFill s price qty, live := l.settle s,
        filled := l.filled + l.guard.usedMargin s price qty }
    else none

/-- No entry of a ledger table is lost or overwritten: an approved reservation
finds a free slot for each of its keys, and a fill is for a reservation that
stands and finds a free slot. -/
def Roomy (l : MarginLedger) : GuardOp → Prop
  | .checkAndReserve s =>
    l.guard.calcRequiredMargin s ≤ l.guard.state.availableMargin →
      l.guard.state.marginReserved.size + 1 ≤ 128
  | .checkAndReservePair cex dex =>
    l.guard.calcRequiredMargin cex + l.guard.calcRequiredMargin dex ≤ l.guard.state.availableMargin →
      l.guard.state.marginReserved.size + 2 ≤ 128
  | .releaseMargin _ => True
  | .onFill s _ _ => (∃ e ∈ l.live, e.1 = s) ∧ l.guard.state.marginUsed.size + 1 ≤ 128

instance (l : MarginLedger) (op : GuardOp) : Decidable (Roomy l op) :=
  match op with
  | .checkAndReserve _ | .checkAndReservePair _ _ => inferInstanceAs (Decidable (_ → _))
  | .releaseMargin _ => inferInstanceAs (Decidable True)
  | .onFill _ _ _ => inferInstanceAs (Decidable (_ ∧ _))

/-! ## The invariant -/

/-- Every standing reservation is covered by an entry of `margin_reserved`, and
`margin_used` holds all fills. -/
structure Covered (config : PortfolioConfig) (l : MarginLedger) : Prop where
  wf : l.guard.Wf
  config_eq : l.guard.config = config
  cash : l.guard.state.cash = config.initialCash
  nonneg : AllValues (0 ≤ ·) l.guard.state.marginReserved
  nodup : (l.approved.map fun e => marginKey e.1).Nodup
  keys : ∀ e ∈ l.approved, marginKey e.1 ∈ l.keys
  live : l.live.Sublist l.approved
  amounts : ∀ e ∈ l.live, 0 ≤ e.2
  entry : ∀ e ∈ l.live, ∃ v, l.guard.reservedUnder (marginKey e.1) = some v ∧ e.2 ≤ v
  known : ∀ k, l.guard.reservedUnder k ≠ none → k ∈ l.keys
  used : ∀ e ∈ l.guard.state.marginUsed.entries, e.1 ∈ l.keys ∧ ∀ e' ∈ l.live, marginKey e'.1 ≠ e.1
  total : l.guard.state.marginUsed.total = l.filled
  solvent : l.committed ≤ config.initialCash

theorem calcRequiredMargin_nonneg {g : PortfolioGuard} (hl : 0 < g.config.maxLeverage) {s : Signal}
    (hq : 0 < s.quantity) : 0 ≤ g.calcRequiredMargin s := by
  have hp : 0 < if s.price ≤ 0 then referencePrice s.symbol else s.price := by
    split
    · exact referencePrice_pos _
    · next h => exact not_le.mp h
  unfold PortfolioGuard.calcRequiredMargin
  simp only
  split
  · exact (mul_pos hq hp).le
  · exact (div_pos (mul_pos hq hp) hl).le

theorem sum_live_le {config : PortfolioConfig} {l : MarginLedger} (h : Covered config l) :
    (l.live.map Prod.snd).sum ≤ l.guard.state.marginReserved.total := by
  have := sum_le_total h.wf.reserved h.nonneg (l := l.live.map fun e => (marginKey e.1, e.2))
    (by rw [List.map_map]; exact h.nodup.sublist (h.live.map _)) fun e he => by
      obtain ⟨e', he', rfl⟩ := List.mem_map.mp he
      exact h.entry e' he'
  rwa [List.map_map] at this

theorem covered_start (config : PortfolioConfig) (hc : 0 ≤ config.initialCash) :
    Covered config (start config) where
  wf := PortfolioGuard.wf_init config
  config_eq := rfl
  cash := rfl
  nonneg := AllValues.empty le_rfl
  nodup := List.nodup_nil
  keys := by intro e he; cases he
  live := List.Sublist.refl _
  amounts := by intro e he; cases he
  entry := by intro e he; cases he
  known := by
    intro k hk
    refine absurd ((find_eq_none (PortfolioGuard.wf_init config).reserved).mpr fun v hv => ?_) hk
    rw [show (PortfolioGuard.init config).state.marginReserved = FlatHashMap.empty from rfl,
      entries_empty] at hv
    cases hv
  used := by
    intro e he
    rw [show (start config).guard.state.marginUsed = FlatHashMap.empty from rfl, entries_empty] at he
    cases he
  total := total_empty
  solvent := by simpa [committed, start] using hc

section
variable {config : PortfolioConfig} {l : MarginLedger}

theorem Covered.fits (h : Covered config l) {x : ℚ} (hx : x ≤ l.guard.state.availableMargin) :
    l.committed + x ≤ config.initialCash := by
  have := sum_live_le h
  have := h.total
  have := h.cash
  unfold PortfolioState.availableMargin at hx
  unfold committed
  linarith

theorem Covered.moreKeys (h : Covered config l) (k : Bytes) :
    Covered config { l with keys := k :: l.keys } :=
  { h with
    keys := fun e he => List.mem_cons_of_mem _ (h.keys e he)
    known := fun k' hk' => List.mem_cons_of_mem _ (h.known k' hk')
    used := fun e he => ⟨List.mem_cons_of_mem _ (h.used e he).1, (h.used e he).2⟩ }

theorem Covered.grant (h : Covered config l) {s : Signal} {amount : ℚ} (hk : marginKey s ∉ l.keys)
    (ha : 0 ≤ amount) (hroom : l.guard.state.marginReserved.size + 1 ≤ 128)
    (hfit : l.committed + amount ≤ config.initialCash) :
    Covered config
      ({ l with guard := l.guard.reserve s amount, keys := marginKey s :: l.keys }.note s amount) where
  wf := h.wf.reserve s amount
  config_eq := h.config_eq
  cash := h.cash
  nonneg := h.nonneg.update le_rfl _ fun v hv => add_nonneg hv ha
  nodup := by
    refine List.nodup_cons.mpr ⟨fun hm => hk ?_, h.nodup⟩
    obtain ⟨e, he, heq⟩ := List.mem_map.mp hm
    rw [← show marginKey e.1 = marginKey s from heq]
    exact h.keys e he
  keys := by
    intro e he
    rcases List.mem_cons.mp he with rfl | he
    · exact List.mem_cons_self ..
    · exact List.mem_cons_of_mem _ (h.keys e he)
  live := h.live.cons_cons _
  amounts := by
    intro e he
    rcases List.mem_cons.mp he with rfl | he
    · exact ha
    · exact h.amounts e he
  entry := by
    intro e he
    rcases List.mem_cons.mp he with rfl | he
    · have hu := update_spec h.wf.reserved (marginKey_fits s) l.guard.dummy (· + amount)
      have hnone : l.guard.state.marginReserved.find hashKey (marginKey s) = none :=
        not_not.mp fun hf => hk (h.known _ hf)
      cases hu.2 with
      | changed v rest h₁ _ => rw [find_some_of_perm h.wf.reserved h₁] at hnone; cases hnone
      | added p hp _ _ _ h₁ =>
        refine ⟨_, find_some_of_perm hu.1 h₁, ?_⟩
        exact le_add_of_nonneg_left (h.nonneg p hp)
      | lost _ hs _ => omega
    · obtain ⟨v, hv, hle⟩ := h.entry e he
      refine ⟨v, ?_, hle⟩
      rw [← hv]
      exact PortfolioGuard.reservedUnder_reserve_ne h.wf fun heq =>
        hk (heq ▸ h.keys e (h.live.subset he))
  known := by
    intro k hk'
    by_cases he : k = marginKey s
    · rw [he]; exact List.mem_cons_self ..
    · refine List.mem_cons_of_mem _ (h.known k ?_)
      rw [← PortfolioGuard.reservedUnder_reserve_ne (a := amount) h.wf he]
      exact hk'
  used := by
    intro e he
    obtain ⟨hmem, hlive⟩ := h.used e he
    refine ⟨List.mem_cons_of_mem _ hmem, fun e' he' => ?_⟩
    rcases List.mem_cons.mp he' with rfl | he'
    · exact fun heq => hk (heq ▸ hmem)
    · exact hlive e' he'
  total := h.total
  solvent := by
    unfold committed note at *
    simp only [List.map_cons, List.sum_cons]
    linarith

theorem mem_settle {s : Signal} {e : Signal × ℚ} :
    e ∈ l.settle s ↔ e ∈ l.live ∧ marginKey e.1 ≠ marginKey s := by
  simp [settle]

theorem settle_sublist (s : Signal) : (l.settle s).Sublist l.live := List.filter_sublist

theorem sum_settle_le (h : Covered config l) (s : Signal) :
    ((l.settle s).map Prod.snd).sum ≤ (l.live.map Prod.snd).sum :=
  ((settle_sublist s).map _).sum_le_sum fun v hv => by
    obtain ⟨e, he, rfl⟩ := List.mem_map.mp hv
    exact h.amounts e he

theorem sum_filter_key_ne : ∀ {live : List (Signal × ℚ)}, (live.map fun e => marginKey e.1).Nodup →
    ∀ {e : Signal × ℚ}, e ∈ live →
      ((live.filter fun a => marginKey a.1 ≠ marginKey e.1).map Prod.snd).sum + e.2 =
        (live.map Prod.snd).sum
  | [], _, _, he => absurd he List.not_mem_nil
  | a :: live, hnd, e, he => by
    rw [List.map_cons, List.nodup_cons] at hnd
    rcases List.mem_cons.mp he with rfl | he
    · have : live.filter (fun a => marginKey a.1 ≠ marginKey e.1) = live := by
        refine List.filter_eq_self.mpr fun b hb => ?_
        have : marginKey b.1 ≠ marginKey e.1 := fun heq =>
          hnd.1 (List.mem_map.mpr ⟨b, hb, heq⟩)
        simpa using this
      rw [List.filter_cons_of_neg (by simp), this, List.map_cons, List.sum_cons, add_comm]
    · have hne : marginKey a.1 ≠ marginKey e.1 := fun heq =>
        hnd.1 (List.mem_map.mpr ⟨e, he, heq.symm⟩)
      have ih := sum_filter_key_ne hnd.2 he
      rw [List.filter_cons_of_pos (by simpa using hne)]
      simp only [List.map_cons, List.sum_cons]
      rw [add_assoc, ih]

theorem Covered.entry_settle (h : Covered config l) {s : Signal} {g : PortfolioGuard}
    (hne : ∀ k, k ≠ marginKey s → g.reservedUnder k = l.guard.reservedUnder k) :
    ∀ e ∈ l.settle s, ∃ v, g.reservedUnder (marginKey e.1) = some v ∧ e.2 ≤ v := by
  intro e he
  obtain ⟨he, hk⟩ := mem_settle.mp he
  rw [hne _ hk]
  exact h.entry e he

theorem Covered.known_settle (h : Covered config l) {s : Signal} {g : PortfolioGuard}
    (hself : g.reservedUnder (marginKey s) = none)
    (hne : ∀ k, k ≠ marginKey s → g.reservedUnder k = l.guard.reservedUnder k) :
    ∀ k, g.reservedUnder k ≠ none → k ∈ l.keys := by
  intro k hk
  by_cases he : k = marginKey s
  · rw [he] at hk; exact absurd hself hk
  · rw [hne k he] at hk; exact h.known k hk

theorem Covered.release (h : Covered config l) (s : Signal) :
    Covered config { l with guard := l.guard.releaseMargin s, live := l.settle s } := by
  have hne : ∀ k, k ≠ marginKey s →
      (l.guard.releaseMargin s).reservedUnder k = l.guard.reservedUnder k := fun k hk =>
    PortfolioGuard.reservedUnder_releaseMargin_ne h.wf hk
  have hused : (l.guard.releaseMargin s).state.marginUsed = l.guard.state.marginUsed := by
    unfold PortfolioGuard.releaseMargin; split <;> rfl
  refine ⟨h.wf.releaseMargin s, ?_, ?_, ?_, h.nodup, h.keys, (settle_sublist s).trans h.live,
    fun e he => h.amounts e ((settle_sublist s).subset he), h.entry_settle hne,
    h.known_settle (PortfolioGuard.reservedUnder_releaseMargin_self h.wf s) hne, ?_, ?_, ?_⟩
  · rw [← h.config_eq]; simp only [PortfolioGuard.releaseMargin]; split <;> rfl
  · rw [← h.cash]; simp only [PortfolioGuard.releaseMargin]; split <;> rfl
  · simp only [PortfolioGuard.releaseMargin]
    split
    · exact h.nonneg.erase le_rfl _
    · exact h.nonneg
  · rw [hused]
    exact fun e he => ⟨(h.used e he).1, fun e' he' => (h.used e he).2 e' ((settle_sublist s).subset he')⟩
  · rw [hused]; exact h.total
  · exact (add_le_add_left (sum_settle_le h s) _).trans h.solvent

/-- A fill turns a standing reservation into used margin. -/
theorem Covered.fill (h : Covered config l) {s : Signal} {price qty amount : ℚ}
    (hlive : (s, amount) ∈ l.live) (hle : l.guard.usedMargin s price qty ≤ amount)
    (hroom : l.guard.state.marginUsed.size + 1 ≤ 128) :
    Covered config
      { l with guard := l.guard.onFill s price qty, live := l.settle s,
               filled := l.filled + l.guard.usedMargin s price qty } := by
  have hne : ∀ k, k ≠ marginKey s →
      (l.guard.onFill s price qty).reservedUnder k = l.guard.reservedUnder k := fun k hk =>
    PortfolioGuard.reservedUnder_onFill_ne h.wf hk
  have hu := update_spec h.wf.used (marginKey_fits s) l.guard.dummy fun _ => l.guard.usedMargin s price qty
  have hadded : (l.guard.onFill s price qty).state.marginUsed.entries.Perm
      ((marginKey s, l.guard.usedMargin s price qty) :: l.guard.state.marginUsed.entries) := by
    cases hu.2 with
    | changed v rest h₁ _ =>
      have := (h.used _ (h₁.mem_iff.mpr (List.mem_cons_self ..))).2 _ hlive
      exact absurd rfl this
    | added p _ _ _ _ h₁ => exact h₁
    | lost _ hs _ => omega
  refine ⟨h.wf.onFill s price qty, h.config_eq, h.cash, h.nonneg.erase le_rfl _, h.nodup, h.keys,
    (settle_sublist s).trans h.live, fun e he => h.amounts e ((settle_sublist s).subset he),
    h.entry_settle hne, h.known_settle (PortfolioGuard.reservedUnder_onFill_self h.wf s price qty) hne,
    ?_, ?_, ?_⟩
  · intro e he
    rcases List.mem_cons.mp (hadded.mem_iff.mp he) with rfl | he
    · exact ⟨h.keys _ (h.live.subset hlive), fun e' he' => (mem_settle.mp he').2⟩
    · exact ⟨(h.used e he).1, fun e' he' => (h.used e he).2 e' ((settle_sublist s).subset he')⟩
  · rw [total_cons hadded, h.total, add_comm]
  · have := sum_filter_key_ne (h.nodup.sublist (h.live.map _)) hlive
    have := h.solvent
    unfold committed settle at *
    linarith

/-! ## Runs -/

theorem Covered.step (hlev : 0 < config.maxLeverage) {op : GuardOp} {l' : MarginLedger}
    (h : Covered config l) (hroom : Roomy l op) (hs : l.step op = some l') : Covered config l' := by
  have hlev' : 0 < l.guard.config.maxLeverage := h.config_eq ▸ hlev
  cases op with
  | checkAndReserve s =>
    simp only [MarginLedger.step, PortfolioGuard.checkAndReserve] at hs
    split at hs
    · next hok =>
      split at hs <;> cases hs
      · exact h.moreKeys _
      · next hav =>
        have hav := not_lt.mp hav
        exact h.grant hok.2 (calcRequiredMargin_nonneg hlev' hok.1) (hroom hav) (h.fits hav)
    · cases hs
  | checkAndReservePair cex dex =>
    simp only [MarginLedger.step, PortfolioGuard.checkAndReservePair] at hs
    split at hs
    · next hok =>
      obtain ⟨⟨hcq, hck⟩, hdq, hdk⟩ := hok
      split at hs <;> cases hs
      · exact (h.moreKeys _).moreKeys _
      · next hav =>
        have hav := not_lt.mp hav
        have hfit := h.fits hav
        have hcn := calcRequiredMargin_nonneg hlev' hcq
        have hdn := calcRequiredMargin_nonneg hlev' hdq
        have hr := hroom hav
        -- the two reservations are granted one after the other
        have hc := h.grant hck hcn (by omega) (by linarith)
        refine hc.grant hdk hdn ?_ ?_
        · have := size_update_le h.wf.reserved (marginKey_fits cex) l.guard.dummy
            (· + l.guard.calcRequiredMargin cex)
          exact (Nat.add_le_add_right this 1).trans (by omega)
        · simp only [committed, note, List.map_cons, List.sum_cons] at hfit ⊢
          linarith
    · cases hs
  | releaseMargin s =>
    cases hs
    exact h.release s
  | onFill s price qty =>
    simp only [MarginLedger.step] at hs
    split at hs
    · next hok =>
      cases hs
      obtain ⟨⟨a, ha, haeq, hle⟩, ⟨e, he, heq⟩, hsize⟩ := And.intro hok hroom
      -- the reservation that was approved is the one that stands
      have hae : a = e := by
        have hinj := List.inj_on_of_nodup_map h.nodup
        exact hinj ha (h.live.subset he) (by rw [haeq, heq])
      subst hae
      obtain ⟨a₁, a₂⟩ := a
      subst haeq
      exact h.fill he hle hsize
    · cases hs

/-- As long as every ledger entry finds a slot, what the guard granted stays
within its initial cash. -/
theorem solvent_of_roomy (config : PortfolioConfig) (hc : 0 ≤ config.initialCash)
    (hlev : 0 < config.maxLeverage) (es : List GuardOp)
    (hroom : Machine.Along step Roomy (start config) es) :
    Machine.Always step (fun l => l.committed ≤ config.initialCash) (start config) es :=
  Machine.Always.mono (fun _ h => h.solvent)
    (Machine.inv_always (fun _ _ _ h hr hs => Covered.step hlev h hr hs) hroom (covered_start config hc))

end

theorem solvent_of_roomy_trade :
    Machine.Always step (fun l => l.committed ≤ ({} : PortfolioConfig).initialCash) (start {})
      [.checkAndReserve { quantity := 1, price := 100 },
       .onFill { quantity := 1, price := 100 } 99 1,
       .checkAndReserve { quantity := 2, price := 100, signalId := storedSignalId 1 }] :=
  solvent_of_roomy {} (by decide +kernel) (by decide +kernel) _ (by decide +kernel)

/-! ## A full table -/

/-- The `n`-th of a family of signals with different keys that require one unit
of margin each. -/
def unitSignal (n : Nat) : Signal := { signalId := storedSignalId n, quantity := 1, price := 1 }

def unitConfig : PortfolioConfig := { maxLeverage := 1, initialCash := 129 }

def unitCalls (n : Nat) : List GuardOp := (List.range n).map fun i => .checkAndReserve (unitSignal i)

theorem marginKey_unitSignal_inj {m n : Nat} (hm : m < 10 ^ 11) (hn : n < 10 ^ 11)
    (h : marginKey (unitSignal m) = marginKey (unitSignal n)) : m = n :=
  storedSignalId_inj hm hn (CStr.ext (List.append_cancel_left h))

/-- After `n` calls: all were approved, and the first 128 of them are in the
table. -/
structure Crowded (n : Nat) (l : MarginLedger) : Prop where
  wf : l.guard.Wf
  config_eq : l.guard.config = unitConfig
  cash : l.guard.state.cash = 129
  fresh : Fresh l.guard.state.marginReserved
  used : l.guard.state.marginUsed.total = 0
  keys : l.keys ⊆ (List.range n).map fun i => marginKey (unitSignal i)
  known : ∀ k, l.guard.reservedUnder k ≠ none → k ∈ l.keys
  size : l.guard.state.marginReserved.size = min n 128
  total : l.guard.state.marginReserved.total = (min n 128 : Nat)
  granted : l.committed = n

theorem crowded_start : Crowded 0 (start unitConfig) where
  wf := PortfolioGuard.wf_init _
  config_eq := rfl
  cash := rfl
  fresh := fresh_empty
  used := total_empty
  keys := List.nil_subset _
  known := (covered_start unitConfig (by decide +kernel)).known
  size := rfl
  total := total_empty
  granted := by simp [committed, start]

theorem Crowded.call {n : Nat} {l : MarginLedger} (h : Crowded n l) (hn : n < 10 ^ 11) :
    ∃ l', l.step (.checkAndReserve (unitSignal n)) = some l' ∧ Crowded (n + 1) l' := by
  have hreq : l.guard.calcRequiredMargin (unitSignal n) = 1 := by
    have h1 : ¬ (1 : ℚ) ≤ 0 := not_le.mpr one_pos
    simp [PortfolioGuard.calcRequiredMargin, h.config_eq, unitSignal, unitConfig, h1]
  have hav : ¬ (1 : ℚ) > l.guard.state.availableMargin := by
    have : ((min n 128 : Nat) : ℚ) ≤ 128 := by exact_mod_cast Nat.min_le_right n 128
    unfold PortfolioState.availableMargin
    rw [h.cash, h.total, h.used]
    linarith
  have hkey : marginKey (unitSignal n) ∉ l.keys := by
    intro hk
    obtain ⟨i, hi, heq⟩ := List.mem_map.mp (h.keys hk)
    have hi := List.mem_range.mp hi
    have := marginKey_unitSignal_inj (by omega) hn heq
    omega
  have hnone : l.guard.state.marginReserved.find hashKey (marginKey (unitSignal n)) = none :=
    not_not.mp fun hf => hkey (h.known _ hf)
  have hu := update_spec h.wf.reserved (marginKey_fits (unitSignal n)) l.guard.dummy (· + 1)
  have hq : (0 : ℚ) < (unitSignal n).quantity := by simp [unitSignal]
  let l' := { l with
    guard := l.guard.reserve (unitSignal n) 1, keys := marginKey (unitSignal n) :: l.keys }
  refine ⟨l'.note (unitSignal n) 1, ?_, ?_⟩
  · simp only [step, hq, hkey, not_false_eq_true, and_self, ite_true, PortfolioGuard.checkAndReserve,
      hreq, hav, ite_false, l']
  have hsize : (l.guard.reserve (unitSignal n) 1).state.marginReserved.size = min (n + 1) 128 ∧
      (l.guard.reserve (unitSignal n) 1).state.marginReserved.total = (min (n + 1) 128 : Nat) := by
    have hsz := h.size
    cases hu.2 with
    | changed v rest h₁ _ => rw [find_some_of_perm h.wf.reserved h₁] at hnone; cases hnone
    | added p hp hfree _ hlt h₁ =>
      have hmin : min n 128 = n ∧ min (n + 1) 128 = n + 1 := by omega
      constructor
      · refine hu.1.size_eq.trans (h₁.length_eq.trans ?_)
        rw [List.length_cons, ← h.wf.reserved.size_eq, hsz, hmin.1, hmin.2]
      · refine (total_cons h₁).trans ?_
        rw [h.fresh p hp hfree, h.total, hmin.1, hmin.2]
        push_cast; ring
    | lost _ hfull h₁ =>
      -- the table is full, so the write goes to the dummy
      have hmin : min n 128 = min (n + 1) 128 := by omega
      exact ⟨by rw [← hmin, ← hsz]; exact congrArg _ h₁, by rw [← hmin, ← h.total]; exact congrArg _ h₁⟩
  refine ⟨h.wf.reserve _ _, h.config_eq, h.cash, h.fresh.update h.wf.reserved _ _ _, h.used, ?_, ?_,
    hsize.1, hsize.2, ?_⟩
  · intro k hk
    rw [List.range_succ, List.map_append, List.mem_append]
    rcases List.mem_cons.mp hk with rfl | hk
    · exact .inr (List.mem_singleton_self _)
    · exact .inl (h.keys hk)
  · intro k hk
    by_cases he : k = marginKey (unitSignal n)
    · rw [he]; exact List.mem_cons_self ..
    · refine List.mem_cons_of_mem _ (h.known k ?_)
      rw [← PortfolioGuard.reservedUnder_reserve_ne (a := 1) h.wf he]
      exact hk
  · have := h.granted
    unfold committed note at *
    simp only [List.map_cons, List.sum_cons]
    push_cast
    linarith

theorem crowded_run : ∀ n, n < 10 ^ 11 →
    ∃ l, Machine.run step (start unitConfig) (unitCalls n) = some l ∧ Crowded n l
  | 0, _ => ⟨_, rfl, crowded_start⟩
  | n + 1, hn => by
    obtain ⟨l, hr, hl⟩ := crowded_run n (by omega)
    obtain ⟨l', hs, hl'⟩ := hl.call (by omega)
    refine ⟨l', ?_, hl'⟩
    rw [unitCalls, List.range_succ, List.map_append]
    exact Machine.run_trans hr (Machine.run_one hs)

/-- 130 reservations of one unit each are approved against a cash of 129. -/
theorem not_solvent : ¬ ∀ config : PortfolioConfig, 0 ≤ config.initialCash → 0 < config.maxLeverage →
    ∀ es, Machine.Always step (fun l => l.committed ≤ config.initialCash) (start config) es := by
  intro h
  obtain ⟨l, hr, hl⟩ := crowded_run 130 (by omega)
  have hle := Machine.always_iff.mp (h unitConfig (by decide +kernel) (by decide +kernel) (unitCalls 130))
    _ [] l (List.append_nil _).symm hr
  rw [hl.granted] at hle
  revert hle
  decide +kernel

end MarginLedger

end OrderExecution
