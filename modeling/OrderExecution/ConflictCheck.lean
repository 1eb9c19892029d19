import OrderExecution.ConflictResolver

/-!
# What a passed conflict check means

The loop of `check` skips a conflict that has no exchange id or no gateway, and
goes on to let the new signal through.
-/

namespace OrderExecution

inductive ResolverOp where
  | registerOrder (o : Order)
  | updateStatus (orderId : CStr 15) (status : OrderStatus)
  | check (hasGateway : Exchange → Bool) (s : Signal) (answers : List (Option CancelResult))
  | cleanup

/-- The first `n` cancels are confirmed. -/
def Confirmed (n : Nat) (answers : List (Option CancelResult)) : Prop :=
  ∀ i < n, ∃ a, answers[i]? = some (some a) ∧ a.success = true

/-- `check` sends a cancel for the entry. -/
def InFlightEntry.cancellable (e : InFlightEntry) (hasGateway : Exchange → Bool) (s : Signal) : Bool :=
  e.conflicts s ∧ !e.exchangeOrderId.isEmpty ∧ hasGateway e.exchange

def InFlightEntry.cancelled (e : InFlightEntry) : InFlightEntry := { e with status := .CANCELLED }

@[simp] theorem InFlightEntry.conflicts_cancelled (e : InFlightEntry) (s : Signal) :
    e.cancelled.conflicts s = false := by
  simp [conflicts, cancelled, isActive]

theorem confirmed_zero (answers : List (Option CancelResult)) : Confirmed 0 answers :=
  fun i hi => absurd hi (Nat.not_lt_zero i)

theorem confirmed_succ {n : Nat} {a : Option CancelResult} {answers : List (Option CancelResult)} :
    Confirmed (n + 1) (a :: answers) ↔ (∃ r, a = some r ∧ r.success = true) ∧ Confirmed n answers := by
  constructor
  · intro h
    constructor
    · simpa using h 0 (Nat.zero_lt_succ n)
    · intro i hi
      simpa using h (i + 1) (Nat.succ_lt_succ hi)
  · intro ⟨h₀, h⟩ i hi
    cases i with
    | zero => simpa using h₀
    | succ i => simpa using h i (Nat.lt_of_succ_lt_succ hi)

namespace ConflictResolver

def apply (c : ConflictResolver) : ResolverOp → ConflictResolver
  | .registerOrder o => c.registerOrder o
  | .updateStatus orderId status => c.updateStatus orderId status
  | .check hasGateway s answers => (c.check hasGateway s answers).1
  | .cleanup => c.cleanup

variable {c : ConflictResolver} {hasGateway : Exchange → Bool} {s : Signal}

theorem strategy_apply (op : ResolverOp) : (c.apply op).strategy = c.strategy := by
  cases op with
  | registerOrder o => rfl
  | updateStatus orderId status =>
    simp only [apply, updateStatus]
    split <;> rfl
  | check hasGateway s answers =>
    simp only [apply, check]
    split
    · rfl
    · split
      · rfl
      · split <;> rfl
  | cleanup => rfl

theorem strategy_foldl (ops : List ResolverOp) : (ops.foldl apply c).strategy = c.strategy := by
  induction ops generalizing c with
  | nil => rfl
  | cons op ops ih => exact ih.trans (strategy_apply op)

/-- The loop passes if and only if every cancel it sends is confirmed, and then
it has cancelled the entries it sent one for. -/
theorem cancelConflicts_spec (hasGateway : Exchange → Bool) (s : Signal) (entries : List InFlightEntry)
    (answers : List (Option CancelResult)) :
    ((cancelConflicts hasGateway s entries answers).2.canProceed = true ↔
      Confirmed (entries.filter (·.cancellable hasGateway s)).length answers) ∧
    (Confirmed (entries.filter (·.cancellable hasGateway s)).length answers →
      (cancelConflicts hasGateway s entries answers).1 =
          entries.map (fun e => if e.cancellable hasGateway s then e.cancelled else e) ∧
        (cancelConflicts hasGateway s entries answers).2.cancelledOrderIds =
          (entries.filter (·.cancellable hasGateway s)).map (·.orderId)) := by
  induction entries generalizing answers with
  | nil => exact ⟨iff_of_true rfl (confirmed_zero answers), fun _ => ⟨rfl, rfl⟩⟩
  | cons e entries ih =>
    cases hc : e.cancellable hasGateway s with
    | false =>
      have hskip : ¬ (e.conflicts s ∧ !e.exchangeOrderId.isEmpty ∧ hasGateway e.exchange) := by
        simpa [InFlightEntry.cancellable] using hc
      obtain ⟨hiff, hall⟩ := ih answers
      rw [cancelConflicts, if_neg hskip, List.filter_cons_of_neg (by simp [hc])]
      refine ⟨hiff, fun h => ?_⟩
      obtain ⟨h₁, h₂⟩ := hall h
      simp only [List.map_cons, hc, h₁, h₂, Bool.false_eq_true, ite_false, and_self]
    | true =>
      have hsend : e.conflicts s ∧ !e.exchangeOrderId.isEmpty ∧ hasGateway e.exchange := by
        simpa [InFlightEntry.cancellable] using hc
      rw [cancelConflicts, if_pos hsend, List.filter_cons_of_pos (by exact hc), List.length_cons]
      cases answers with
      | nil =>
        refine ⟨iff_of_false Bool.false_ne_true fun h => ?_, fun h => ?_⟩ <;>
          exact absurd (h 0 (Nat.zero_lt_succ _)) (by simp)
      | cons a answers =>
        rw [confirmed_succ]
        cases a with
        | none =>
          refine ⟨iff_of_false Bool.false_ne_true fun h => ?_, fun h => ?_⟩ <;> simp at h
        | some r =>
          simp only [List.head?_cons, Option.join_some, List.tail_cons]
          cases hr : r.success with
          | false =>
            refine ⟨iff_of_false Bool.false_ne_true fun h => ?_, fun h => ?_⟩ <;> simp [hr] at h
          | true =>
            obtain ⟨hiff, hall⟩ := ih answers
            rw [if_pos rfl]
            refine ⟨hiff.trans (and_iff_right ⟨r, rfl, hr⟩).symm, fun h => ?_⟩
            obtain ⟨h₁, h₂⟩ := hall h.2
            simp only [List.map_cons, hc, h₁, h₂, ite_true]
            exact ⟨rfl, trivial⟩

/-- After the check no entry stands against the signal, each that did has been
cancelled, and its gateway confirmed that. -/
structure Cleared (c : ConflictResolver) (hasGateway : Exchange → Bool) (s : Signal)
    (answers : List (Option CancelResult)) : Prop where
  none : ∀ e ∈ (c.check hasGateway s answers).1.entriesOf s.symbol, e.conflicts s = false
  cancelled : (c.check hasGateway s answers).2.cancelledOrderIds =
    ((c.entriesOf s.symbol).filter (·.conflicts s)).map (·.orderId)
  confirmed : Confirmed ((c.entriesOf s.symbol).filter (·.conflicts s)).length answers

/-- An entry that stands against the signal can be cancelled. -/
def AllCancellable (c : ConflictResolver) (hasGateway : Exchange → Bool) (s : Signal) : Prop :=
  ∀ e ∈ c.entriesOf s.symbol, e.conflicts s = true → e.cancellable hasGateway s = true

theorem check_of_clear (answers : List (Option CancelResult))
    (h : ∀ e ∈ c.entriesOf s.symbol, e.conflicts s = false) : c.check hasGateway s answers = (c, {}) := by
  unfold check
  split
  · rfl
  · next entries hl =>
    rw [lookup_eq_entriesOf hl] at h
    have hany : entries.any (·.conflicts s) = false := by
      rw [List.any_eq_false]
      intro e he
      rw [h e he]
      exact Bool.false_ne_true
    rw [hany]
    rfl

/-- With a conflict `REJECT_NEW` refuses, and the other strategies cancel. -/
theorem check_of_conflict (hasGateway : Exchange → Bool) (answers : List (Option CancelResult)) {e : InFlightEntry}
    (he : e ∈ c.entriesOf s.symbol) (hc : e.conflicts s = true) :
    (c.strategy = .REJECT_NEW → (c.check hasGateway s answers).2.canProceed = false) ∧
    (c.strategy ≠ .REJECT_NEW →
      (c.check hasGateway s answers).2 = (cancelConflicts hasGateway s (c.entriesOf s.symbol) answers).2 ∧
        (c.check hasGateway s answers).1.entriesOf s.symbol =
          (cancelConflicts hasGateway s (c.entriesOf s.symbol) answers).1) := by
  have hany : (c.entriesOf s.symbol).any (·.conflicts s) = true := List.any_eq_true.mpr ⟨e, he, hc⟩
  unfold check
  rw [lookup_of_mem_entriesOf he]
  simp only [hany, Bool.not_true, Bool.false_eq_true, ite_false]
  constructor
  · intro hr
    rw [if_pos hr]
  · intro hr
    rw [if_neg hr]
    refine ⟨rfl, ?_⟩
    rw [entriesOf_insert, if_pos rfl]

theorem cleared_of_clear (answers : List (Option CancelResult))
    (h : ∀ e ∈ c.entriesOf s.symbol, e.conflicts s = false) : c.Cleared hasGateway s answers := by
  have hnil : (c.entriesOf s.symbol).filter (·.conflicts s) = [] := by
    rw [List.filter_eq_nil_iff]
    intro e he
    rw [h e he]
    exact Bool.false_ne_true
  refine ⟨?_, ?_, ?_⟩
  · rw [check_of_clear answers h]; exact h
  · rw [check_of_clear answers h, hnil]; rfl
  · rw [hnil]; exact confirmed_zero answers

/-- The entries that a passed loop leaves stand against the signal no more if
and only if all could be cancelled. -/
theorem passed_clears_iff (entries : List InFlightEntry) :
    (∀ e ∈ entries.map (fun e => if e.cancellable hasGateway s then e.cancelled else e), e.conflicts s = false) ↔
      ∀ e ∈ entries, e.conflicts s = true → e.cancellable hasGateway s = true := by
  simp only [List.forall_mem_map]
  refine forall₂_congr fun e _ => ?_
  cases e.cancellable hasGateway s <;> simp

theorem filter_cancellable_eq {entries : List InFlightEntry}
    (h : ∀ e ∈ entries, e.conflicts s = true → e.cancellable hasGateway s = true) :
    entries.filter (·.cancellable hasGateway s) = entries.filter (·.conflicts s) := by
  apply List.filter_congr
  intro e he
  cases hc : e.conflicts s with
  | true => exact h e he hc
  | false => simp [InFlightEntry.cancellable, hc]

theorem proceeds_cleared_iff (c : ConflictResolver) (hasGateway : Exchange → Bool) (s : Signal)
    (answers : List (Option CancelResult)) :
    ((c.check hasGateway s answers).2.canProceed = true → c.Cleared hasGateway s answers) ↔
      c.strategy = .REJECT_NEW ∨ c.AllCancellable hasGateway s ∨
        ¬ Confirmed ((c.entriesOf s.symbol).filter (·.cancellable hasGateway s)).length answers := by
  by_cases hclear : ∀ e ∈ c.entriesOf s.symbol, e.conflicts s = false
  · refine iff_of_true (fun _ => cleared_of_clear answers hclear) (.inr (.inl ?_))
    intro e he hc
    rw [hclear e he] at hc
    cases hc
  · simp only [not_forall, Bool.not_eq_false] at hclear
    obtain ⟨e, he, hc⟩ := hclear
    obtain ⟨hreject, hcancel⟩ := check_of_conflict hasGateway answers he hc
    by_cases hr : c.strategy = .REJECT_NEW
    · refine iff_of_true (fun h => ?_) (.inl hr)
      rw [hreject hr] at h
      cases h
    · obtain ⟨hresult, hentries⟩ := hcancel hr
      obtain ⟨hiff, hall⟩ := cancelConflicts_spec hasGateway s (c.entriesOf s.symbol) answers
      rw [hresult, hiff, or_iff_right hr, ← imp_iff_or_not]
      refine imp_congr_right fun hconfirmed => ?_
      obtain ⟨hleft, hids⟩ := hall hconfirmed
      constructor
      · intro h
        have hnone := h.none
        rw [hentries, hleft] at hnone
        exact passed_clears_iff (c.entriesOf s.symbol) |>.mp hnone
      · intro h
        refine ⟨?_, ?_, ?_⟩
        · rw [hentries, hleft]
          exact (passed_clears_iff (c.entriesOf s.symbol)).mpr h
        · rw [hresult, hids, filter_cancellable_eq h]
        · rw [← filter_cancellable_eq h]
          exact hconfirmed

end ConflictResolver

open ConflictResolver

/-- In every state of the register, permission to proceed means that no opposite
order is live if and only if the strategy rejects, or every opposite order has
an exchange id and a gateway, or a cancel that was sent is not confirmed. -/
theorem proceed_clears_iff (strategy : ConflictStrategy) (ops : List ResolverOp) (hasGateway : Exchange → Bool)
    (s : Signal) (answers : List (Option CancelResult)) :
    let c : ConflictResolver := ops.foldl ConflictResolver.apply { strategy := strategy }
    ((c.check hasGateway s answers).2.canProceed = true → c.Cleared hasGateway s answers) ↔
      strategy = .REJECT_NEW ∨ c.AllCancellable hasGateway s ∨
        ¬ Confirmed ((c.entriesOf s.symbol).filter (·.cancellable hasGateway s)).length answers := by
  intro c
  have hs : c.strategy = strategy := strategy_foldl ops
  rw [← hs]
  exact c.proceeds_cleared_iff hasGateway s answers

namespace Sample

/-- An order as `process_single_leg` registers it: it has no exchange id yet. -/
def registered : Order :=
  { orderId := storedOrderId 1, signal := { symbol := .copy 15 (lit "ETH"), side := .BUY }, status := .SENT }

end Sample

/-- The order is not acknowledged, the new signal goes the other way and proceeds. -/
theorem not_proceed_clears : ¬ ∀ strategy : ConflictStrategy,
    strategy = .CANCEL_AND_REPLACE ∨ strategy = .REJECT_NEW →
      ∀ (ops : List ResolverOp) (hasGateway : Exchange → Bool) (s : Signal) (answers : List (Option CancelResult)),
        let c : ConflictResolver := ops.foldl ConflictResolver.apply { strategy := strategy }
        (c.check hasGateway s answers).2.canProceed = true → c.Cleared hasGateway s answers := by
  intro h
  have hc := h .CANCEL_AND_REPLACE (.inl rfl) [.registerOrder Sample.registered] (fun _ => true)
    { Sample.registered.signal with side := .SELL } [] (by decide +kernel)
  have he := hc.none Sample.registered.entry (by decide +kernel)
  revert he
  decide +kernel

end OrderExecution
