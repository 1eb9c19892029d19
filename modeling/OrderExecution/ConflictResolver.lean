import OrderExecution.Model
import Mathlib.Data.List.AList

/-!
# `ConflictResolver`

The register of orders in flight, by symbol, and the check of a new signal
against it. A gateway answers each cancel, or does not answer within 500 ms;
the answers come from outside, in the order of the cancels.
-/

namespace OrderExecution

inductive ConflictStrategy where
  | CANCEL_AND_REPLACE
  | REJECT_NEW
  | QUEUE
  deriving DecidableEq

structure ConflictResult where
  canProceed : Bool := true
  reason : CStr 127 := .empty
  cancelledOrderIds : List (CStr 15) := []
  deriving DecidableEq

structure InFlightEntry where
  orderId : CStr 15
  exchangeOrderId : CStr 31
  side : Side
  exchange : Exchange
  status : OrderStatus
  deriving DecidableEq

/-- `std::unordered_map<std::string, std::vector<InFlightEntry>>` -/
abbrev InFlight := AList fun _ : CStr 15 => List InFlightEntry

structure ConflictResolver where
  strategy : ConflictStrategy := .CANCEL_AND_REPLACE
  inFlight : InFlight := ∅

def isActive : OrderStatus → Bool
  | .SENT | .TX_PENDING | .ACKNOWLEDGED | .TX_CONFIRMED => true
  | _ => false

/-- The entry stands against a new signal for its symbol. -/
def InFlightEntry.conflicts (e : InFlightEntry) (s : Signal) : Bool := e.side ≠ s.side ∧ isActive e.status

/-- The entry that `register_order` makes. -/
def Order.entry (o : Order) : InFlightEntry :=
  { orderId := o.orderId, exchangeOrderId := o.exchangeOrderId, side := o.signal.side,
    exchange := o.signal.exchange, status := o.status }

namespace ConflictResolver

/-- The entries under a symbol. -/
def entriesOf (c : ConflictResolver) (symbol : CStr 15) : List InFlightEntry :=
  (c.inFlight.lookup symbol).getD []

def registerOrder (c : ConflictResolver) (o : Order) : ConflictResolver :=
  { c with inFlight := c.inFlight.insert o.signal.symbol (c.entriesOf o.signal.symbol ++ [o.entry]) }

/-- `"conflict: cancel of <id> failed, rejecting new signal"`, or `timed out` -/
def cancelReason (orderId : CStr 15) (what : Bytes) : CStr 127 :=
  .copy 127 (lit "conflict: cancel of " ++ orderId.bytes ++ what ++ lit ", rejecting new signal")

/-- The loop over the conflicts: `none` in `answers` is a cancel that times out. -/
def cancelConflicts (hasGateway : Exchange → Bool) (s : Signal) :
    List InFlightEntry → List (Option CancelResult) → List InFlightEntry × ConflictResult
  | [], _ => ([], {})
  | e :: entries, answers =>
    if e.conflicts s ∧ !e.exchangeOrderId.isEmpty ∧ hasGateway e.exchange then
      match answers.head?.join with
      | none => (e :: entries, { canProceed := false, reason := cancelReason e.orderId (lit " timed out") })
      | some answer =>
        if answer.success then
          let r := cancelConflicts hasGateway s entries answers.tail
          ({ e with status := .CANCELLED } :: r.1,
            { r.2 with cancelledOrderIds := e.orderId :: r.2.cancelledOrderIds })
        else (e :: entries, { canProceed := false, reason := cancelReason e.orderId (lit " failed") })
    else
      let r := cancelConflicts hasGateway s entries answers
      (e :: r.1, r.2)

def check (c : ConflictResolver) (hasGateway : Exchange → Bool) (s : Signal)
    (answers : List (Option CancelResult)) : ConflictResolver × ConflictResult :=
  match c.inFlight.lookup s.symbol with
  | none => (c, {})
  | some entries =>
    if !entries.any (·.conflicts s) then (c, {})
    else if c.strategy = .REJECT_NEW then
      (c, { canProceed := false,
            reason := .copy 127 (lit "conflict: opposite-side order in-flight for " ++ s.symbol.bytes) })
    else
      let r := cancelConflicts hasGateway s entries answers
      ({ c with inFlight := c.inFlight.insert s.symbol r.1 }, r.2)

/-- The first entry of an order, with a new status. -/
def setStatus (orderId : CStr 15) (status : OrderStatus) : List InFlightEntry → List InFlightEntry
  | [] => []
  | e :: entries =>
    if e.orderId = orderId then { e with status := status } :: entries
    else e :: setStatus orderId status entries

/-- The map is searched in its unspecified order. -/
def updateStatus (c : ConflictResolver) (orderId : CStr 15) (status : OrderStatus) : ConflictResolver :=
  match c.inFlight.entries.find? fun x => x.2.any (·.orderId = orderId) with
  | none => c
  | some x => { c with inFlight := c.inFlight.insert x.1 (setStatus orderId status x.2) }

/-- `cleanup()` -/
def cleanup (c : ConflictResolver) : ConflictResolver where
  strategy := c.strategy
  inFlight := {
    entries := c.inFlight.entries.map fun x => ⟨x.1, x.2.filter fun e => !isTerminal e.status⟩
    nodupKeys := by
      have hkeys : (c.inFlight.entries.map fun x => (⟨x.1, x.2.filter fun e => !isTerminal e.status⟩ :
          Sigma fun _ : CStr 15 => List InFlightEntry)).keys = c.inFlight.entries.keys := by
        simp [List.keys, List.map_map, Function.comp_def]
      unfold List.NodupKeys
      rw [hkeys]
      exact c.inFlight.nodupKeys }

/-! ## What the calls do to the entries -/

section
variable {c : ConflictResolver}

theorem isActive_eq : isActive = isInFlight := by
  funext s
  cases s <;> rfl

theorem lookup_eq_entriesOf {symbol : CStr 15} {entries : List InFlightEntry}
    (h : c.inFlight.lookup symbol = some entries) : c.entriesOf symbol = entries := by
  rw [entriesOf, h, Option.getD_some]

theorem entriesOf_insert (symbol y : CStr 15) (entries : List InFlightEntry) :
    entriesOf { c with inFlight := c.inFlight.insert symbol entries } y =
      if y = symbol then entries else c.entriesOf y := by
  unfold entriesOf
  by_cases h : y = symbol
  · subst h
    rw [if_pos rfl, AList.lookup_insert, Option.getD_some]
  · rw [if_neg h, AList.lookup_insert_ne h]

theorem entriesOf_registerOrder (o : Order) (y : CStr 15) : (c.registerOrder o).entriesOf y =
    if y = o.signal.symbol then c.entriesOf y ++ [o.entry] else c.entriesOf y := by
  rw [registerOrder, entriesOf_insert]
  by_cases h : y = o.signal.symbol
  · rw [if_pos h, if_pos h, h]
  · rw [if_neg h, if_neg h]

theorem mem_setStatus {orderId : CStr 15} {status : OrderStatus} {e : InFlightEntry} :
    ∀ {entries : List InFlightEntry}, e ∈ setStatus orderId status entries →
      e ∈ entries ∨ ∃ e₀ ∈ entries, e₀.orderId = orderId ∧ e = { e₀ with status := status }
  | [], h => by cases h
  | a :: entries, h => by
    unfold setStatus at h
    split at h
    · next ha =>
      rcases List.mem_cons.mp h with rfl | h
      · exact .inr ⟨a, List.mem_cons_self .., ha, rfl⟩
      · exact .inl (List.mem_cons_of_mem _ h)
    · rcases List.mem_cons.mp h with rfl | h
      · exact .inl (List.mem_cons_self ..)
      · rcases mem_setStatus h with h | ⟨e₀, h₀, hid, rfl⟩
        · exact .inl (List.mem_cons_of_mem _ h)
        · exact .inr ⟨e₀, List.mem_cons_of_mem _ h₀, hid, rfl⟩

theorem mem_setStatus_of_ne {orderId : CStr 15} {status : OrderStatus} {e : InFlightEntry}
    (hne : e.orderId ≠ orderId) : ∀ {entries : List InFlightEntry}, e ∈ entries →
      e ∈ setStatus orderId status entries
  | [], h => by cases h
  | a :: entries, h => by
    unfold setStatus
    rcases List.mem_cons.mp h with rfl | h
    · rw [if_neg hne]; exact List.mem_cons_self ..
    · split
      · exact List.mem_cons_of_mem _ h
      · exact List.mem_cons_of_mem _ (mem_setStatus_of_ne hne h)

theorem updateStatus_cases (c : ConflictResolver) (orderId : CStr 15) (status : OrderStatus) :
    c.updateStatus orderId status = c ∨ ∃ symbol entries, c.inFlight.lookup symbol = some entries ∧
      c.updateStatus orderId status =
        { c with inFlight := c.inFlight.insert symbol (setStatus orderId status entries) } := by
  unfold updateStatus
  split
  · exact .inl rfl
  · next x hx => exact .inr ⟨x.1, x.2, AList.mem_lookup_iff.mpr (List.mem_of_find?_eq_some hx), rfl⟩

theorem mem_updateStatus {orderId : CStr 15} {status : OrderStatus} {y : CStr 15} {e : InFlightEntry}
    (h : e ∈ (c.updateStatus orderId status).entriesOf y) :
    e ∈ c.entriesOf y ∨ ∃ e₀ ∈ c.entriesOf y, e₀.orderId = orderId ∧ e = { e₀ with status := status } := by
  rcases c.updateStatus_cases orderId status with he | ⟨symbol, entries, hl, he⟩
  · exact .inl (he ▸ h)
  · rw [he, entriesOf_insert] at h
    split at h
    · next hy =>
      rw [hy, lookup_eq_entriesOf hl]
      exact mem_setStatus h
    · exact .inl h

theorem mem_updateStatus_of_ne {orderId : CStr 15} (status : OrderStatus) {y : CStr 15} {e : InFlightEntry}
    (hne : e.orderId ≠ orderId) (h : e ∈ c.entriesOf y) :
    e ∈ (c.updateStatus orderId status).entriesOf y := by
  rcases c.updateStatus_cases orderId status with he | ⟨symbol, entries, hl, he⟩
  · rw [he]; exact h
  · rw [he, entriesOf_insert]
    split
    · next hy =>
      rw [hy, lookup_eq_entriesOf hl] at h
      exact mem_setStatus_of_ne hne h
    · exact h

theorem map_orderId_setStatus (orderId : CStr 15) (status : OrderStatus) (entries : List InFlightEntry) :
    (setStatus orderId status entries).map (·.orderId) = entries.map (·.orderId) := by
  induction entries with
  | nil => rfl
  | cons a entries ih =>
    unfold setStatus
    split
    · rfl
    · rw [List.map_cons, List.map_cons, ih]

theorem status_of_mem_setStatus {orderId : CStr 15} {status : OrderStatus} {e : InFlightEntry} :
    ∀ {entries : List InFlightEntry}, (entries.map (·.orderId)).Nodup → e ∈ setStatus orderId status entries →
      e.orderId = orderId → e.status = status
  | [], _, h, _ => by cases h
  | a :: entries, hnd, h, he => by
    rw [List.map_cons, List.nodup_cons] at hnd
    unfold setStatus at h
    split at h
    · next ha =>
      rcases List.mem_cons.mp h with rfl | h
      · rfl
      · exact absurd (List.mem_map.mpr ⟨e, h, he.trans ha.symm⟩) hnd.1
    · next ha =>
      rcases List.mem_cons.mp h with rfl | h
      · exact absurd he ha
      · exact status_of_mem_setStatus hnd.2 h he

theorem orderIds_updateStatus (orderId : CStr 15) (status : OrderStatus) (y : CStr 15) :
    ((c.updateStatus orderId status).entriesOf y).map (·.orderId) = (c.entriesOf y).map (·.orderId) := by
  rcases c.updateStatus_cases orderId status with he | ⟨symbol, entries, hl, he⟩
  · rw [he]
  · rw [he, entriesOf_insert]
    split
    · next hy => rw [map_orderId_setStatus, hy, lookup_eq_entriesOf hl]
    · rfl

theorem lookup_of_mem_entriesOf {y : CStr 15} {e : InFlightEntry} (h : e ∈ c.entriesOf y) :
    c.inFlight.lookup y = some (c.entriesOf y) := by
  unfold entriesOf at *
  cases hl : c.inFlight.lookup y with
  | none => rw [hl] at h; cases h
  | some entries => rfl

theorem status_of_mem_updateStatus {orderId : CStr 15} {status : OrderStatus} {y₀ : CStr 15}
    (hone : ∀ y, ∀ e ∈ c.entriesOf y, e.orderId = orderId → y = y₀)
    (hnd : ∀ y, ((c.entriesOf y).map (·.orderId)).Nodup) {y : CStr 15} {e : InFlightEntry}
    (h : e ∈ (c.updateStatus orderId status).entriesOf y) (he : e.orderId = orderId) : e.status = status := by
  unfold updateStatus at h
  split at h
  · next hnone =>
    have hm := AList.mem_lookup_iff.mp (lookup_of_mem_entriesOf h)
    have := List.find?_eq_none.mp hnone _ hm
    exact absurd (List.any_eq_true.mpr ⟨e, h, by simpa using he⟩) this
  · next x hx =>
    have hl := lookup_eq_entriesOf (AList.mem_lookup_iff.mpr (List.mem_of_find?_eq_some hx))
    rw [entriesOf_insert] at h
    split at h
    · exact status_of_mem_setStatus (hl ▸ hnd x.1) h he
    · next hy =>
      have hany := List.find?_some hx
      simp only [List.any_eq_true, decide_eq_true_eq] at hany
      obtain ⟨e', he', hid⟩ := hany
      have hx₀ : x.1 = y₀ := hone x.1 e' (by rw [hl]; exact he') hid
      exact absurd ((hone y e h he).trans hx₀.symm) hy

/-- No entry has an exchange id. -/
def Unnamed (c : ConflictResolver) : Prop := ∀ y, ∀ e ∈ c.entriesOf y, e.exchangeOrderId.isEmpty = true

theorem unnamed_init (strategy : ConflictStrategy) : Unnamed { strategy := strategy } := by
  intro y e he
  cases he

theorem Unnamed.registerOrder (h : c.Unnamed) {o : Order} (ho : o.exchangeOrderId.isEmpty = true) :
    (c.registerOrder o).Unnamed := by
  intro y e he
  rw [entriesOf_registerOrder] at he
  split at he
  · rcases List.mem_append.mp he with he | he
    · exact h y e he
    · rw [List.mem_singleton.mp he]; exact ho
  · exact h y e he

theorem Unnamed.updateStatus (h : c.Unnamed) (orderId : CStr 15) (status : OrderStatus) :
    (c.updateStatus orderId status).Unnamed := by
  intro y e he
  rcases mem_updateStatus he with he | ⟨e₀, he₀, -, rfl⟩
  · exact h y e he
  · exact h y e₀ he₀

theorem cancelConflicts_unnamed (hasGateway : Exchange → Bool) (s : Signal)
    (answers : List (Option CancelResult)) : ∀ {entries : List InFlightEntry},
      (∀ e ∈ entries, e.exchangeOrderId.isEmpty = true) →
        cancelConflicts hasGateway s entries answers = (entries, {})
  | [], _ => rfl
  | e :: entries, h => by
    have ih := cancelConflicts_unnamed hasGateway s answers fun e he => h e (List.mem_cons_of_mem _ he)
    unfold cancelConflicts
    rw [if_neg (by simp [h e (List.mem_cons_self ..)]), ih]

theorem Unnamed.entriesOf_check (h : c.Unnamed) (hasGateway : Exchange → Bool) (s : Signal)
    (answers : List (Option CancelResult)) (y : CStr 15) :
    (c.check hasGateway s answers).1.entriesOf y = c.entriesOf y := by
  unfold ConflictResolver.check
  split
  · rfl
  · next entries hl =>
    split
    · rfl
    · split
      · rfl
      · have hc := cancelConflicts_unnamed hasGateway s answers fun e he =>
          h s.symbol e (by rw [lookup_eq_entriesOf hl]; exact he)
        simp only [hc]
        rw [entriesOf_insert]
        split
        · next hy => rw [hy, lookup_eq_entriesOf hl]
        · rfl

theorem Unnamed.check (h : c.Unnamed) (hs : c.strategy ≠ .REJECT_NEW) (hasGateway : Exchange → Bool)
    (s : Signal) (answers : List (Option CancelResult)) :
    (c.check hasGateway s answers).2 = {} ∧
      ∀ y, (c.check hasGateway s answers).1.entriesOf y = c.entriesOf y := by
  refine ⟨?_, h.entriesOf_check hasGateway s answers⟩
  unfold ConflictResolver.check
  split
  · rfl
  · next entries hl =>
    split
    · rfl
    · have hc := cancelConflicts_unnamed hasGateway s answers fun e he =>
        h s.symbol e (by rw [lookup_eq_entriesOf hl]; exact he)
      simp only [hc]

end

end ConflictResolver

end OrderExecution
