import OrderExecution.ConflictCheck
import OrderExecution.Machine

/-!
# `cleanup` is unobservable

An entry whose status is terminal stands against no signal, so the register
answers the same with and without it. What has to agree are the live entries
under each symbol, in their order.
-/

namespace OrderExecution

open Machine

/-- The entry stays when the register is cleaned up. -/
def InFlightEntry.isLive (e : InFlightEntry) : Bool := !isTerminal e.status

namespace ConflictResolver

/-- The calls of `cancel_order` that the loop over the conflicts makes: the
exchange of each gateway, and the id it is given. -/
def conflictCancels (hasGateway : Exchange → Bool) (s : Signal) :
    List InFlightEntry → List (Option CancelResult) → List (Exchange × CStr 31)
  | [], _ => []
  | e :: entries, answers =>
    if e.conflicts s ∧ !e.exchangeOrderId.isEmpty ∧ hasGateway e.exchange then
      (e.exchange, e.exchangeOrderId) :: match answers.head?.join with
        | none => []
        | some answer => if answer.success then conflictCancels hasGateway s entries answers.tail else []
    else conflictCancels hasGateway s entries answers

/-- The calls of `cancel_order` that `check` makes. -/
def checkCancels (c : ConflictResolver) (hasGateway : Exchange → Bool) (s : Signal)
    (answers : List (Option CancelResult)) : List (Exchange × CStr 31) :=
  match c.inFlight.lookup s.symbol with
  | none => []
  | some entries =>
    if !entries.any (·.conflicts s) then []
    else if c.strategy = .REJECT_NEW then []
    else conflictCancels hasGateway s entries answers

/-- A call of the register, and what its caller and the gateways see of it. -/
def observe (c : ConflictResolver) :
    ResolverOp → ConflictResolver × Option (ConflictResult × List (Exchange × CStr 31))
  | .check hasGateway s answers =>
    (c.apply (.check hasGateway s answers),
      some ((c.check hasGateway s answers).2, c.checkCancels hasGateway s answers))
  | op => (c.apply op, none)

/-- The order ids under a symbol. -/
def ids (c : ConflictResolver) (y : CStr 15) : List (CStr 15) := (c.entriesOf y).map (·.orderId)

/-- No order id is in the register twice. -/
structure Unique (c : ConflictResolver) : Prop where
  nodup : ∀ y, (c.ids y).Nodup
  one : ∀ y y' id, id ∈ c.ids y → id ∈ c.ids y' → y = y'

/-- The live entries under a symbol. -/
def live (c : ConflictResolver) (y : CStr 15) : List InFlightEntry := (c.entriesOf y).filter (·.isLive)

section
variable {c : ConflictResolver} {hasGateway : Exchange → Bool} {s : Signal}

/-! ## What each call does to the live entries -/

theorem not_conflicts_of_not_live {e : InFlightEntry} (h : e.isLive = false) (s : Signal) :
    e.conflicts s = false := by
  have hactive : isActive e.status = false := by
    unfold InFlightEntry.isLive at h
    cases hs : e.status <;> rw [hs] at h <;> first | rfl | cases h
  simp [InFlightEntry.conflicts, hactive]

theorem entriesOf_cleanup (c : ConflictResolver) (y : CStr 15) : c.cleanup.entriesOf y = c.live y := by
  have hl : c.cleanup.inFlight.lookup y =
      (c.inFlight.lookup y).map (List.filter fun e => !isTerminal e.status) :=
    List.dlookup_map₂ (f := fun _ l => List.filter (fun e : InFlightEntry => !isTerminal e.status) l) y
  unfold live entriesOf
  rw [hl]
  cases c.inFlight.lookup y <;> rfl

theorem live_cleanup (c : ConflictResolver) (y : CStr 15) : c.cleanup.live y = c.live y := by
  unfold live
  rw [entriesOf_cleanup, live, List.filter_filter]
  simp

theorem live_registerOrder (o : Order) (y : CStr 15) :
    (c.registerOrder o).live y = c.live y ++ if y = o.signal.symbol then [o.entry].filter (·.isLive) else [] := by
  unfold live
  rw [entriesOf_registerOrder]
  split
  · rw [List.filter_append]
  · rw [List.append_nil]

theorem filter_setStatus {orderId : CStr 15} {status : OrderStatus} (hstatus : isTerminal status = true)
    {entries : List InFlightEntry} (hnd : (entries.map (·.orderId)).Nodup) :
    (setStatus orderId status entries).filter (·.isLive) =
      (entries.filter (·.isLive)).filter (·.orderId ≠ orderId) := by
  induction entries with
  | nil => rfl
  | cons a entries ih =>
    rw [List.map_cons, List.nodup_cons] at hnd
    unfold setStatus
    split
    · next ha =>
      have hrest : ∀ e ∈ entries.filter (·.isLive), e.orderId ≠ orderId := by
        intro e he heq
        exact hnd.1 (List.mem_map.mpr ⟨e, (List.mem_filter.mp he).1, heq.trans ha.symm⟩)
      have hgone : ({ a with status := status } : InFlightEntry).isLive = false := by
        simp [InFlightEntry.isLive, hstatus]
      have hall : (entries.filter (·.isLive)).filter (·.orderId ≠ orderId) = entries.filter (·.isLive) :=
        List.filter_eq_self.mpr fun e he => decide_eq_true (hrest e he)
      rw [List.filter_cons_of_neg (by rw [hgone]; exact Bool.false_ne_true), ← hall]
      cases hl : a.isLive with
      | false => rw [List.filter_cons_of_neg (by simp [hl]), hall]
      | true => rw [List.filter_cons_of_pos (by exact hl), List.filter_cons_of_neg (by simp [ha]), hall]
    · next ha =>
      cases hl : a.isLive with
      | false => rw [List.filter_cons_of_neg (by simp [hl]), List.filter_cons_of_neg (by simp [hl]), ih hnd.2]
      | true =>
        rw [List.filter_cons_of_pos (by exact hl), List.filter_cons_of_pos (by exact hl),
          List.filter_cons_of_pos (by simp [ha]), ih hnd.2]

/-- A terminal status takes the order out of the live entries. -/
theorem live_updateStatus (hu : c.Unique) (orderId : CStr 15) {status : OrderStatus}
    (hstatus : isTerminal status = true) (y : CStr 15) :
    (c.updateStatus orderId status).live y = (c.live y).filter (·.orderId ≠ orderId) := by
  have hnone : orderId ∉ c.ids y → (c.live y).filter (·.orderId ≠ orderId) = c.live y := by
    intro hid
    refine List.filter_eq_self.mpr fun e he => decide_eq_true fun heq => hid ?_
    exact List.mem_map.mpr ⟨e, (List.mem_filter.mp he).1, heq⟩
  unfold updateStatus
  split
  · next hnot =>
    refine (hnone fun hid => ?_).symm
    obtain ⟨e, he, heq⟩ := List.mem_map.mp hid
    have hm := AList.mem_lookup_iff.mp (lookup_of_mem_entriesOf he)
    refine List.find?_eq_none.mp hnot _ hm (List.any_eq_true.mpr ⟨e, he, by simpa using heq⟩)
  · next x hx =>
    have hl := lookup_eq_entriesOf (AList.mem_lookup_iff.mpr (List.mem_of_find?_eq_some hx))
    unfold live
    rw [entriesOf_insert]
    split
    · next hy =>
      rw [hy, hl, filter_setStatus hstatus (hl ▸ hu.nodup x.1)]
    · next hy =>
      refine (hnone fun hid => hy ?_).symm
      have hany := List.find?_some hx
      simp only [List.any_eq_true, decide_eq_true_eq] at hany
      obtain ⟨e, he, heq⟩ := hany
      exact hu.one y x.1 orderId hid (List.mem_map.mpr ⟨e, by rw [hl]; exact he, heq⟩)

/-! ## The conflict check reads the live entries only -/

/-- What the loop over the conflicts returns and calls is decided by the live
entries, and so are the live entries it leaves. -/
theorem cancelConflicts_live (hasGateway : Exchange → Bool) (s : Signal) (entries : List InFlightEntry)
    (answers : List (Option CancelResult)) :
    (cancelConflicts hasGateway s entries answers).2 =
        (cancelConflicts hasGateway s (entries.filter (·.isLive)) answers).2 ∧
      (cancelConflicts hasGateway s entries answers).1.filter (·.isLive) =
        (cancelConflicts hasGateway s (entries.filter (·.isLive)) answers).1.filter (·.isLive) ∧
      conflictCancels hasGateway s entries answers =
        conflictCancels hasGateway s (entries.filter (·.isLive)) answers := by
  induction entries generalizing answers with
  | nil => exact ⟨rfl, rfl, rfl⟩
  | cons e entries ih =>
    cases hl : e.isLive with
    | false =>
      have hskip : ¬ (e.conflicts s ∧ !e.exchangeOrderId.isEmpty ∧ hasGateway e.exchange) := by
        simp [not_conflicts_of_not_live hl]
      obtain ⟨h₁, h₂, h₃⟩ := ih answers
      rw [List.filter_cons_of_neg (by simp [hl]), cancelConflicts, conflictCancels, if_neg hskip, if_neg hskip]
      refine ⟨h₁, ?_, h₃⟩
      rw [List.filter_cons_of_neg (by simp [hl]), h₂]
    | true =>
      have hsame : (e :: entries).filter (·.isLive) = (e :: entries.filter (·.isLive)).filter (·.isLive) := by
        rw [List.filter_cons_of_pos (by exact hl), List.filter_cons_of_pos (by exact hl), List.filter_filter]
        simp
      rw [List.filter_cons_of_pos (by exact hl), cancelConflicts, cancelConflicts, conflictCancels, conflictCancels]
      split
      · cases answers.head?.join with
        | none => exact ⟨rfl, hsame, rfl⟩
        | some answer =>
          cases hs : answer.success with
          | false =>
            simp only [hs, Bool.false_eq_true, ite_false]
            exact ⟨trivial, hsame, trivial⟩
          | true =>
            obtain ⟨h₁, h₂, h₃⟩ := ih answers.tail
            have hgone : ({ e with status := .CANCELLED } : InFlightEntry).isLive = false := rfl
            simp only [hs, ite_true]
            refine ⟨by rw [h₁], ?_, by rw [h₃]⟩
            rw [List.filter_cons_of_neg (by rw [hgone]; exact Bool.false_ne_true),
              List.filter_cons_of_neg (by rw [hgone]; exact Bool.false_ne_true), h₂]
      · obtain ⟨h₁, h₂, h₃⟩ := ih answers
        refine ⟨h₁, ?_, h₃⟩
        rw [List.filter_cons_of_pos (by exact hl), List.filter_cons_of_pos (by exact hl), h₂]

theorem any_conflicts_live (s : Signal) (entries : List InFlightEntry) :
    entries.any (·.conflicts s) = (entries.filter (·.isLive)).any (·.conflicts s) := by
  rw [List.any_filter]
  congr 1
  funext e
  cases hl : e.isLive with
  | false => rw [not_conflicts_of_not_live hl, Bool.false_and]
  | true => rw [Bool.true_and]

/-- `check`, whether the symbol has a list or not. -/
theorem check_eq (c : ConflictResolver) (hasGateway : Exchange → Bool) (s : Signal)
    (answers : List (Option CancelResult)) : c.check hasGateway s answers =
      if !(c.entriesOf s.symbol).any (·.conflicts s) then (c, {})
      else if c.strategy = .REJECT_NEW then
        (c, { canProceed := false,
              reason := .copy 127 (lit "conflict: opposite-side order in-flight for " ++ s.symbol.bytes) })
      else
        ({ c with
            inFlight := c.inFlight.insert s.symbol (cancelConflicts hasGateway s (c.entriesOf s.symbol) answers).1 },
          (cancelConflicts hasGateway s (c.entriesOf s.symbol) answers).2) := by
  unfold check entriesOf
  cases c.inFlight.lookup s.symbol <;> rfl

theorem checkCancels_eq (c : ConflictResolver) (hasGateway : Exchange → Bool) (s : Signal)
    (answers : List (Option CancelResult)) : c.checkCancels hasGateway s answers =
      if !(c.entriesOf s.symbol).any (·.conflicts s) then []
      else if c.strategy = .REJECT_NEW then []
      else conflictCancels hasGateway s (c.entriesOf s.symbol) answers := by
  unfold checkCancels entriesOf
  cases c.inFlight.lookup s.symbol <;> rfl

theorem orderIds_cancelConflicts (hasGateway : Exchange → Bool) (s : Signal) (entries : List InFlightEntry)
    (answers : List (Option CancelResult)) :
    (cancelConflicts hasGateway s entries answers).1.map (·.orderId) = entries.map (·.orderId) := by
  induction entries generalizing answers with
  | nil => rfl
  | cons e entries ih =>
    rw [cancelConflicts]
    split
    · cases answers.head?.join with
      | none => rfl
      | some answer =>
        simp only
        split
        · rw [List.map_cons, List.map_cons, ih]
        · rfl
    · rw [List.map_cons, List.map_cons, ih]

/-! ## No order id is in the register twice -/

theorem ids_check (c : ConflictResolver) (hasGateway : Exchange → Bool) (s : Signal)
    (answers : List (Option CancelResult)) (y : CStr 15) : (c.check hasGateway s answers).1.ids y = c.ids y := by
  rw [check_eq]
  split
  · rfl
  · split
    · rfl
    · unfold ids
      rw [entriesOf_insert]
      split
      · next hy => rw [orderIds_cancelConflicts, hy]
      · rfl

theorem ids_registerOrder (o : Order) (y : CStr 15) :
    (c.registerOrder o).ids y = c.ids y ++ if y = o.signal.symbol then [o.orderId] else [] := by
  unfold ids
  rw [entriesOf_registerOrder]
  split
  · rw [List.map_append]; rfl
  · rw [List.append_nil]

theorem Unique.of_ids {c' : ConflictResolver} (hu : c.Unique) (h : ∀ y, c'.ids y = c.ids y) : c'.Unique where
  nodup := fun y => h y ▸ hu.nodup y
  one := fun y y' id hid hid' => hu.one y y' id (h y ▸ hid) (h y' ▸ hid')

theorem Unique.cleanup (hu : c.Unique) : c.cleanup.Unique := by
  have hsub : ∀ y, (c.cleanup.ids y).Sublist (c.ids y) := by
    intro y
    unfold ids
    rw [entriesOf_cleanup]
    exact List.filter_sublist.map _
  exact ⟨fun y => (hu.nodup y).sublist (hsub y),
    fun y y' id hid hid' => hu.one y y' id ((hsub y).subset hid) ((hsub y').subset hid')⟩

theorem Unique.registerOrder (hu : c.Unique) {o : Order} (hnew : ∀ y, o.orderId ∉ c.ids y) :
    (c.registerOrder o).Unique := by
  have hmem : ∀ {y id}, id ∈ (c.registerOrder o).ids y → id ∈ c.ids y ∨ y = o.signal.symbol ∧ id = o.orderId := by
    intro y id hid
    rw [ids_registerOrder] at hid
    rcases List.mem_append.mp hid with hid | hid
    · exact .inl hid
    · split at hid
      · next hy => exact .inr ⟨hy, List.mem_singleton.mp hid⟩
      · cases hid
  constructor
  · intro y
    rw [ids_registerOrder]
    split
    · rw [List.nodup_append_comm]
      exact List.nodup_cons.mpr ⟨hnew y, hu.nodup y⟩
    · rw [List.append_nil]; exact hu.nodup y
  · intro y y' id hid hid'
    rcases hmem hid with hid | ⟨hy, rfl⟩
    · rcases hmem hid' with hid' | ⟨-, rfl⟩
      · exact hu.one y y' id hid hid'
      · exact absurd hid (hnew y)
    · rcases hmem hid' with hid' | ⟨hy', -⟩
      · exact absurd hid' (hnew y')
      · rw [hy, hy']

end

/-! ## Two registers with the same live entries -/

/-- The order ids that the calls register. -/
def registered : List ResolverOp → List (CStr 15)
  | [] => []
  | .registerOrder o :: ops => o.orderId :: registered ops
  | .updateStatus _ _ :: ops | .check _ _ _ :: ops | .cleanup :: ops => registered ops

/-- The calls register ids that are new, each once. -/
structure Fresh (c : ConflictResolver) (ops : List ResolverOp) : Prop where
  nodup : (registered ops).Nodup
  new : ∀ id ∈ registered ops, ∀ y, id ∉ c.ids y

section
variable {c c' : ConflictResolver} {op : ResolverOp} {ops : List ResolverOp}

theorem mem_ids_apply {y id : CStr 15} (h : id ∈ (c.apply op).ids y) : id ∈ c.ids y ∨ id ∈ registered [op] := by
  cases op with
  | registerOrder o =>
    rw [apply, ids_registerOrder] at h
    rcases List.mem_append.mp h with h | h
    · exact .inl h
    · split at h
      · exact .inr h
      · cases h
  | updateStatus orderId status =>
    unfold ids at h
    rw [apply, orderIds_updateStatus] at h
    exact .inl h
  | check hasGateway s answers => exact .inl (c.ids_check hasGateway s answers y ▸ h)
  | cleanup =>
    obtain ⟨e, he, rfl⟩ := List.mem_map.mp h
    rw [apply, entriesOf_cleanup] at he
    exact .inl (List.mem_map.mpr ⟨e, (List.mem_filter.mp he).1, rfl⟩)

theorem registered_cons (op : ResolverOp) (ops : List ResolverOp) :
    registered (op :: ops) = registered [op] ++ registered ops := by
  cases op <;> rfl

theorem Fresh.apply (h : c.Fresh (op :: ops)) : (c.apply op).Fresh ops := by
  obtain ⟨hnd, hnew⟩ := h
  rw [registered_cons] at hnd hnew
  refine ⟨(List.nodup_append.mp hnd).2.1, fun id hid y hmem => ?_⟩
  rcases mem_ids_apply hmem with hmem | hmem
  · exact hnew id (List.mem_append_right _ hid) y hmem
  · exact (List.nodup_append.mp hnd).2.2 id hmem id hid rfl

theorem Unique.apply (hu : c.Unique) (h : c.Fresh (op :: ops)) : (c.apply op).Unique := by
  cases op with
  | registerOrder o => exact hu.registerOrder (h.new o.orderId (List.mem_cons_self ..))
  | updateStatus orderId status => exact hu.of_ids (orderIds_updateStatus orderId status)
  | check hasGateway s answers => exact hu.of_ids (c.ids_check hasGateway s answers)
  | cleanup => exact hu.cleanup

/-- No order is twice in the register, or will be. -/
structure Tidy (c : ConflictResolver) (ops : List ResolverOp) : Prop where
  unique : c.Unique
  fresh : c.Fresh ops

theorem Tidy.apply (h : c.Tidy (op :: ops)) : (c.apply op).Tidy ops := ⟨h.unique.apply h.fresh, h.fresh.apply⟩

theorem tidy_init (strategy : ConflictStrategy) (h : (registered ops).Nodup) :
    Tidy { strategy := strategy } ops := by
  have hnone : ∀ y, ids { strategy := strategy } y = [] := fun _ => rfl
  refine ⟨⟨fun y => ?_, fun y y' id hid => ?_⟩, h, fun id _ y => ?_⟩
  · rw [hnone]; exact List.nodup_nil
  · rw [hnone] at hid; cases hid
  · rw [hnone]; exact List.not_mem_nil

/-- The two registers differ in entries that are not live at most. -/
structure Alike (c c' : ConflictResolver) : Prop where
  strategy : c.strategy = c'.strategy
  live : ∀ y, c.live y = c'.live y

theorem Alike.check (h : c.Alike c') (hasGateway : Exchange → Bool) (s : Signal)
    (answers : List (Option CancelResult)) :
    (c.check hasGateway s answers).1.Alike (c'.check hasGateway s answers).1 ∧
      (c.check hasGateway s answers).2 = (c'.check hasGateway s answers).2 ∧
      c.checkCancels hasGateway s answers = c'.checkCancels hasGateway s answers := by
  obtain ⟨hr, he, hc⟩ := cancelConflicts_live hasGateway s (c.entriesOf s.symbol) answers
  obtain ⟨hr', he', hc'⟩ := cancelConflicts_live hasGateway s (c'.entriesOf s.symbol) answers
  have hlive : (c.entriesOf s.symbol).filter (·.isLive) = (c'.entriesOf s.symbol).filter (·.isLive) := h.live s.symbol
  have hany : (c.entriesOf s.symbol).any (·.conflicts s) = (c'.entriesOf s.symbol).any (·.conflicts s) := by
    rw [any_conflicts_live, hlive, ← any_conflicts_live]
  by_cases hclear : (c'.entriesOf s.symbol).any (·.conflicts s) = false
  · simp only [check_eq, checkCancels_eq, hany, hclear, Bool.not_false, ite_true]
    exact ⟨h, trivial, trivial⟩
  · rw [Bool.not_eq_false] at hclear
    by_cases hreject : c'.strategy = .REJECT_NEW
    · simp only [check_eq, checkCancels_eq, hany, hclear, h.strategy.trans hreject, hreject, Bool.not_true,
        Bool.false_eq_true, ite_false, ite_true]
      exact ⟨h, trivial, trivial⟩
    · have hcancel : ¬ c.strategy = .REJECT_NEW := fun he => hreject (h.strategy.symm.trans he)
      simp only [check_eq, checkCancels_eq, hany, hclear, hreject, hcancel, Bool.not_true, Bool.false_eq_true,
        ite_false]
      refine ⟨⟨h.strategy, fun y => ?_⟩, by rw [hr, hr', hlive], by rw [hc, hc', hlive]⟩
      unfold ConflictResolver.live
      rw [entriesOf_insert, entriesOf_insert]
      split
      · rw [he, he', hlive]
      · exact h.live y

end

end ConflictResolver

/-- A status that the call sets is terminal. -/
def ResolverOp.SetsTerminal : ResolverOp → Prop
  | .updateStatus _ status => isTerminal status = true
  | .registerOrder _ | .check _ _ _ | .cleanup => True

namespace ConflictResolver

variable {c c' : ConflictResolver} {op : ResolverOp} {ops : List ResolverOp}

/-- A call keeps two registers alike and is answered alike by both. -/
theorem Alike.observe (h : c.Alike c') (ht : c.Tidy (op :: ops)) (ht' : c'.Tidy (op :: ops)) (hop : op.SetsTerminal) :
    (c.observe op).1.Alike (c'.observe op).1 ∧ (c.observe op).2 = (c'.observe op).2 := by
  cases op with
  | registerOrder o =>
    refine ⟨⟨h.strategy, fun y => ?_⟩, rfl⟩
    exact (live_registerOrder o y).trans ((congrArg (· ++ _) (h.live y)).trans (live_registerOrder o y).symm)
  | updateStatus orderId status =>
    refine ⟨⟨?_, fun y => ?_⟩, rfl⟩
    · exact (strategy_apply (.updateStatus orderId status)).trans
        (h.strategy.trans (strategy_apply (.updateStatus orderId status)).symm)
    · have hl := live_updateStatus ht.unique orderId hop y
      have hl' := live_updateStatus ht'.unique orderId hop y
      exact hl.trans ((congrArg (List.filter (·.orderId ≠ orderId)) (h.live y)).trans hl'.symm)
  | check hasGateway s answers =>
    obtain ⟨halike, hresult, hcancels⟩ := h.check hasGateway s answers
    exact ⟨halike, congrArg some (Prod.ext hresult hcancels)⟩
  | cleanup =>
    exact ⟨⟨h.strategy, fun y => (live_cleanup c y).trans ((h.live y).trans (live_cleanup c' y).symm)⟩, rfl⟩

end ConflictResolver

open ConflictResolver

/-- After `cleanup()` every later sequence of calls returns the same results and
makes the same calls of `cancel_order`. -/
theorem cleanup_unobservable (c : ConflictResolver) (hu : c.Unique) (ops : List ResolverOp) (hf : c.Fresh ops)
    (hterminal : ∀ op ∈ ops, op.SetsTerminal) :
    (runCalls observe c.cleanup ops).2 = (runCalls observe c ops).2 := by
  have hstart : c.cleanup.Alike c := ⟨rfl, live_cleanup c⟩
  have htidy : c.cleanup.Tidy ops := Tidy.apply (show c.Tidy (.cleanup :: ops) from ⟨hu, ⟨hf.nodup, hf.new⟩⟩)
  refine (runCalls_simulated (R := fun c c' ops => c.Alike c' ∧ c.Tidy ops ∧ c'.Tidy ops ∧
    ∀ op ∈ ops, op.SetsTerminal) ?_ ⟨hstart, htidy, ⟨hu, hf⟩, hterminal⟩).2
  intro c c' op ops ⟨h, ht, ht', hops⟩
  obtain ⟨halike, hanswer⟩ := h.observe ht ht' (hops op (List.mem_cons_self ..))
  have hstate : ∀ c : ConflictResolver, (c.observe op).1 = c.apply op := fun c => by cases op <;> rfl
  refine ⟨⟨halike, ?_, ?_, fun op' hop' => hops op' (List.mem_cons_of_mem _ hop')⟩, hanswer⟩
  · rw [hstate]; exact ht.apply
  · rw [hstate]; exact ht'.apply

namespace Sample

def filledOrder : Order := { registered with orderId := storedOrderId 2, status := .FILLED }

/-- It can be cancelled. -/
def namedOrder : Order := { registered with exchangeOrderId := .copy 31 (exIdOf registered.orderId) }

def laterOrder : Order := { registered with orderId := storedOrderId 3 }

def tracked : ConflictResolver := (({} : ConflictResolver).registerOrder filledOrder).registerOrder namedOrder

def laterCalls : List ResolverOp :=
  [.check (fun _ => true) { registered.signal with side := .SELL } [some { success := true }],
    .registerOrder laterOrder, .updateStatus (storedOrderId 3) .FILLED, .cleanup]

theorem tidy_tracked : Tidy tracked laterCalls :=
  Tidy.apply (Tidy.apply (show Tidy {} (.registerOrder filledOrder :: .registerOrder namedOrder :: laterCalls) from
    tidy_init _ (by decide +kernel)))

theorem cleanup_unobservable_tracked :
    (runCalls observe tracked.cleanup laterCalls).2 = (runCalls observe tracked laterCalls).2 := by
  refine cleanup_unobservable tracked tidy_tracked.unique laterCalls tidy_tracked.fresh fun op hop => ?_
  simp only [laterCalls, List.mem_cons, List.not_mem_nil, or_false] at hop
  rcases hop with rfl | rfl | rfl | rfl
  · trivial
  · trivial
  · exact rfl
  · trivial

end Sample

end OrderExecution
