import OrderExecution.ArbGuardCalls

/-!
# The margin of a pair

Both legs of a pair are reserved together when it is dispatched. Every branch
that ends the pair gives back or converts both reservations, except one: a CEX
reject releases the DEX leg only if that leg is not terminal, and a filled leg
is. The pair then fails with the margin of its filled leg still reserved.
-/

namespace OrderExecution

open ArbCoordinator Machine

/-! ## Reservations after a list of calls -/

def GuardOp.frees : GuardOp → Bool
  | .onFill _ _ _ | .releaseMargin _ => true
  | _ => false

namespace PortfolioGuard

variable {π : PortfolioGuard} {k : Bytes}

theorem Wf.applyAll (h : π.Wf) (ops : List GuardOp) : (π.applyAll ops).Wf := by
  induction ops generalizing π with
  | nil => exact h
  | cons op ops ih => exact ih (h.apply op)

theorem reservedUnder_applyAll_ne (h : π.Wf) {ops : List GuardOp}
    (hk : ∀ op ∈ ops, ∀ s ∈ op.signals, k ≠ marginKey s) :
    (π.applyAll ops).reservedUnder k = π.reservedUnder k := by
  induction ops generalizing π with
  | nil => rfl
  | cons op ops ih =>
    rw [applyAll_cons, ih (h.apply op) fun op' h' => hk op' (List.mem_cons_of_mem _ h')]
    exact reservedUnder_apply_ne h (hk op (List.mem_cons_self ..))

theorem reservedUnder_frees_none (h : π.Wf) {op : GuardOp} (hf : op.frees = true)
    (hk : π.reservedUnder k = none) : (π.apply op).reservedUnder k = none := by
  cases op with
  | onFill s price qty => exact reservedUnder_onFill_none h s price qty hk
  | releaseMargin s => exact reservedUnder_releaseMargin_none h s hk
  | _ => cases hf

theorem reservedUnder_applyAll_none (h : π.Wf) {ops : List GuardOp} (hf : ∀ op ∈ ops, op.frees = true)
    (hk : π.reservedUnder k = none) : (π.applyAll ops).reservedUnder k = none := by
  induction ops generalizing π with
  | nil => exact hk
  | cons op ops ih =>
    exact ih (h.apply op) (fun op' h' => hf op' (List.mem_cons_of_mem _ h'))
      (reservedUnder_frees_none h (hf op (List.mem_cons_self ..)) hk)

theorem reservedUnder_frees_self (h : π.Wf) {op : GuardOp} (hf : op.frees = true) {s : Signal}
    (hs : s ∈ op.signals) : (π.apply op).reservedUnder (marginKey s) = none := by
  cases op with
  | onFill t price qty =>
    rw [List.mem_singleton.mp hs]; exact reservedUnder_onFill_self h t price qty
  | releaseMargin t =>
    rw [List.mem_singleton.mp hs]; exact reservedUnder_releaseMargin_self h t
  | _ => cases hf

theorem reservedUnder_applyAll_freed (h : π.Wf) {ops : List GuardOp} (hf : ∀ op ∈ ops, op.frees = true)
    {op : GuardOp} (hop : op ∈ ops) {s : Signal} (hs : s ∈ op.signals) :
    (π.applyAll ops).reservedUnder (marginKey s) = none := by
  induction ops generalizing π with
  | nil => cases hop
  | cons op' ops ih =>
    have hf' : ∀ op ∈ ops, op.frees = true := fun op h' => hf op (List.mem_cons_of_mem _ h')
    rcases List.mem_cons.mp hop with rfl | hop
    · exact reservedUnder_applyAll_none (h.apply _) hf'
        (reservedUnder_frees_self h (hf _ (List.mem_cons_self ..)) hs)
    · exact ih (h.apply op') hf' hop

theorem checkAndReservePair_refused {cex dex : Signal}
    (h : (π.checkAndReservePair cex dex).2.approved ≠ true) : (π.checkAndReservePair cex dex).1 = π := by
  unfold checkAndReservePair at h ⊢
  simp only at h ⊢
  split
  · rfl
  · next hle => rw [if_neg hle] at h; exact absurd rfl h

end PortfolioGuard

/-! ## The calls of a step free margin -/

theorem ArbPair.frees_rejectOps (p : ArbPair) (b : Bool) : ∀ op ∈ p.rejectOps b, op.frees = true := by
  cases b with
  | true =>
    simp only [rejectOps, ite_true]
    split <;> simp [GuardOp.frees]
  | false =>
    simp only [rejectOps, Bool.false_eq_true, ite_false]
    split <;> simp [GuardOp.frees]

theorem ArbPair.frees_expireOps (p : ArbPair) : ∀ op ∈ p.expireOps, op.frees = true := by
  unfold expireOps
  split <;> split <;> simp [GuardOp.frees]

theorem ArbPair.frees_workerOps (p : ArbPair) (r : OrderResult) (w : Worker) :
    ∀ op ∈ p.workerOps r w, op.frees = true := by
  cases w with
  | deadline g =>
    simp only [workerOps]
    split
    · exact p.frees_expireOps
    · simp
  | sendResult g b =>
    simp only [workerOps]
    split
    · exact p.frees_rejectOps b
    · simp
  | riskWindow g =>
    simp only [workerOps]
    split
    · simp [GuardOp.frees]
    · split <;> simp [GuardOp.frees]
  | unwindSend g gw o => simp [workerOps]
  | unwindResult g => simp [workerOps, GuardOp.frees]

theorem ArbPair.frees_messageOps (p : ArbPair) (b : Bool) (price qty : ℚ) (isReject : Bool) (now : Int) :
    ∀ op ∈ p.messageOps b price qty isReject now, op.frees = true := by
  unfold messageOps
  split
  · exact p.frees_rejectOps b
  · split <;> simp [bookOps, GuardOp.frees]

namespace ArbCoordinator

theorem guardOps_frees (c : ArbCoordinator) {e : ArbEvent} (hd : ∀ g now, e ≠ .dispatch (.enter g) now)
    (hp : ∀ op, e ≠ .portfolio op) : ∀ op ∈ c.guardOps e, op.frees = true := by
  cases e with
  | addLeg s now => intro op h; cases h
  | dispatch d now =>
    cases d with
    | enter g => exact absurd rfl (hd g now)
    | _ => intro op h; cases h
  | worker w r now =>
    simp only [guardOps]
    split
    · intro op h; cases h
    · next p _ => exact p.frees_workerOps r w
  | onFill x price qty isReject now =>
    simp only [guardOps]
    split
    · intro op h; cases h
    · next p b _ => exact p.frees_messageOps b price qty isReject now
  | portfolio op => exact absurd rfl (hp op)
  | drawOrderId => intro op h; cases h

end ArbCoordinator

/-! ## What may be reserved in each status -/

/-- The statuses between the dispatch and the first outcome of both legs. -/
def ArbPairStatus.isOpen : ArbPairStatus → Bool
  | .DISPATCHED | .CEX_FILLED | .DEX_FILLED => true
  | _ => false

/-- The reservations `r` of the legs agree with the view of their pair: both
stand while the pair is open, and after that only that of a CEX leg which is
being unwound. -/
structure View.MarginHeld (r : Bool → Option ℚ) (v : View) : Prop where
  absent : v.pair = none → ¬ v.Unwinding ∧ ∀ b, r b = none
  held : ∀ p b, v.pair = some p → r b ≠ none →
    p.status.isOpen = true ∨ b = true ∧ (p.status = .UNWINDING ∨ v.Unwinding)
  waits : ∀ p, v.pair = some p → p.status = .ASSEMBLING ∨ p.status.isOpen = true → ¬ v.Unwinding
  dexLeg : ∀ p, v.pair = some p → p.status.isOpen = true →
    p.dexLeg.status = .FILLED ∨ isTerminal p.dexLeg.status = false

section
variable {c : ArbCoordinator} {g : CStr 15} {v v' : View} {r r' : Bool → Option ℚ} {p p' : ArbPair}

theorem View.MarginHeld.of_pair_eq (h : v.MarginHeld r) (hp : v'.pair = v.pair)
    (hu : v'.Unwinding ↔ v.Unwinding) (hr : ∀ b, r' b ≠ none → r b ≠ none) : v'.MarginHeld r' where
  absent hn := by
    obtain ⟨h₁, h₂⟩ := h.absent (hp ▸ hn)
    exact ⟨hu.not.mpr h₁, fun b => by_contra fun hb => hr b hb (h₂ b)⟩
  held p b hp' hb := by
    rw [hu]
    exact h.held p b (hp ▸ hp') (hr b hb)
  waits p hp' hs := hu.not.mpr (h.waits p (hp ▸ hp') hs)
  dexLeg p hp' hs := h.dexLeg p (hp ▸ hp') hs

theorem View.MarginHeld.of_moved (h : v.MarginHeld r) (hp : v.pair = some p) (hp' : v'.pair = some p')
    (hst : p'.status = p.status ∨ p.status.isOpen = true ∧ p'.status.isOpen = true)
    (hu : v'.Unwinding ↔ v.Unwinding) (hr : ∀ b, r' b ≠ none → r b ≠ none)
    (hdex : p'.dexLeg.status = p.dexLeg.status ∨ p'.dexLeg.status = .FILLED ∨
      isTerminal p'.dexLeg.status = false) : v'.MarginHeld r' where
  absent hn := by rw [hp'] at hn; cases hn
  held q b hq hb := by
    rw [hp'] at hq
    cases hq
    rcases hst with hst | hst
    · rw [hst, hu]; exact h.held p b hp (hr b hb)
    · exact .inl hst.2
  waits q hq hs := by
    rw [hp'] at hq
    cases hq
    refine hu.not.mpr (h.waits p hp ?_)
    rcases hst with hst | hst
    · rwa [hst] at hs
    · exact .inr hst.1
  dexLeg q hq hs := by
    rw [hp'] at hq
    cases hq
    rcases hdex with hd | hd
    · rw [hd]
      refine h.dexLeg p hp ?_
      rcases hst with hst | hst
      · rwa [hst] at hs
      · exact hst.1
    · exact hd

theorem View.marginHeld_of_freed (hp : v.pair = some p) (hst : p.status.isFinal = true)
    (hr : ∀ b, r b = none) : v.MarginHeld r where
  absent hn := by rw [hp] at hn; cases hn
  held q b hq hb := absurd (hr b) hb
  waits q hq hs := by
    rw [hp] at hq
    cases hq
    rcases hs with hs | hs <;> cases h : p.status <;> simp [h, ArbPairStatus.isFinal, ArbPairStatus.isOpen] at hs hst
  dexLeg q hq hs := by
    rw [hp] at hq
    cases hq
    cases h : p.status <;> simp [h, ArbPairStatus.isFinal, ArbPairStatus.isOpen] at hs hst

theorem View.marginHeld_of_unwinding (hp : v.pair = some p) (hst : p.status = .UNWINDING)
    (hr : r false = none) : v.MarginHeld r where
  absent hn := by rw [hp] at hn; cases hn
  held q b hq hb := by
    rw [hp] at hq
    cases hq
    cases b with
    | true => exact .inr ⟨rfl, .inl hst⟩
    | false => exact absurd hr hb
  waits q hq hs := by
    rw [hp] at hq
    cases hq
    simp [hst, ArbPairStatus.isOpen] at hs
  dexLeg q hq hs := by
    rw [hp] at hq
    cases hq
    simp [hst, ArbPairStatus.isOpen] at hs

end

/-! ## One step -/

/-- The CEX reject that forgets a filled DEX leg: that leg's margin is still
reserved, and nothing will release it. -/
def StrandsMargin (g : CStr 15) (c : ArbCoordinator) (e : ArbEvent) : Prop :=
  ∃ p, c.RejectOf g p true e ∧ p.hasDexLeg = true ∧ p.dexLeg.status = .FILLED ∧
    c.portfolio.reservedUnder (marginKey p.dexLeg.signal) ≠ none

theorem ArbPair.release_mem_rejectOps (p : ArbPair) (b : Bool) :
    .releaseMargin (p.leg b).signal ∈ p.rejectOps b := by
  cases b with
  | true => exact List.mem_cons_self ..
  | false => exact List.mem_append_right _ (List.mem_singleton_self _)

theorem ArbPair.release_dex_mem_rejectOps {p : ArbPair} (hd : p.hasDexLeg = true)
    (ht : isTerminal p.dexLeg.status = false) : .releaseMargin p.dexLeg.signal ∈ p.rejectOps true := by
  simp [rejectOps, hd, ht]

theorem ArbPair.release_cex_mem_rejectOps {p : ArbPair} (hc : p.hasCexLeg = true)
    (hf : p.cexLeg.status ≠ .FILLED) : .releaseMargin p.cexLeg.signal ∈ p.rejectOps false := by
  simp [rejectOps, hc, hf]

section
variable {c c' : ArbCoordinator} {g : CStr 15} {v : View} {r r' : Bool → Option ℚ} {p : ArbPair}
  {e : ArbEvent}

theorem View.bothNeeded_of_isOpen (hp : v.pair = some p) (ho : p.status.isOpen = true) : v.BothNeeded g := by
  refine .inl ⟨p, hp, ?_⟩
  cases hs : p.status <;> simp [hs, ArbPairStatus.isOpen] at ho ⊢

theorem View.MarginHeld.hasLeg (h : v.MarginHeld r) (hc : v.Complete g) (hp : v.pair = some p)
    {b : Bool} (hb : r b ≠ none) : ∀ b', p.hasLeg b' = true := by
  refine hc.hasLeg hp ?_
  rcases h.held p b hp hb with ho | ⟨-, hs | hu⟩
  · exact View.bothNeeded_of_isOpen hp ho
  · exact .inl ⟨p, hp, by rw [hs]; decide⟩
  · exact .inr (.inr hu)

theorem View.MarginHeld.none_of_assembling (h : v.MarginHeld r) (hp : v.pair = some p)
    (hst : p.status = .ASSEMBLING) (b : Bool) : r b = none := by
  by_contra hb
  rcases h.held p b hp hb with ho | ⟨-, hs | hu⟩
  · rw [hst] at ho; cases ho
  · rw [hst] at hs; cases hs
  · exact h.waits p hp (.inl hst) hu

/-- An order comes to the pair, and starts its timer if it is the first. -/
theorem View.MarginHeld.addLeg {q : ArbPair} {s : Signal} {now : Int} {calls : List DispatchCall}
    (h : v.MarginHeld r) (hq : q = (v.pair.getD (c.newPair g now)).withLeg (c.newOrder s now))
    (hr : ∀ b, r' b ≠ none → r b ≠ none) :
    View.MarginHeld r' { v with
      pair := some q
      workers := if v.pair.isNone then .deadline g :: v.workers else v.workers
      calls := calls } := by
  cases hp : v.pair with
  | none =>
    obtain ⟨hu, hn⟩ := h.absent hp
    have hst : q.status = .ASSEMBLING := by rw [hq, status_withLeg, hp]; rfl
    refine ⟨fun hn => (by cases hn), fun q' b _ hb => absurd (hn b) (hr b hb), fun q' _ _ => ?_,
      fun q' hq' ho => ?_⟩
    · rintro ⟨w, hw, hi⟩
      simp only [Option.isNone_none, ite_true] at hw
      rcases List.mem_cons.mp hw with rfl | hw
      · cases hi
      · exact hu ⟨w, hw, hi⟩
    · cases hq'
      rw [hst] at ho
      cases ho
  | some p =>
    rw [hp, Option.getD_some] at hq
    refine h.of_moved hp rfl (.inl (by rw [hq, status_withLeg])) ?_ hr ?_
    · simp only [Option.isNone_some, Bool.false_eq_true, ite_false]
      exact Iff.rfl
    · rw [hq]
      unfold ArbPair.withLeg
      split
      · exact .inl rfl
      · exact .inr (.inr rfl)

theorem View.MarginHeld.reject {v₀ : View} {q : ArbPair} {b : Bool} {now : Int} (h : v.MarginHeld r)
    (hc : v.Complete g) (hp : v.pair = some p) (hq : q.RejectUnwinds b ↔ p.RejectUnwinds b)
    (hr : ∀ b, r' b ≠ none → r b ≠ none)
    (hfreed : ∀ b', p.hasLeg b' = true → .releaseMargin (p.leg b').signal ∈ p.rejectOps b → r' b' = none)
    (hl : p.hasLeg b = true)
    (hstr : b = true → p.hasDexLeg = true → p.dexLeg.status = .FILLED → r false = none) :
    (v₀.reject c g q b now).MarginHeld r' := by
  by_cases hru : p.RejectUnwinds b
  · have hb : b = false := hru.1
    subst hb
    refine marginHeld_of_unwinding rfl ?_ (hfreed false hl (p.release_mem_rejectOps false))
    rw [status_rejected_dex, if_pos (hq.mpr hru)]
  · refine marginHeld_of_freed rfl ?_ fun b' => ?_
    · rw [status_rejected_of_not (hq.not.mpr hru)]; rfl
    by_contra hb'
    have hboth := h.hasLeg hc hp (hr b' hb')
    cases b with
    | true =>
      cases b' with
      | true => exact hb' (hfreed true hl (p.release_mem_rejectOps true))
      | false =>
        have hopen : p.status.isOpen = true := by
          rcases h.held p false hp (hr false hb') with ho | ⟨hf, -⟩
          · exact ho
          · cases hf
        rcases h.dexLeg p hp hopen with hf | ht
        · exact hr false hb' (hstr rfl (hboth false) hf)
        · exact hb' (hfreed false (hboth false) (ArbPair.release_dex_mem_rejectOps (hboth false) ht))
    | false =>
      cases b' with
      | true =>
        have hf : p.cexLeg.status ≠ .FILLED := fun hf => hru ⟨rfl, hboth true, hf⟩
        exact hb' (hfreed true (hboth true) (ArbPair.release_cex_mem_rejectOps (hboth true) hf))
      | false => exact hb' (hfreed false hl (p.release_mem_rejectOps false))

theorem reservedUnder_step (hw : c.portfolio.Wf) (h : c.step e = some c')
    (he : ∀ g now, e ≠ .dispatch (.enter g) now) (hop : ∀ op, e ≠ .portfolio op) {k : Bytes}
    (hk : c'.portfolio.reservedUnder k ≠ none) : c.portfolio.reservedUnder k ≠ none := by
  intro hn
  rw [portfolio_step h] at hk
  exact hk (PortfolioGuard.reservedUnder_applyAll_none hw (c.guardOps_frees he hop) hn)

theorem freed_step (hw : c.portfolio.Wf) (h : c.step e = some c')
    (he : ∀ g now, e ≠ .dispatch (.enter g) now) (hop : ∀ op, e ≠ .portfolio op) {op : GuardOp}
    (hmem : op ∈ c.guardOps e) {s : Signal} (hs : s ∈ op.signals) :
    c'.portfolio.reservedUnder (marginKey s) = none := by
  rw [portfolio_step h]
  exact PortfolioGuard.reservedUnder_applyAll_freed hw (c.guardOps_frees he hop) hmem hs

theorem marginHeld_enter {key : Bool → Bytes} {now : Int} (hk : c.Keyed)
    (h : c.step (.dispatch (.enter g) now) = some c')
    (hv : (c.view g).MarginHeld fun b => c.portfolio.reservedUnder (key b)) :
    (c'.view g).MarginHeld fun b => c'.portfolio.reservedUnder (key b) := by
  have hport := portfolio_step h
  have hstep := step_view hk h g
  generalize hv' : c'.view g = v' at hstep ⊢
  cases hstep with
  | other hne => exact absurd rfl hne
  | enterReturns _ h₁ =>
    refine hv.of_pair_eq rfl Iff.rfl fun b hb => ?_
    rwa [hport, guardOps_enter_idle h₁] at hb
  | @enterRefused _ p _ h₁ h₂ h₃ =>
    -- a refused check reserves nothing, and nothing was reserved before it
    refine View.marginHeld_of_freed rfl rfl fun b => ?_
    rw [hport, guardOps_enter h₁ h₂, PortfolioGuard.applyAll_cons, PortfolioGuard.applyAll_nil]
    show ((c.portfolio.checkAndReservePair p.cexLeg.signal p.dexLeg.signal).1).reservedUnder (key b) = none
    rw [PortfolioGuard.checkAndReservePair_refused h₃]
    exact hv.none_of_assembling h₁ h₂ b
  | @enterDispatches _ p _ h₁ h₂ _ =>
    refine ⟨fun hn => (by cases hn), fun q b hq _ => ?_, fun q hq _ => ?_, fun q hq _ => ?_⟩
    · cases hq; exact .inl rfl
    · exact hv.waits p h₁ (.inl h₂)
    · cases hq; exact .inr rfl

theorem marginHeld_step_of_frees {key : Bool → Bytes} (hk : c.Keyed) (hc : c.Complete) (hw : c.portfolio.Wf)
    (h : c.step e = some c') (ht : c.touched e = some g) (he : ∀ g now, e ≠ .dispatch (.enter g) now)
    (hown : ∀ p b, c.pairs.lookup g = some p → p.hasLeg b = true → marginKey (p.leg b).signal = key b)
    (hv : (c.view g).MarginHeld fun b => c.portfolio.reservedUnder (key b)) (hs : ¬ StrandsMargin g c e) :
    (c'.view g).MarginHeld fun b => c'.portfolio.reservedUnder (key b) := by
  have hop : ∀ op, e ≠ .portfolio op := by
    intro op h
    rw [h] at ht
    cases ht
  have hr : ∀ b, c'.portfolio.reservedUnder (key b) ≠ none → c.portfolio.reservedUnder (key b) ≠ none :=
    fun b => reservedUnder_step hw h he hop
  have hfreed : ∀ p b, (c.view g).pair = some p → p.hasLeg b = true → ∀ op ∈ c.guardOps e,
      (p.leg b).signal ∈ op.signals → c'.portfolio.reservedUnder (key b) = none := by
    intro p b hp hb op hmem hsig
    rw [← hown p b hp hb]
    exact freed_step hw h he hop hmem hsig
  have hstr : ∀ p, c.RejectOf g p true e → p.hasDexLeg = true → p.dexLeg.status = .FILLED →
      c.portfolio.reservedUnder (key false) = none := by
    intro p hrej hd hf
    by_contra hn
    refine hs ⟨p, hrej, hd, hf, ?_⟩
    rwa [← hown p false hrej.lookup hd] at hn
  have hstep := step_view hk h g
  generalize hv' : c'.view g = v' at hstep ⊢
  cases hstep with
  | other hne => exact absurd ht hne
  | enterReturns _ _ | enterRefused _ _ _ | enterDispatches _ _ _ => exact absurd rfl (he _ _)
  | addLeg hg hq => exact hv.addLeg hq hr
  | lookupFails _ _ | lookup _ _ => exact hv.of_pair_eq rfl Iff.rfl hr
  | sendCex _ | sendDex _ =>
    exact hv.of_pair_eq (pair_send ..) (View.unwinding_send ..) hr
  | startMonitor _ =>
    refine hv.of_pair_eq rfl ⟨fun hu => hu.mono fun w hw hi => ?_, fun hu => hu.mono fun w hw _ =>
      List.mem_cons_of_mem _ hw⟩ hr
    rcases List.mem_cons.mp hw with rfl | hw
    · cases hi
    · exact hw
  | deadlineIdle _ _ | sendResultIdle _ _ | riskIdle _ _ =>
    exact hv.of_pair_eq rfl (View.unwinding_erase rfl) hr
  | @deadline _ _ p _ h₁ h₂ _ =>
    refine View.marginHeld_of_freed rfl rfl fun b => ?_
    by_contra hb
    exact hr b hb (hv.none_of_assembling h₁ h₂ b)
  | @sendSucceeded b _ _ p _ h₁ _ _ =>
    refine hv.of_moved h₁ rfl (.inl (status_acknowledged ..)) (View.unwinding_erase rfl)
      hr ?_
    cases b with
    | true => exact .inl rfl
    | false =>
      refine .inr (.inr ?_)
      simp only [ArbPair.acknowledged, ArbPair.setLeg, Bool.false_eq_true, ite_false]
      split <;> rfl
  | @sendFailed b res now p h₀ h₁ hl hres =>
    have hops : c.guardOps (.worker (.sendResult g b) res now) = p.rejectOps b :=
      (guardOps_worker (by exact h₁) res now).trans (by simp [ArbPair.workerOps, hl, hres])
    refine hv.reject (hc g) h₁ (rejectUnwinds_identified ..) hr ?_ hl ?_
    · intro b' hb' hmem
      exact hfreed p b' h₁ hb' _ (hops ▸ hmem) (List.mem_singleton_self _)
    · rintro rfl hd hf
      exact hstr p ⟨rfl, rfl, hres, h₁, hl⟩ hd hf
  | @riskCex res now p _ h₁ h₂ =>
    have hops : c.guardOps (.worker (.riskWindow g) res now) = [.releaseMargin p.dexLeg.signal] :=
      (guardOps_worker (by exact h₁) res now).trans (if_pos h₂)
    -- the margin of the CEX leg is kept for the unwind
    refine View.marginHeld_of_unwinding rfl rfl ?_
    have hd := (hc g).hasLeg h₁ (View.bothNeeded_of_isOpen h₁ (by rw [h₂]; rfl)) false
    exact hfreed p false h₁ hd (.releaseMargin p.dexLeg.signal) (by simp [hops])
      (List.mem_singleton_self _)
  | @riskDex res now p _ h₁ h₂ =>
    have hops : c.guardOps (.worker (.riskWindow g) res now) =
        [.releaseMargin p.cexLeg.signal, .releaseMargin p.dexLeg.signal] :=
      (guardOps_worker (by exact h₁) res now).trans (by simp [ArbPair.workerOps, h₂])
    have hboth := (hc g).hasLeg h₁ (View.bothNeeded_of_isOpen h₁ (by rw [h₂]; rfl))
    refine View.marginHeld_of_freed rfl rfl fun b => ?_
    refine hfreed p b h₁ (hboth b) (.releaseMargin (p.leg b).signal) ?_
      (List.mem_singleton_self _)
    cases b <;> simp [hops]
  | unwindSend h₀ =>
    refine hv.of_pair_eq rfl ?_ hr
    exact iff_of_true ⟨_, List.mem_cons_self .., rfl⟩ ⟨_, h₀, rfl⟩
  | unwindResultIdle h₀ h₁ => exact absurd ⟨_, h₀, rfl⟩ (hv.absent h₁).1
  | @unwindResult res now p h₀ h₁ =>
    have hu : (c.view g).Unwinding := ⟨_, h₀, rfl⟩
    have hops : c.guardOps (.worker (.unwindResult g) res now) = [.releaseMargin p.cexLeg.signal] :=
      guardOps_worker (by exact h₁) res now
    refine View.marginHeld_of_freed rfl ?_ fun b => ?_
    · simp only
      split <;> rfl
    cases b with
    | true =>
      exact hfreed p true h₁ ((hc g).hasLeg h₁ (.inr (.inr hu)) true)
        (.releaseMargin p.cexLeg.signal) (by simp [hops]) (List.mem_singleton_self _)
    | false =>
      by_contra hn
      rcases hv.held p false h₁ (hr false hn) with ho | ⟨hf, -⟩
      · exact hv.waits p h₁ (.inr ho) hu
      · cases hf
  | @legRejected x price qty now p b h₀ h₁ =>
    have hops : c.guardOps (.onFill x price qty true now) = p.rejectOps b := guardOps_onFill h₀ ..
    refine hv.reject (hc g) h₁ Iff.rfl hr ?_
      (hasLeg_of_matchLeg (mem_pairs_of_findLeg h₀).2) ?_
    · intro b' hb' hmem
      exact hfreed p b' h₁ hb' _ (hops ▸ hmem) (List.mem_singleton_self _)
    · rintro rfl hd hf
      exact hstr p ⟨rfl, h₀⟩ hd hf
  | @firstFill x price qty now p b h₀ h₁ h₂ =>
    refine hv.of_moved h₁ rfl (.inr ⟨by rw [h₂]; rfl, ?_⟩) Iff.rfl hr ?_
    · cases b <;> rfl
    · cases b with
      | true => exact .inl rfl
      | false => exact .inr (.inl rfl)
  | @secondFill x price qty now p b h₀ h₁ h₂ =>
    have hops : ∀ b', ∃ op ∈ c.guardOps (.onFill x price qty false now), (p.leg b').signal ∈ op.signals := by
      intro b'
      have hsig := (ArbPair.sameLegs_fillLeg p b price qty now).signal b'
      cases b' <;> simp only [ArbPair.leg_true, ArbPair.leg_false] at hsig <;>
        simp [guardOps_onFill h₀, ArbPair.messageOps, h₂, ArbPair.bookOps, GuardOp.signals, hsig]
    have hboth := (hc g).hasLeg h₁ (View.bothNeeded_of_isOpen h₁ (by rw [h₂]; cases b <;> rfl))
    refine View.marginHeld_of_freed rfl rfl fun b' => ?_
    obtain ⟨op, hmem, hsig⟩ := hops b'
    exact hfreed p b' h₁ (hboth b') op hmem hsig
  | @lateFill x price qty now p b h₀ h₁ h₂ h₃ =>
    refine hv.of_moved h₁ rfl (.inl (status_fillLeg ..)) Iff.rfl hr ?_
    cases b with
    | true => exact .inl rfl
    | false => exact .inr (.inl rfl)

theorem marginHeld_step {key : Bool → Bytes} (hk : c.Keyed) (hc : c.Complete) (hw : c.portfolio.Wf)
    (h : c.step e = some c') (ht : c.touched e = some g)
    (hown : ∀ p b, c.pairs.lookup g = some p → p.hasLeg b = true → marginKey (p.leg b).signal = key b)
    (hv : (c.view g).MarginHeld fun b => c.portfolio.reservedUnder (key b)) (hs : ¬ StrandsMargin g c e) :
    (c'.view g).MarginHeld fun b => c'.portfolio.reservedUnder (key b) := by
  by_cases he : ∃ g' now, e = .dispatch (.enter g') now
  · obtain ⟨g', now, rfl⟩ := he
    obtain rfl : g' = g := Option.some.inj ht
    exact marginHeld_enter hk h hv
  · exact marginHeld_step_of_frees hk hc hw h ht (fun g' now hg => he ⟨g', now, hg⟩) hown hv hs

end

/-! ## Over a run -/

/-- The margin keys `key true` and `key false` belong to the legs of the pair
`g`: its legs have them, and no other signal does. -/
def OwnKeys (key : Bool → Bytes) (g : CStr 15) : ArbEvent → Prop
  | .addLeg s _ => if s.groupId = g then marginKey s = key s.isCexLeg else ∀ b, marginKey s ≠ key b
  | .portfolio op => ∀ s ∈ op.signals, ∀ b, marginKey s ≠ key b
  | _ => True

instance (key : Bool → Bytes) (g : CStr 15) : ∀ e, Decidable (OwnKeys key g e)
  | .addLeg s _ => inferInstanceAs (Decidable (if s.groupId = g then _ else _))
  | .portfolio op => inferInstanceAs (Decidable (∀ s ∈ op.signals, ∀ b, marginKey s ≠ key b))
  | .dispatch _ _ | .worker _ _ _ | .onFill _ _ _ _ _ | .drawOrderId => isTrue trivial

/-- Once the pair is `FAILED` or `COMPLETED` and no unwind of it is outstanding,
nothing is reserved for its legs. -/
def MarginReturned (g : CStr 15) (c : ArbCoordinator) : Prop :=
  ∀ p, c.pairs.lookup g = some p → p.status.isFinal = true → ¬ (c.view g).Unwinding →
    ∀ b, p.hasLeg b = true → c.portfolio.reservedUnder (marginKey (p.leg b).signal) = none

structure MarginKept (key : Bool → Bytes) (g : CStr 15) (c : ArbCoordinator) : Prop where
  keyed : c.Keyed
  complete : c.Complete
  wf : c.portfolio.Wf
  own : ∀ p b, c.pairs.lookup g = some p → p.hasLeg b = true → marginKey (p.leg b).signal = key b
  others : ∀ g' p b, g' ≠ g → c.pairs.lookup g' = some p → p.hasLeg b = true →
    ∀ b', marginKey (p.leg b).signal ≠ key b'
  held : (c.view g).MarginHeld fun b => c.portfolio.reservedUnder (key b)

section
variable {key : Bool → Bytes} {c c' : ArbCoordinator} {g : CStr 15} {e : ArbEvent}

theorem MarginKept.step (hI : MarginKept key g c) (hke : OwnKeys key g e) (hs : ¬ StrandsMargin g c e)
    (h : c.step e = some c') : MarginKept key g c' where
  keyed := hI.keyed.step h
  complete := hI.complete.step hI.keyed h
  wf := by rw [portfolio_step h]; exact hI.wf.applyAll _
  own := by
    intro p' b hp' hb
    rcases (step_view hI.keyed h g).leg_origin hp' hb with ⟨p, hp, hb, -, hsig⟩ | ⟨s, now, rfl, hg, hbs, -, hsig⟩
    · rw [hsig]; exact hI.own p b hp hb
    · simp only [OwnKeys, hg, ite_true] at hke
      rw [hsig, hke, hbs]
  others := by
    intro g' p' b hne hp' hb b'
    rcases (step_view hI.keyed h g').leg_origin hp' hb with ⟨p, hp, hb, -, hsig⟩ | ⟨s, now, rfl, hg, hbs, -, hsig⟩
    · rw [hsig]; exact hI.others g' p b hne hp hb b'
    · simp only [OwnKeys, hg ▸ hne, ite_false] at hke
      rw [hsig]; exact hke b'
  held := by
    by_cases ht : c.touched e = some g
    · exact marginHeld_step hI.keyed hI.complete hI.wf h ht hI.own hI.held hs
    · have hsame : ∀ b, c'.portfolio.reservedUnder (key b) = c.portfolio.reservedUnder (key b) := by
        intro b
        rw [portfolio_step h]
        refine PortfolioGuard.reservedUnder_applyAll_ne hI.wf fun op hop s hsig => ?_
        by_cases hp : ∃ op', e = .portfolio op'
        · obtain ⟨op', rfl⟩ := hp
          rw [List.mem_singleton.mp hop] at hsig
          exact (hke s hsig b).symm
        · simp only [not_exists] at hp
          obtain ⟨g', p, b', ht', hp', hb', rfl⟩ := guardOps_signals hI.complete h hp hop hsig
          have hne : g' ≠ g := fun he => ht (he ▸ ht')
          exact (hI.others g' p b' hne hp' hb' b).symm
      rw [view_step_ne hI.keyed h ht]
      exact hI.held.of_pair_eq rfl Iff.rfl fun b => by rw [hsame b]; exact id

theorem MarginKept.returned (hI : MarginKept key g c) : MarginReturned g c := by
  intro p hp hf hu b hb
  rw [hI.own p b hp hb]
  by_contra hn
  rcases hI.held.held p b hp hn with ho | ⟨-, hs | hu'⟩
  · cases hst : p.status <;> simp [hst, ArbPairStatus.isOpen, ArbPairStatus.isFinal] at ho hf
  · rw [hs] at hf; cases hf
  · exact hu hu'

theorem marginKept_init (config : ArbConfig) (pc : PortfolioConfig) (hasGateway : Exchange → Bool) :
    MarginKept key g (init config (.init pc) hasGateway) where
  keyed := keyed_init config _ hasGateway
  complete := complete_init config _ hasGateway
  wf := PortfolioGuard.wf_init pc
  own := by intro p b hp; simp [init] at hp
  others := by intro g' p b _ hp; simp [init] at hp
  held := by
    refine ⟨fun _ => ⟨?_, fun b => ?_⟩, ?_, ?_, ?_⟩
    · rintro ⟨w, hw, -⟩; simp [init, view] at hw
    · exact PortfolioGuard.reservedUnder_init pc (key b)
    · intro p b hp; simp [init, view] at hp
    · intro p hp; simp [init, view] at hp
    · intro p hp; simp [init, view] at hp

theorem cex_rejected {p : ArbPair} (hk : c.Keyed) (h : c.step e = some c') (hr : c.RejectOf g p true e) :
    c.guardOps e = p.rejectOps true ∧ ∃ q, c'.pairs.lookup g = some q ∧ q.status = .FAILED ∧ p.SameLegs q ∧
      ((c'.view g).Unwinding ↔ (c.view g).Unwinding) := by
  have hnot : ∀ q : ArbPair, ¬ q.RejectUnwinds true := fun q hw => absurd hw.1 (by decide)
  obtain ⟨r, now, rfl, hfail, hleg, hv⟩ | ⟨x, price, qty, now, rfl, hf, hv⟩ := hr.view hk h
  · have hops : c.guardOps (.worker (.sendResult g true) r now) = p.rejectOps true :=
      (guardOps_worker (by exact hr.lookup) r now).trans (by simp [ArbPair.workerOps, hleg, hfail])
    refine ⟨hops, _, congrArg View.pair hv, rfl, ?_, ?_⟩
    · exact (p.sameLegs_identified true r).trans (ArbPair.sameLegs_rejected _ true)
    · rw [hv, View.unwinding_reject (hnot _), View.unwinding_erase rfl]
  · refine ⟨guardOps_onFill hf .., _, congrArg View.pair hv, rfl, p.sameLegs_rejected true, ?_⟩
    rw [hv, View.unwinding_reject (hnot p)]

theorem stranded (hI : MarginKept key g c) (hkey : key true ≠ key false) (h : c.step e = some c')
    (hs : StrandsMargin g c e) : ¬ MarginReturned g c' := by
  obtain ⟨p, hrej, hd, hf, hn⟩ := hs
  have hp : (c.view g).pair = some p := hrej.lookup
  have hkd := hI.own p false hrej.lookup hd
  have hopen : p.status.isOpen = true := by
    rcases hI.held.held p false hp (by rwa [← hkd]) with ho | ⟨hb, -⟩
    · exact ho
    · cases hb
  have hc : p.hasLeg true = true := hI.held.hasLeg (hI.complete g) hp (by rwa [← hkd]) true
  obtain ⟨hops, q, hq, hst, hsame, hu⟩ := cex_rejected hI.keyed h hrej
  intro hret
  have hnone := hret q hq (by rw [hst]; rfl) (hu.not.mpr (hI.held.waits p hp (.inr hopen))) false
    ((hsame.hasLeg false).trans hd)
  rw [hsame.signal false, portfolio_step h, hops, PortfolioGuard.reservedUnder_applyAll_ne hI.wf] at hnone
  · exact hn hnone
  · intro op hop s hs
    have hop : op = .releaseMargin p.cexLeg.signal := by
      simpa [ArbPair.rejectOps, hf, isTerminal] using hop
    rw [hop] at hs
    rw [List.mem_singleton.mp hs, hkd]
    exact fun he => hkey ((hI.own p true hrej.lookup hc).symm.trans he.symm)

/-- Over a run in which the legs' keys are their own, the margin of the pair is
returned in every state exactly when no CEX reject finds the DEX leg filled and
its margin reserved. -/
theorem margin_returned_iff (config : ArbConfig) (pc : PortfolioConfig) (hasGateway : Exchange → Bool)
    (g : CStr 15) (key : Bool → Bytes) (es : List ArbEvent) (hkey : key true ≠ key false)
    (hown : ∀ e ∈ es, OwnKeys key g e) (hrun : (run step (init config (.init pc) hasGateway) es).isSome) :
    Always step (MarginReturned g) (init config (.init pc) hasGateway) es ↔
      Along step (fun c e => ¬ StrandsMargin g c e) (init config (.init pc) hasGateway) es := by
  generalize hc : init config (.init pc) hasGateway = c at hrun ⊢
  have hI : MarginKept key g c := hc ▸ marginKept_init config pc hasGateway
  clear hc
  induction es generalizing c with
  | nil => exact iff_of_true hI.returned trivial
  | cons e es ih =>
    obtain ⟨c'', hr⟩ := Option.isSome_iff_exists.mp hrun
    obtain ⟨c', hs, hr⟩ := run_cons hr
    simp only [Always, Along, hs, Option.some.injEq, forall_eq']
    by_cases hst : StrandsMargin g c e
    · have hno : ¬ Always step (MarginReturned g) c' es := by
        intro ha
        refine stranded hI hkey hs hst ?_
        cases es with
        | nil => exact ha
        | cons _ _ => exact ha.1
      exact iff_of_false (fun h => hno h.2) (fun h => h.1 hst)
    · have := ih (fun e he => hown e (List.mem_cons_of_mem _ he)) c' (Option.isSome_iff_exists.mpr ⟨c'', hr⟩)
        (hI.step (hown e (List.mem_cons_self ..)) hst hs)
      exact and_congr (iff_of_true hI.returned hst) this

end

def Sample.key (isCex : Bool) : Bytes := marginKey (if isCex then cexSignal else dexSignal)

theorem margin_returned_iff_unwound :
    Always step (MarginReturned Sample.groupId) Sample.coordinator
        (Sample.dispatch ++ Sample.acknowledged ++ [Sample.cexFill 4] ++ Sample.riskUnwind) ↔
      Along step (fun c e => ¬ StrandsMargin Sample.groupId c e) Sample.coordinator
        (Sample.dispatch ++ Sample.acknowledged ++ [Sample.cexFill 4] ++ Sample.riskUnwind) :=
  margin_returned_iff {} {} (fun _ => true) Sample.groupId Sample.key _ (by decide) (by decide +kernel)
    (by decide +kernel)

/-- The DEX leg fills, and then the send of the CEX leg fails. -/
theorem not_margin_returned :
    ¬ ∀ (config : ArbConfig) (pc : PortfolioConfig) (hasGateway : Exchange → Bool) (g : CStr 15)
      (key : Bool → Bytes) (es : List ArbEvent), key true ≠ key false → (∀ e ∈ es, OwnKeys key g e) →
        (run step (init config (.init pc) hasGateway) es).isSome →
        Always step (MarginReturned g) (init config (.init pc) hasGateway) es := by
  intro h
  let es := Sample.dispatch ++ [Sample.dexFill 4, .worker (.sendResult Sample.groupId true) {} 5]
  have halways := h {} {} (fun _ => true) Sample.groupId Sample.key es (by decide) (by decide +kernel)
    (by decide +kernel)
  obtain ⟨c, hc, hst⟩ : ∃ c, run step Sample.coordinator es = some c ∧
      (c.pairs.lookup Sample.groupId).map (fun p => (p.status, p.hasDexLeg, p.dexLeg.signal,
        c.workers, c.portfolio.reservedUnder (marginKey Sample.dexSignal))) =
      some (.FAILED, true, Sample.dexSignal,
        [.riskWindow Sample.groupId, .sendResult Sample.groupId false, .deadline Sample.groupId], some 10) :=
    Option.bind_eq_some_iff.mp (show (run step Sample.coordinator es).bind (fun c =>
      (c.pairs.lookup Sample.groupId).map (fun p => (p.status, p.hasDexLeg, p.dexLeg.signal,
        c.workers, c.portfolio.reservedUnder (marginKey Sample.dexSignal)))) = _ by decide +kernel)
  obtain ⟨p, hp, hfacts⟩ := Option.map_eq_some_iff.mp hst
  simp only [Prod.mk.injEq] at hfacts
  obtain ⟨hf, hd, hsig, hw, hres⟩ := hfacts
  have hnone := always_iff.mp halways es [] c (List.append_nil _).symm hc p hp (by rw [hf]; rfl) ?_ false hd
  · rw [ArbPair.leg_false, hsig, hres] at hnone
    cases hnone
  · rintro ⟨w, hm, hu⟩
    have := List.mem_of_mem_filter hm
    rw [hw] at this
    simp only [List.mem_cons, List.not_mem_nil, or_false] at this
    rcases this with rfl | rfl | rfl <;> cases hu

end OrderExecution
