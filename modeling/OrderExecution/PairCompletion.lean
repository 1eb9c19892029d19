import OrderExecution.Completion
import OrderExecution.NakedLeg

/-!
# No pair is left open

A pair that is not over has a call, a thread or a message to come. Where every
exchange has its gateway, a pair is `COMPLETED` or `FAILED` once nothing is under
way, unless a cancel reached the gateway of a leg before its report.
-/

namespace OrderExecution

open ArbCoordinator Machine

/-! ## What is still to come for a pair -/

/-- The call is going to hand this leg to a gateway. -/
def DispatchCall.Sends (isCex : Bool) : DispatchCall → Prop
  | .lookup _ _ _ => True
  | .sendCex _ cexGateway dexGateway _ _ => (if isCex then cexGateway else dexGateway).isSome = true
  | .sendDex _ dexGateway _ => isCex = false ∧ dexGateway.isSome = true
  | .enter _ | .startMonitor _ => False

/-- The leg was handed to a gateway, or is about to be. -/
def View.LegGoes (g : CStr 15) (isCex : Bool) (v : View) : Prop :=
  (∃ gw o, .sendOrder g (legRole isCex) gw o ∈ v.log) ∨ ∃ d ∈ v.calls, d.Sends isCex

/-- What a pair `p` with this status waits for. -/
def View.Awaits (g : CStr 15) (v : View) (p : ArbPair) : ArbPairStatus → Prop
  | .ASSEMBLING => if p.bothLegsPresent then .enter g ∈ v.calls else .deadline g ∈ v.workers
  | .DISPATCHED | .CEX_FILLED | .DEX_FILLED => ∀ b, v.LegGoes g b
  | .UNWINDING => v.Unwinding
  -- `finalize_pair` overwrites it in the same critical section
  | .ALL_FILLED => False
  | .FAILED | .COMPLETED => True

def View.Driven (g : CStr 15) (v : View) : Prop := ∀ p, v.pair = some p → v.Awaits g p p.status

section
variable {c : ArbCoordinator} {g : CStr 15} {v v' : View} {e : ArbEvent} {p p' : ArbPair} {b : Bool}

theorem View.LegGoes.mono (h : v.LegGoes g b) (hlog : ∀ x ∈ v.log, x ∈ v'.log)
    (hcalls : ∀ d ∈ v.calls, d.Sends b → d ∈ v'.calls) : v'.LegGoes g b := by
  rcases h with ⟨gw, o, hx⟩ | ⟨d, hd, hs⟩
  · exact .inl ⟨gw, o, hlog _ hx⟩
  · exact .inr ⟨d, hcalls d hd hs, hs⟩

theorem View.LegGoes.same (h : v.LegGoes g b) (hlog : v'.log = v.log) (hcalls : v'.calls = v.calls) :
    v'.LegGoes g b :=
  h.mono (fun _ hx => hlog ▸ hx) fun _ hd _ => hcalls ▸ hd

theorem View.Awaits.mono {s : ArbPairStatus} (h : v.Awaits g p s)
    (hboth : s = .ASSEMBLING → p'.bothLegsPresent = p.bothLegsPresent)
    (henter : s = .ASSEMBLING → .enter g ∈ v.calls → .enter g ∈ v'.calls)
    (hdeadline : s = .ASSEMBLING → p.bothLegsPresent = false → .deadline g ∈ v.workers → .deadline g ∈ v'.workers)
    (hgoes : ∀ b, v.LegGoes g b → v'.LegGoes g b) (hunwinding : v.Unwinding → v'.Unwinding) :
    v'.Awaits g p' s := by
  cases s with
  | ASSEMBLING =>
    simp only [View.Awaits, hboth rfl] at h ⊢
    cases hb : p.bothLegsPresent with
    | true =>
      rw [hb, if_pos rfl] at h
      exact henter rfl h
    | false =>
      rw [hb, if_neg Bool.false_ne_true] at h
      exact hdeadline rfl hb h
  | DISPATCHED | CEX_FILLED | DEX_FILLED => exact fun b => hgoes b (h b)
  | UNWINDING => exact hunwinding h
  | ALL_FILLED => exact h
  | FAILED | COMPLETED => trivial

theorem View.awaits_reject (hgw : ∀ exch, c.hasGateway exch = true) (v : View) (p : ArbPair) (b : Bool)
    (now : Int) : (v.reject c g p b now).Awaits g (p.rejected b) (p.rejected b).status := by
  by_cases hr : p.RejectUnwinds b
  · have hst : (p.rejected b).status = .UNWINDING := by
      obtain ⟨rfl, hrest⟩ := hr
      rw [status_rejected_dex, if_pos ⟨rfl, hrest⟩]
    rw [hst]
    refine ⟨.unwindSend g p.cexLeg.signal.exchange (c.unwindOrder p now), ?_, rfl⟩
    simp only [View.reject, if_pos hr, View.unwind, hgw, if_true]
    exact List.mem_cons_self ..
  · rw [status_rejected_of_not hr]
    trivial

theorem View.Driven.addLeg {s : Signal} {now : Int} (h : v.Driven g)
    (hp : p = (v.pair.getD (c.newPair g now)).withLeg (c.newOrder s now)) :
    View.Driven g { v with
      pair := some p
      workers := if v.pair.isNone then .deadline g :: v.workers else v.workers
      calls := if p.bothLegsPresent then .enter g :: v.calls else v.calls } := by
  intro p' hp'
  obtain rfl := Option.some.inj hp'
  have hstatus : p.status = (v.pair.getD (c.newPair g now)).status := by rw [hp, status_withLeg]
  cases hv : v.pair with
  | none =>
    rw [hv] at hstatus
    rw [hstatus]
    simp only [Option.isNone_none, if_true]
    show if p.bothLegsPresent then _ else _
    split <;> exact List.mem_cons_self ..
  | some q =>
    rw [hv, Option.getD_some] at hstatus hp
    have hq := h q hv
    rw [hstatus]
    simp only [Option.isNone_some, Bool.false_eq_true, if_false]
    have hgoes : ∀ {l : List DispatchCall}, (∀ d ∈ v.calls, d ∈ l) → ∀ b, v.LegGoes g b →
        View.LegGoes g b { v with pair := some p, calls := l } := fun hl b hgo =>
      hgo.mono (fun _ hx => hx) fun d hd _ => hl d hd
    by_cases hb : p.bothLegsPresent = true
    · simp only [if_pos hb]
      by_cases hs : q.status = .ASSEMBLING
      · rw [hs]
        show if p.bothLegsPresent then _ else _
        rw [if_pos hb]
        exact List.mem_cons_self ..
      · exact hq.mono (fun he => absurd he hs) (fun he => absurd he hs) (fun he => absurd he hs)
          (hgoes fun d hd => List.mem_cons_of_mem _ hd) id
    · simp only [if_neg hb]
      have hqb : ¬ q.bothLegsPresent = true := fun hqb => hb (hp ▸ bothLegsPresent_withLeg q _ hqb)
      rw [Bool.not_eq_true] at hb hqb
      exact hq.mono (fun _ => by rw [hb, hqb]) (fun _ h => h) (fun _ _ h => h) (hgoes fun _ hd => hd) id

/-- A thread that is no timer and no unwind ends, and the pair has the same legs and status. -/
theorem View.Awaits.join {s : ArbPairStatus} {w : Worker} (h : v.Awaits g p s) (hsame : p.SameLegs p')
    (hw : w ≠ .deadline g) (hu : w.isUnwind = false) (pair : Option ArbPair) :
    View.Awaits g { v with pair := pair, workers := v.workers.erase w } p' s :=
  h.mono (fun _ => hsame.bothLegsPresent) (fun _ h => h) (fun _ _ h => (List.mem_erase_of_ne hw.symm).mpr h)
    (fun _ hgo => hgo.same rfl rfl) (View.unwinding_erase hu).mpr

/-- A stretch of `dispatch_pair` ends. -/
theorem View.Awaits.advance {s : ArbPairStatus} {d : DispatchCall} (h : v.Awaits g p s) (hd : d.isEnter = false)
    (hcalls : ∀ d' ∈ v.calls, d' ≠ d → d' ∈ v'.calls) (hlog : ∀ x ∈ v.log, x ∈ v'.log)
    (hworkers : ∀ w ∈ v.workers, w ∈ v'.workers) (hgoes : ∀ b, d.Sends b → v'.LegGoes g b) : v'.Awaits g p s := by
  refine h.mono (fun _ => rfl) (fun _ h => hcalls _ h fun he => ?_) (fun _ _ h => hworkers _ h) (fun b hgo => ?_)
    fun hu => hu.mono fun w hw _ => hworkers w hw
  · rw [← he] at hd
    cases hd
  · by_cases hs : d.Sends b
    · exact hgoes b hs
    · refine hgo.mono hlog fun d' hd' hs' => hcalls d' hd' fun he => hs (he ▸ hs')

theorem View.Driven.step (h : v.Driven g) (hs : PairStep c g v e v') (hgw : ∀ exch, c.hasGateway exch = true) :
    v'.Driven g := by
  have hfound : ∀ exch, (c.findGateway exch).isSome = true := fun exch => by simp [findGateway, hgw]
  intro p' hp'
  cases hs with
  | other _ => exact h p' hp'
  | addLeg _ hp => exact h.addLeg hp p' hp'
  | enterReturns _ hst =>
    exact (h p' hp').mono (fun _ => rfl) (fun he => absurd he (hst p' hp')) (fun _ _ h => h)
      (fun _ hgo => hgo.mono (fun _ hx => hx) fun d hd hsend => (List.mem_erase_of_ne fun he => by
        rw [he] at hsend; exact hsend).mpr hd) id
  | enterRefused _ _ _ _ | deadline _ _ _ _ | riskDex _ _ _ =>
    obtain rfl := Option.some.inj hp'
    trivial
  | enterDispatches _ _ _ _ =>
    obtain rfl := Option.some.inj hp'
    exact fun b => .inr ⟨_, List.mem_cons_self .., trivial⟩
  | lookupFails _ hp | unwindResultIdle _ hp => rw [show v.pair = some p' from hp'] at hp; cases hp
  | lookup _ hp =>
    refine (h p' hp').advance rfl (fun d hd hne => List.mem_cons_of_mem _ ((List.mem_erase_of_ne hne).mpr hd))
      (fun _ hx => hx) (fun _ hw => hw) fun b _ => .inr ⟨_, List.mem_cons_self .., ?_⟩
    show (if b then _ else _ : Option Exchange).isSome = true
    split <;> exact hfound _
  | @sendCex now gw₁ gw₂ o₁ o₂ _ =>
    rw [show _ = v.pair from pair_send ..] at hp'
    refine (h p' hp').advance rfl (fun d hd hne => List.mem_cons_of_mem _ ((List.mem_erase_of_ne hne).mpr hd))
      (fun _ hx => View.log_send hx) (fun _ hw => View.workers_send hw) fun b hsend => ?_
    cases b with
    | true =>
      obtain ⟨gw, rfl⟩ := Option.isSome_iff_exists.mp hsend
      exact .inl ⟨gw, o₁, List.mem_cons_self ..⟩
    | false => exact .inr ⟨_, List.mem_cons_self .., rfl, hsend⟩
  | @sendDex now gw o _ =>
    rw [show _ = v.pair from pair_send ..] at hp'
    refine (h p' hp').advance rfl (fun d hd hne => List.mem_cons_of_mem _ ((List.mem_erase_of_ne hne).mpr hd))
      (fun _ hx => View.log_send hx) (fun _ hw => View.workers_send hw) fun b hsend => ?_
    obtain ⟨rfl, hsome⟩ := hsend
    obtain ⟨gw, rfl⟩ := Option.isSome_iff_exists.mp hsome
    exact .inl ⟨gw, o, List.mem_cons_self ..⟩
  | startMonitor _ =>
    exact (h p' hp').advance rfl (fun d hd hne => (List.mem_erase_of_ne hne).mpr hd) (fun _ hx => hx)
      (fun _ hw => List.mem_cons_of_mem _ hw) fun _ hsend => hsend.elim
  | deadlineIdle _ hidle =>
    refine (h p' hp').mono (fun _ => rfl) (fun _ h => h) (fun hs hb _ => ?_)
      (fun _ hgo => hgo.same rfl rfl) (View.unwinding_erase rfl).mpr
    rw [hidle p' hp' hs] at hb
    cases hb
  | sendResultIdle _ _ | riskIdle _ _ => exact (h p' hp').join (.refl _) (by simp) rfl _
  | sendSucceeded _ hp _ _ =>
    obtain rfl := Option.some.inj hp'
    rw [status_acknowledged]
    exact (h _ hp).join (ArbPair.sameLegs_acknowledged ..) (by simp) rfl _
  | sendFailed _ _ _ _ | legRejected _ _ =>
    obtain rfl := Option.some.inj hp'
    exact View.awaits_reject hgw ..
  | @riskCex r now p _ _ _ =>
    obtain rfl := Option.some.inj hp'
    refine ⟨.unwindSend g p.cexLeg.signal.exchange (c.unwindOrder p now), ?_, rfl⟩
    simp only [View.unwind, hgw, if_true]
    exact List.mem_cons_self ..
  | @unwindSend gw o r now _ =>
    refine (h p' hp').mono (fun _ => rfl) (fun _ h => h)
      (fun _ _ hm => List.mem_cons_of_mem _ ((List.mem_erase_of_ne (by simp)).mpr hm))
      (fun _ hgo => hgo.mono (fun _ hx => List.mem_cons_of_mem _ hx) fun _ hd _ => hd)
      fun _ => ⟨_, List.mem_cons_self .., rfl⟩
  | @unwindResult r now p _ _ =>
    obtain rfl := Option.some.inj hp'
    cases r.success <;> trivial
  | @firstFill x price qty now p b _ hp hst =>
    obtain rfl := Option.some.inj hp'
    have hgoes : ∀ b, v.LegGoes g b := by
      have := h p hp
      rwa [hst] at this
    cases b <;> exact fun b => (hgoes b).same rfl rfl
  | secondFill _ _ _ =>
    obtain rfl := Option.some.inj hp'
    trivial
  | @lateFill x price qty now p b _ hp _ _ =>
    obtain rfl := Option.some.inj hp'
    rw [status_fillLeg]
    exact (h p hp).mono (fun _ => (ArbPair.sameLegs_fillLeg ..).bothLegsPresent) (fun _ h => h) (fun _ _ h => h)
      (fun _ hgo => hgo.same rfl rfl) id

end

/-! ## What a pair shows of its legs -/

/-- The status shows the leg filled, or the pair is past that. -/
def View.Shows (v : View) (isCex : Bool) : Prop :=
  v.rank = 3 ∨ ∃ p, v.pair = some p ∧ p.status = ArbPair.oneSided isCex

section
variable {c : ArbCoordinator} {g : CStr 15} {v v' : View} {e : ArbEvent} {p : ArbPair} {b : Bool} {x : Bytes}
  {price qty : ℚ} {isReject : Bool} {now : Int} {r : OrderResult}

theorem View.rank_reject (v : View) (p : ArbPair) (b : Bool) (now : Int) : (v.reject c g p b now).rank = 3 := by
  rw [View.rank_of_pair (pair_reject ..), rank_rejected]

theorem PairStep.rank_three (h : PairStep c g v e v') (h3 : v.rank = 3) : v'.rank = 3 :=
  Nat.le_antisymm v'.rank_le (h3 ▸ h.rank_le)

/-- From the first fill on, a status stays until the pair is past it. -/
theorem PairStep.status_stays (h : PairStep c g v e v') (hp : v.pair = some p) (h2 : 2 ≤ p.status.rank) :
    v'.rank = 3 ∨ ∃ p', v'.pair = some p' ∧ p'.status = p.status := by
  cases h with
  | addLeg _ hq =>
    refine .inr ⟨_, rfl, ?_⟩
    rw [hq, status_withLeg, hp, Option.getD_some]
  | enterRefused _ _ _ _ | deadline _ _ _ _ | riskCex _ _ _ | riskDex _ _ _ | secondFill _ _ _ => exact .inl rfl
  | enterDispatches _ hq hst _ | firstFill _ hq hst =>
    obtain rfl := Option.some.inj (hp.symm.trans hq)
    rw [hst] at h2
    exact absurd h2 (by decide)
  | sendCex _ | sendDex _ => exact .inr ⟨p, (pair_send ..).trans hp, rfl⟩
  | sendSucceeded _ hq _ _ =>
    obtain rfl := Option.some.inj (hp.symm.trans hq)
    exact .inr ⟨_, rfl, status_acknowledged ..⟩
  | sendFailed _ _ _ _ | legRejected _ _ => exact .inl (View.rank_reject ..)
  | @unwindResult r now q _ _ =>
    left
    cases hr : r.success <;> simp [View.rank, ArbPairStatus.rank]
  | lateFill _ hq _ _ =>
    obtain rfl := Option.some.inj (hp.symm.trans hq)
    exact .inr ⟨_, rfl, status_fillLeg ..⟩
  | _ => exact .inr ⟨p, hp, rfl⟩

theorem View.Shows.step (h : v.Shows b) (hs : PairStep c g v e v') : v'.Shows b := by
  rcases h with h3 | ⟨p, hp, hst⟩
  · exact .inl (hs.rank_three h3)
  · refine (hs.status_stays hp (by rw [hst, rank_oneSided])).imp_right ?_
    rintro ⟨p', hp', he⟩
    exact ⟨p', hp', he.trans hst⟩

/-- After the message of a leg the pair shows the leg. -/
theorem PairStep.shows (h : PairStep c g v (.onFill x price qty isReject now) v')
    (hf : c.findLeg x = some (g, p, b)) (hd : v.Driven g) (hrank : 1 ≤ v.rank) : v'.Shows b := by
  have leg : ∀ {q b'}, c.findLeg x = some (g, q, b') → b' = b := fun hf' => by
    rw [hf] at hf'
    simpa using (congrArg (Option.map fun y => y.2.2) hf').symm
  cases h with
  | other ht => exact absurd (by rw [ArbCoordinator.touched, hf]; rfl) ht
  | legRejected _ _ => exact .inl (View.rank_reject ..)
  | firstFill hf' _ _ =>
    obtain rfl := leg hf'
    exact .inr ⟨_, rfl, rfl⟩
  | secondFill _ _ _ => exact .inl rfl
  | @lateFill _ _ _ _ q b' hf' hq hdispatched hother =>
    obtain rfl := leg hf'
    have hawaits := hd q hq
    rw [View.rank_of_pair hq] at hrank
    rw [View.Shows, View.rank_of_pair rfl, status_fillLeg]
    cases hst : q.status with
    | ASSEMBLING =>
      rw [hst] at hrank
      exact absurd hrank (by decide)
    | DISPATCHED => exact absurd hst hdispatched
    | CEX_FILLED | DEX_FILLED =>
      right
      refine ⟨_, rfl, ?_⟩
      rw [status_fillLeg]
      cases b' with
      | true => first | exact hst | exact absurd hst hother
      | false => first | exact hst | exact absurd hst hother
    | ALL_FILLED =>
      rw [hst] at hawaits
      exact hawaits.elim
    | UNWINDING | FAILED | COMPLETED => exact .inl rfl

theorem PairStep.rank_refused (h : PairStep c g v (.worker (.sendResult g b) r now) v') (hr : r.success = false)
    (hp : v.pair = some p) (hb : p.hasLeg b = true) : v'.rank = 3 := by
  cases h with
  | other ht => exact absurd rfl ht
  | sendResultIdle _ hidle =>
    rw [hidle p hp] at hb
    cases hb
  | sendSucceeded _ _ _ hsucc =>
    rw [hr] at hsucc
    cases hsucc
  | sendFailed _ _ _ _ => exact View.rank_reject ..

/-- What is in the log as sent is what the step hands over. -/
theorem PairStep.handed {role : LegRole} {gw : Exchange} {o : Order} (h : PairStep c g v e v')
    (hx : .sendOrder g role gw o ∈ v'.log) :
    .sendOrder g role gw o ∈ v.log ∨ ⟨.pair g role, gw, o⟩ ∈ (ManagerEvent.arb e).handed := by
  have reject : ∀ {w : View} {p : ArbPair} {b : Bool} {now : Int},
      .sendOrder g role gw o ∈ (w.reject c g p b now).log → .sendOrder g role gw o ∈ w.log := by
    intro w p b now hx
    unfold View.reject at hx
    split at hx
    · exact (List.mem_cons.mp hx).resolve_left (by simp)
    · exact hx
  cases h with
  | enterDispatches _ _ _ _ => exact .inl ((List.mem_cons.mp hx).resolve_left (by simp))
  | @sendCex now gw₁ gw₂ o₁ o₂ _ =>
    cases gw₁ with
    | none => exact .inl hx
    | some y =>
      refine (List.mem_cons.mp hx).symm.imp_right fun he => ?_
      obtain ⟨-, rfl, rfl, rfl⟩ := ArbEffect.sendOrder.inj he
      exact List.mem_singleton_self _
  | @sendDex now gw₂ o₂ _ =>
    cases gw₂ with
    | none => exact .inl hx
    | some y =>
      refine (List.mem_cons.mp hx).symm.imp_right fun he => ?_
      obtain ⟨-, rfl, rfl, rfl⟩ := ArbEffect.sendOrder.inj he
      exact List.mem_singleton_self _
  | sendFailed _ _ _ _ | legRejected _ _ =>
    have hold := reject hx
    exact .inl hold
  | riskCex _ _ _ => exact .inl ((List.mem_cons.mp hx).resolve_left (by simp))
  | unwindSend _ =>
    refine (List.mem_cons.mp hx).symm.imp_right fun he => ?_
    obtain ⟨-, rfl, rfl, rfl⟩ := ArbEffect.sendOrder.inj he
    exact List.mem_singleton_self _
  | secondFill _ _ _ => exact .inl (by simpa using hx)
  | _ => exact .inl hx

theorem OrderManager.handed_arb {m : OrderManager} {me : ManagerEvent} (h : m.arbEvent me = some e) {y : Handover}
    (hy : y ∈ (ManagerEvent.arb e).handed) : y ∈ me.handed := by
  cases me with
  | processSignal s receiveNs now =>
    simp only [arbEvent] at h
    split at h
    · obtain rfl := Option.some.inj h
      split at hy <;> cases hy
    · cases h
  | task t answers r now =>
    cases t with
    | reserve o | release o =>
      obtain rfl := Option.some.inj h
      cases hy
    | result o =>
      simp only [arbEvent] at h
      split at h <;> cases h
      cases hy
    | _ => cases h
  | arb a =>
    obtain rfl := Option.some.inj h
    exact hy
  | onFill f now =>
    obtain rfl := Option.some.inj h
    cases hy
  | finishFill f =>
    obtain ⟨z, -, rfl⟩ := Option.map_eq_some_iff.mp h
    cases hy

end

/-! ## The pair in the coordinator -/

/-- Every exchange has its gateway, the orders of the pair are those of its legs,
and the pair is driven on. -/
structure ArbCoordinator.Tended (c : ArbCoordinator) (g : CStr 15) : Prop where
  gateways : ∀ exch, c.hasGateway exch = true
  dispatched : .dispatched g ∈ (c.view g).log ∨ (c.view g).Undispatched g
  asAdded : (c.view g).AsAdded c.hasGateway g
  driven : (c.view g).Driven g

namespace ArbCoordinator

section
variable {c c' : ArbCoordinator} {g : CStr 15} {e : ArbEvent} {b : Bool} {o : Order} {others : List (CStr 15)}

theorem Tended.step (h : c.Tended g) (ht : Tagged c others) (hkept : LegsKept g c e)
    (hmsg : ∀ x price qty isReject now p b, e = .onFill x price qty isReject now → c.findLeg x = some (g, p, b) →
      (c.view g).log ≠ []) (hs : c.step e = some c') : c'.Tended g := by
  have hview := step_view ht.keyed hs g
  have hgw : c'.hasGateway = c.hasGateway := hasGateway_step hs
  refine ⟨by rw [hgw]; exact h.gateways, hview.dispatched h.dispatched hmsg, ?_, h.driven.step hview h.gateways⟩
  rw [hgw]
  exact h.asAdded.step hview rfl (ht.complete g) hkept (h.dispatched.imp_left List.mem_of_mem_filter)

theorem tended_init (config : ArbConfig) (portfolio : PortfolioGuard) {hasGateway : Exchange → Bool}
    (hgw : ∀ exch, hasGateway exch = true) (g : CStr 15) : (init config portfolio hasGateway).Tended g where
  gateways := hgw
  dispatched := (World.ledger_init (W := signed) (R := Eq) config portfolio hasGateway).dispatched
  asAdded := (World.ledger_init (W := signed) (R := Eq) config portfolio hasGateway).asAdded
  driven := fun _ hp => by cases hp

/-- An order that was sent for a leg is the order of the leg. -/
theorem Tended.finds (h : c.Tended g) (ht : Tagged c others) (hs : c.Sent g (legRole b) o) :
    ∃ p, c.findLeg o.exchangeId = some (g, p, b) ∧ (c.view g).pair = some p ∧ p.hasLeg b = true := by
  obtain ⟨gw, hlog⟩ := World.sent_log hs
  obtain ⟨p, hp, hb, hid, hsig⟩ := h.asAdded.orders b o
    (View.mem_orders.mpr (.inr (.inr ⟨_, hlog, by simp [ArbEffect.orders]⟩)))
  refine ⟨p, ?_, hp, hb⟩
  have htyped : o.signal.isCexLeg = b := by
    rw [hsig]
    exact h.asAdded.typed p b hp hb
  rw [Order.exchangeId_eq, htyped, hid]
  exact findLeg_leg ht hp hb

end

end ArbCoordinator

/-! ## The pair in the deployment -/

namespace Deployment

def arbEvent (d : Deployment) (de : DeploymentEvent) : Option ArbEvent := de.managerEvent.bind d.om.arbEvent

/-- What was handed over for the pair, reported and refused is known to it. -/
structure Paired (d : Deployment) (g : CStr 15) : Prop where
  tended : d.om.arb.Tended g
  handed : ∀ role gw o, .sendOrder g role gw o ∈ (d.om.arb.view g).log → ⟨.pair g role, gw, o⟩ ∈ d.handed
  reported : ∀ x ∈ d.handed, ∀ b, x.sender = .pair g (legRole b) → 0 < d.reported x.order.exchangeId →
    (d.om.arb.view g).Shows b
  refused : ∀ a ∈ d.answered, ∀ b, a.1.sender = .pair g (legRole b) → a.2.success = false →
    a ∈ d.results ∨ (d.om.arb.view g).rank = 3

section
variable {d d' : Deployment} {m : Market} {g : CStr 15} {x y : Handover} {e : ManagerEvent} {b : Bool}

theorem Refines.sent_leg (hd : d.Refines m) (hx : x ∈ d.handed) (hs : x.sender = .pair g (legRole b)) :
    d.om.arb.Sent g (legRole b) x.order := by
  have := hd.sent x hx
  rw [hs] at this
  rw [← hd.om]
  exact this

theorem Refines.tagged (hd : d.Refines m) : Tagged d.om.arb m.others := by
  rw [← hd.om]
  exact hd.once.orderly.tagged

theorem Refines.rank_sent (hd : d.Refines m) (hx : x ∈ d.handed) (hs : x.sender = .pair g (legRole b)) :
    1 ≤ (d.om.arb.view g).rank := by
  obtain ⟨gw, hlog⟩ := World.sent_log (hd.sent_leg hx hs)
  obtain ⟨s, hstage⟩ := (hd.once.pairs g).stage
  rw [hd.om] at hstage
  cases hstage with
  | before _ _ hnone =>
    have hleg := View.mem_legSends hlog
    rw [hnone] at hleg
    cases hleg
  | after _ hrank _ => exact hrank

/-- A message that names a leg of the pair is one of an order that was sent for it. -/
theorem Refines.message_sent (hd : d.Refines m) {gw : Exchange} {f : Fill} {s : GatewayState}
    (hs : (d.gateways gw).step (.callback f) = some s) {p : ArbPair}
    (hf : d.om.arb.findLeg f.exchangeOrderId.bytes = some (g, p, b)) : (d.om.arb.view g).log ≠ [] := by
  obtain ⟨-, -, hholds, -⟩ := GatewayState.callback_counts hs
  have hgw := waiting_setGateway d gw s f.exchangeOrderId.bytes
  have hheld := hholds f.exchangeOrderId.bytes
  rw [if_pos rfl] at hheld
  obtain ⟨x, hx, hid⟩ := hd.tracked.known f.exchangeOrderId.bytes (by omega)
  rw [← hid] at hf
  have hsent := hd.sent x hx
  obtain ⟨id, hname, huses⟩ := findLeg_uses hf
  obtain ⟨-, rfl⟩ := exchangeIdOf_inj ((Order.exchangeId_eq x.order).symm.trans hname)
  cases hsender : x.sender with
  | single =>
    rw [hsender] at hsent
    exact absurd (hd.once.orderly.sent_others hsent) (hd.tagged.apart g _ _ huses)
  | pair g' role =>
    rw [hsender] at hsent
    have hsent' : d.om.arb.Sent g' role x.order := hd.om ▸ hsent
    obtain ⟨rfl, -⟩ := hd.tagged.unique _ _ _ _ _ huses (World.sent_uses hsent')
    obtain ⟨y, hlog⟩ := World.sent_log hsent'
    exact List.ne_nil_of_mem hlog

theorem reported_silent {gw : Exchange} {s : GatewayState} {ge : GatewayEvent}
    (hs : (d.gateways gw).step ge = some s) (he : ∀ f, ge ≠ .callback f) (id : Bytes) :
    (d.setGateway gw s).reported id = d.reported id := by
  have h := reported_setGateway d gw s id
  rw [GatewayState.reported_step hs he] at h
  exact Nat.add_right_cancel h

/-- The gateways' own steps. -/
theorem Paired.gateway (h : d.Paired g) (hom : d'.om = d.om) (hhanded : d'.handed = d.handed)
    (hreported : ∀ id, d'.reported id = d.reported id)
    (hanswered : ∀ a ∈ d'.answered, a ∈ d'.results ∨ a ∈ d.answered ∧ (a ∈ d.results → a ∈ d'.results)) :
    d'.Paired g := by
  refine ⟨by rw [hom]; exact h.tended, by rw [hom, hhanded]; exact h.handed, ?_, ?_⟩
  · intro x hx b hs hpos
    rw [hhanded] at hx
    rw [hreported] at hpos
    rw [hom]
    exact h.reported x hx b hs hpos
  · intro a ha b hs hfail
    rw [hom]
    rcases hanswered a ha with hres | ⟨hold, hkept⟩
    · exact .inl hres
    · exact (h.refused a hold b hs hfail).imp_left hkept

/-- What a step of the manager does to the pair. -/
theorem Paired.pair_step (h : d.Paired g) (hd : d.Refines m) {om : OrderManager} (hom : d.om.step e = some om)
    (hkept : ∀ a ∈ d.om.arbEvent e, LegsKept g d.om.arb a)
    (hmsg : ∀ f now p b, e = .onFill f now → d.om.arb.findLeg f.exchangeOrderId.bytes = some (g, p, b) →
      (d.om.arb.view g).log ≠ []) :
    om.arb.Tended g ∧
    (∀ role gw o, .sendOrder g role gw o ∈ (om.arb.view g).log →
      .sendOrder g role gw o ∈ (d.om.arb.view g).log ∨ ⟨.pair g role, gw, o⟩ ∈ e.handed) ∧
    (∀ b, (d.om.arb.view g).Shows b → (om.arb.view g).Shows b) ∧
    ((d.om.arb.view g).rank = 3 → (om.arb.view g).rank = 3) := by
  rcases OrderManager.arb_step hom with ⟨-, harb⟩ | ⟨a, ha, hstep⟩
  · rw [harb]
    exact ⟨h.tended, fun _ _ _ => .inl, fun _ => id, id⟩
  · have hview := step_view hd.tagged.keyed hstep g
    refine ⟨h.tended.step hd.tagged (hkept a ha) ?_ hstep, fun role gw o hlog => ?_,
      fun b hshows => hshows.step hview, hview.rank_three⟩
    · rintro x price qty isReject now p b rfl hf
      by_cases he : ∃ f now, e = .onFill f now
      · obtain ⟨f, now', rfl⟩ := he
        cases ha
        exact hmsg f _ p b rfl hf
      · -- only a message makes the coordinator look for a leg
        simp only [not_exists] at he
        cases OrderManager.isMessage_arbEvent hom ha he
    · exact (hview.handed hlog).imp_right (OrderManager.handed_arb ha)

/-- A step of the manager. -/
theorem Paired.manage (h : d.Paired g) (hd : d.Refines m) (hom : d.om.step e = some d'.om)
    (hkept : ∀ a ∈ d.om.arbEvent e, LegsKept g d.om.arb a)
    (hmsg : ∀ f now p b, e = .onFill f now → d.om.arb.findLeg f.exchangeOrderId.bytes = some (g, p, b) →
      (d.om.arb.view g).log ≠ [])
    (hhanded : ∀ x, x ∈ d.handed ∨ x ∈ e.handed → x ∈ d'.handed)
    (hreported : ∀ x ∈ d'.handed, ∀ b, x.sender = .pair g (legRole b) → 0 < d'.reported x.order.exchangeId →
      x ∈ d.handed ∧ 0 < d.reported x.order.exchangeId ∨ (d'.om.arb.view g).Shows b)
    (hrefused : ∀ a ∈ d'.answered, ∀ b, a.1.sender = .pair g (legRole b) → a.2.success = false →
      a ∈ d.answered ∧ (a ∈ d.results → a ∈ d'.results) ∨ (d'.om.arb.view g).rank = 3) : d'.Paired g := by
  obtain ⟨htended, hlogged, hshows, hrank⟩ := h.pair_step hd hom hkept hmsg
  refine ⟨htended, fun role gw o hlog => hhanded _ ((hlogged role gw o hlog).imp_left (h.handed role gw o)), ?_, ?_⟩
  · intro x hx b hs hpos
    rcases hreported x hx b hs hpos with ⟨hold, hpos⟩ | hnew
    · exact hshows b (h.reported x hold b hs hpos)
    · exact hnew
  · intro a ha b hs hfail
    rcases hrefused a ha b hs hfail with ⟨hold, hkeep⟩ | hnew
    · exact (h.refused a hold b hs hfail).imp hkeep hrank
    · exact .inr hnew

/-- The result of a refused leg is the end of the pair. -/
theorem Paired.result_refused (h : d.Paired g) (hd : d.Refines m) {om : OrderManager} {r : OrderResult} {now : Int}
    (hx : x ∈ d.handed) (hs : x.sender = .pair g (legRole b)) (hfail : r.success = false)
    (hom : d.om.step (x.resultEvent r now) = some om) : (om.arb.view g).rank = 3 := by
  have hevent : x.resultEvent r now = .arb (.worker (.sendResult g b) r now) := by
    unfold Handover.resultEvent
    rw [hs]
    cases b <;> rfl
  rw [hevent] at hom
  obtain ⟨c, hstep, rfl⟩ := Option.map_eq_some_iff.mp (show (d.om.arb.step _).map d.om.setArb = some om from hom)
  obtain ⟨p, -, hp, hb⟩ := h.tended.finds hd.tagged (hd.sent_leg hx hs)
  exact (step_view hd.tagged.keyed hstep g).rank_refused hfail hp hb

/-- The report of a leg makes the pair show it. -/
theorem Paired.callback_shows (h : d.Paired g) (hd : d.Refines m) {f : Fill} (now : Int) (hx : x ∈ d.handed)
    (hs : x.sender = .pair g (legRole b)) (hid : f.exchangeOrderId.bytes = x.order.exchangeId) :
    ((d.om.onFill f now).arb.view g).Shows b := by
  obtain ⟨p, hf, -, -⟩ := h.tended.finds hd.tagged (hd.sent_leg hx hs)
  rw [← hid] at hf
  exact (step_view hd.tagged.keyed rfl g).shows hf h.tended.driven (hd.rank_sent hx hs)

theorem Paired.step (h : d.Paired g) (hd : d.Refines m) (hd' : d'.Tracked) {de : DeploymentEvent}
    (hkept : ∀ a ∈ d.arbEvent de, LegsKept g d.om.arb a) (hs : d.step de = some d') : d'.Paired g := by
  cases de with
  | code e =>
    simp only [Deployment.step] at hs
    split at hs
    · next hc =>
      obtain ⟨om, hom, rfl⟩ := Option.map_eq_some_iff.mp hs
      refine h.manage hd hom hkept ?_ (fun x hx => List.mem_append.mpr hx.symm) ?_ fun a ha _ _ _ => .inl ⟨ha, id⟩
      · rintro f now p b rfl
        cases hc.1
      · intro x hx b _ hpos
        -- an order is not reported before it is handed over
        obtain ⟨y, hy, hid⟩ := hd.tracked.known x.order.exchangeId (Nat.add_pos_right _ hpos)
        obtain rfl := hd'.eq_of_id (List.mem_append_right _ hy) hx hid
        exact .inl ⟨hy, hpos⟩
    · cases hs
  | result y r now =>
    simp only [Deployment.step] at hs
    split at hs
    · next hmem =>
      obtain ⟨om, hom, rfl⟩ := Option.map_eq_some_iff.mp hs
      refine h.manage hd hom hkept ?_ (fun x hx => ?_) (fun x hx _ _ hpos => .inl ⟨hx, hpos⟩)
        fun a ha b hsender hfail => ?_
      · intro f now' p b he
        have := (y.resultEvent_spec r now).1
        rw [he] at this
        cases this
      · rcases hx with hx | hx
        · exact hx
        · rw [(y.resultEvent_spec r now).2.1] at hx
          cases hx
      · by_cases hay : a = (y, r)
        · subst hay
          exact .inr (h.result_refused hd (hd.tracked.answered _ ha) hsender hfail hom)
        · exact .inl ⟨ha, fun hres => (List.mem_erase_of_ne hay).mpr hres⟩
    · cases hs
  | sendOrder x txHash draw latencyNs =>
    simp only [Deployment.step] at hs
    split at hs
    · next hx =>
      obtain ⟨s, hgw, rfl⟩ := Option.map_eq_some_iff.mp hs
      refine h.gateway rfl rfl (reported_silent hgw fun _ he => by cases he) fun a ha => ?_
      rcases List.mem_cons.mp ha with rfl | ha
      · exact .inl (List.mem_cons_self ..)
      · exact .inr ⟨ha, List.mem_cons_of_mem _⟩
    · cases hs
  | check gw o txHash draw now =>
    simp only [Deployment.step] at hs
    obtain ⟨s, hgw, rfl⟩ := Option.map_eq_some_iff.mp hs
    exact h.gateway rfl rfl (reported_silent hgw fun _ he => by cases he) fun a ha => .inr ⟨ha, id⟩
  | cancelOrder gw id =>
    simp only [Deployment.step] at hs
    obtain ⟨s, hgw, rfl⟩ := Option.map_eq_some_iff.mp hs
    exact h.gateway rfl rfl (reported_silent hgw fun _ he => by cases he) fun a ha => .inr ⟨ha, fun hres => hres⟩
  | callback gw f now =>
    simp only [Deployment.step] at hs
    split at hs
    · obtain ⟨s, hgw, rfl⟩ := Option.map_eq_some_iff.mp hs
      have hreports := (GatewayState.callback_counts hgw).2.2.2
      refine h.manage hd (e := .onFill f now) rfl hkept ?_
        (fun x hx => hx.resolve_right (by simp [ManagerEvent.handed])) (fun x hx b hsender hpos => ?_)
        fun a ha _ _ _ => .inl ⟨ha, id⟩
      · rintro f' now' p b he hf
        cases he
        exact hd.message_sent hgw hf
      · by_cases hid : f.exchangeOrderId.bytes = x.order.exchangeId
        · exact .inr (h.callback_shows hd now hx hsender hid)
        · refine .inl ⟨hx, ?_⟩
          have h₁ := reported_setGateway d gw s x.order.exchangeId
          rw [hreports, if_neg hid] at h₁
          exact Nat.add_right_cancel h₁ ▸ hpos
    · cases hs
  | finish gw f =>
    simp only [Deployment.step] at hs
    split at hs
    · next hf =>
      obtain rfl := Option.some.inj hs
      refine h.manage hd (e := .finishFill f) rfl hkept ?_
        (fun x hx => hx.resolve_right (by simp [ManagerEvent.handed])) (fun x hx _ _ hpos => .inl ⟨hx, hpos⟩)
        fun a ha _ _ _ => .inl ⟨ha, id⟩
      intro f' now' p b he
      cases he
    · cases hs

/-! ### At rest -/

/-- No thread is left that has to do with a pair, nor a result or a callback. -/
structure AtRest (d : Deployment) : Prop where
  calls : d.om.arb.calls = []
  workers : d.om.arb.workers = []
  sending : d.sending = []
  results : d.results = []
  gateways : ∀ gw, (d.gateways gw).threads = [] ∧ (d.gateways gw).callbacks = []

/-- The gateway took the leg's order and reports it no more, for a cancel was first. -/
def LegCancelled (d : Deployment) (g : CStr 15) (isCex : Bool) : Prop :=
  ∃ x ∈ d.handed, x.sender = .pair g (legRole isCex) ∧ ¬ d.Refused x ∧ d.reported x.order.exchangeId = 0 ∧
    d.Cancelled x

theorem AtRest.waiting (h : d.AtRest) (id : Bytes) : d.waiting id = 0 := by
  have hholds : ∀ gw, (d.gateways gw).holds id = 0 := by
    intro gw
    rw [GatewayState.holds, (h.gateways gw).1, (h.gateways gw).2]
    rfl
  simp only [Deployment.waiting, h.sending, overGateways, hholds]
  rfl

/-- At rest a leg that was sent shows in the status, or was cancelled. -/
theorem Paired.leg_at_rest (h : d.Paired g) (ht : d.Tracked) (hrest : d.AtRest)
    (hgoes : (d.om.arb.view g).LegGoes g b) : (d.om.arb.view g).Shows b ∨ d.LegCancelled g b := by
  obtain ⟨gw, o, hlog⟩ : ∃ gw o, .sendOrder g (legRole b) gw o ∈ (d.om.arb.view g).log := by
    refine hgoes.resolve_right ?_
    rintro ⟨call, hcall, -⟩
    have := List.mem_of_mem_filter hcall
    rw [hrest.calls] at this
    cases this
  have hx := h.handed _ _ _ hlog
  generalize hxo : (⟨.pair g (legRole b), gw, o⟩ : Handover) = x at hx
  have hs : x.sender = .pair g (legRole b) := by rw [← hxo]
  by_cases hpos : 0 < d.reported x.order.exchangeId
  · exact .inl (h.reported x hx b hs hpos)
  · by_cases href : d.Refused x
    · obtain ⟨a, ha, rfl, hfail⟩ := href
      refine .inl (.inl ((h.refused a ha b hs hfail).resolve_left ?_))
      rw [hrest.results]
      exact List.not_mem_nil
    · have hzero := Nat.eq_zero_of_not_pos hpos
      refine .inr ⟨x, hx, hs, href, hzero, ?_⟩
      rcases ht.accounted x hx with hone | href' | hc
      · rw [hrest.waiting, hzero] at hone
        cases hone
      · exact absurd href' href
      · exact hc

theorem Paired.at_rest (h : d.Paired g) (ht : d.Tracked) (hrest : d.AtRest) {p : ArbPair}
    (hp : d.om.arb.pairs.lookup g = some p) : p.status.isFinal = true ∨
      p.status.isOpen = true ∧ ∀ b, p.status ≠ ArbPair.oneSided b → d.LegCancelled g b := by
  have hworkers : (d.om.arb.view g).workers = [] := by
    rw [ArbCoordinator.view, hrest.workers]
    rfl
  have hcalls : (d.om.arb.view g).calls = [] := by
    rw [ArbCoordinator.view, hrest.calls]
    rfl
  have hpair : (d.om.arb.view g).pair = some p := hp
  have hdriven := h.tended.driven p hpair
  -- a leg that the status does not show was cancelled
  have hleg : p.status.rank ≠ 3 → (∀ b, (d.om.arb.view g).LegGoes g b) → ∀ b, p.status ≠ ArbPair.oneSided b →
      d.LegCancelled g b := by
    intro hrank hgoes b hst
    refine (h.leg_at_rest ht hrest (hgoes b)).resolve_left ?_
    rintro (h3 | ⟨q, hq, hq'⟩)
    · rw [View.rank_of_pair hpair] at h3
      exact hrank h3
    · obtain rfl := Option.some.inj (hpair.symm.trans hq)
      exact hst hq'
  cases hst : p.status with
  | ASSEMBLING =>
    rw [hst] at hdriven
    simp only [View.Awaits, hcalls, hworkers, List.not_mem_nil, ite_self] at hdriven
  | UNWINDING =>
    rw [hst] at hdriven
    obtain ⟨w, hw, -⟩ := hdriven
    rw [hworkers] at hw
    cases hw
  | ALL_FILLED =>
    rw [hst] at hdriven
    exact hdriven.elim
  | DISPATCHED | CEX_FILLED | DEX_FILLED =>
    rw [hst] at hdriven hleg
    exact .inr ⟨rfl, hleg (by decide) hdriven⟩
  | FAILED | COMPLETED => exact .inl rfl

end

end Deployment

section
variable (signalConfig : SignalConfig) (portfolioConfig : PortfolioConfig) (arbConfig : ArbConfig)
  (hasGateway : Exchange → Bool) (gateways : Exchange → MockGateway)

theorem paired_run (hkinds : ∀ gw, (gateways gw).exchangeType = getExchangeType gw)
    (hgateways : ∀ exch, hasGateway exch = true) {g : CStr 15} {es : List DeploymentEvent} {d : Deployment}
    (hids : Along Deployment.step (fun d _ => d.om.arb.uuid.orderCounter < 10 ^ 11)
      (.init signalConfig portfolioConfig arbConfig hasGateway gateways) es)
    (hkept : Along Deployment.step (fun d de => ∀ a ∈ d.arbEvent de, LegsKept g d.om.arb a)
      (.init signalConfig portfolioConfig arbConfig hasGateway gateways) es)
    (hr : run Deployment.step (.init signalConfig portfolioConfig arbConfig hasGateway gateways) es = some d) :
    d.Paired g ∧ d.Tracked := by
  suffices hI : d.Paired g ∧ ∃ m, d.Refines m by
    obtain ⟨h, m, hd⟩ := hI
    exact ⟨h, hd.tracked⟩
  refine inv_along (I := fun d => d.Paired g ∧ ∃ m, d.Refines m) (fun d de d' ⟨h, m, hd⟩ hc hs => ?_)
    (hids.and hkept) ⟨⟨?_, ?_, ?_, ?_⟩, _, Deployment.refines_init _ _ _ _ hkinds⟩ hr
  · obtain ⟨m', hd'⟩ : ∃ m', d'.Refines m' := by
      rcases hd.step hc.1 hs with ⟨-, hd'⟩ | ⟨_, m', -, -, hd'⟩
      · exact ⟨m, hd'⟩
      · exact ⟨m', hd'⟩
    exact ⟨h.step hd hd'.tracked hc.2 hs, m', hd'⟩
  · exact tended_init arbConfig (.init portfolioConfig) hgateways g
  · intro role gw o hlog
    cases hlog
  · intro x hx
    cases hx
  · intro a ha
    cases ha

/-- With a gateway for every exchange no pair is left open: once nothing is under
way it is `COMPLETED` or `FAILED`, or a cancel came before the report of each leg
that its status does not show as filled. -/
theorem pair_over_at_rest (hkinds : ∀ gw, (gateways gw).exchangeType = getExchangeType gw)
    (hgateways : ∀ exch, hasGateway exch = true) {g : CStr 15} {es : List DeploymentEvent} {d : Deployment}
    (hids : Along Deployment.step (fun d _ => d.om.arb.uuid.orderCounter < 10 ^ 11)
      (.init signalConfig portfolioConfig arbConfig hasGateway gateways) es)
    (hkept : Along Deployment.step (fun d de => ∀ a ∈ d.arbEvent de, LegsKept g d.om.arb a)
      (.init signalConfig portfolioConfig arbConfig hasGateway gateways) es)
    (hr : run Deployment.step (.init signalConfig portfolioConfig arbConfig hasGateway gateways) es = some d)
    (hrest : d.AtRest) (p : ArbPair) (hp : d.om.arb.pairs.lookup g = some p) : p.status.isFinal = true ∨
      p.status.isOpen = true ∧ ∀ b, p.status ≠ ArbPair.oneSided b → d.LegCancelled g b := by
  obtain ⟨h, ht⟩ := paired_run _ _ _ _ _ hkinds hgateways hids hkept hr
  exact h.at_rest ht hrest hp

end

namespace Sample

def cexHandover : Handover := ⟨.pair groupId .cexLeg, .BINANCE, cexOrder⟩

def dexHandover : Handover := ⟨.pair groupId .dexLeg, .HYPERLIQUID, dexOrder⟩

def answer (x : Handover) : OrderResult := (mockGateways x.gateway).sendOrder x.order .empty 0 0

def cexReport : Fill :=
  { exchangeOrderId := .copy 31 (exIdOf cexOrder.orderId), filledQty := 1, fillPrice := 100, fillTimestampNs := 5,
    isFinal := true }

/-- The risk window ends before the CEX leg fills, and the DEX leg is cancelled. -/
def legCancelled : List DeploymentEvent :=
  [.code (.processSignal cexSignal 1 1), .code (.processSignal dexSignal 1 1)] ++
  (dispatch.drop 2).map (fun a => .code (.arb a)) ++
  [.sendOrder cexHandover .empty 0 0, .sendOrder dexHandover .empty 0 0, .result cexHandover (answer cexHandover) 3,
   .result dexHandover (answer dexHandover) 3, .code (.arb (.worker (.deadline groupId) {} 4)),
   .code (.arb (.worker (.riskWindow groupId) {} 4)), .cancelOrder .HYPERLIQUID (hlIdOf dexOrder.orderId),
   .check .HYPERLIQUID dexOrder .empty 0 5, .check .BINANCE cexOrder .empty 0 5, .callback .BINANCE cexReport 6,
   .finish .BINANCE cexReport]

end Sample

theorem pair_over_at_rest_cancelled : ∃ d p, run Deployment.step Sample.deployment Sample.legCancelled = some d ∧
    d.AtRest ∧ d.om.arb.pairs.lookup Sample.groupId = some p ∧ p.status = .CEX_FILLED ∧
      d.LegCancelled Sample.groupId false := by
  obtain ⟨d, hd, hrest⟩ : ∃ d, run Deployment.step Sample.deployment Sample.legCancelled = some d ∧
      some (decide ((d.om.arb.calls = [] ∧ d.om.arb.workers = [] ∧ d.sending = [] ∧ d.results = []) ∧
        (∀ gw ∈ [Exchange.BINANCE, .BYBIT, .HYPERLIQUID],
          (d.gateways gw).threads = [] ∧ (d.gateways gw).callbacks = []) ∧
        d.om.arb.status Sample.groupId = some .CEX_FILLED)) = some true :=
    Option.bind_eq_some_iff.mp (show (run Deployment.step Sample.deployment Sample.legCancelled).bind (fun d =>
      some (decide ((d.om.arb.calls = [] ∧ d.om.arb.workers = [] ∧ d.sending = [] ∧ d.results = []) ∧
        (∀ gw ∈ [Exchange.BINANCE, .BYBIT, .HYPERLIQUID],
          (d.gateways gw).threads = [] ∧ (d.gateways gw).callbacks = []) ∧
        d.om.arb.status Sample.groupId = some .CEX_FILLED))) = some true by decide +kernel)
  obtain ⟨⟨hcalls, hworkers, hsending, hresults⟩, hgateways, hstatus⟩ := of_decide_eq_true (Option.some.inj hrest)
  have hrest : d.AtRest := by
    refine ⟨hcalls, hworkers, hsending, hresults, fun gw => hgateways gw ?_⟩
    cases gw <;> decide
  obtain ⟨p, hp, hst⟩ := Option.map_eq_some_iff.mp hstatus
  refine ⟨d, p, hd, hrest, hp, hst, ?_⟩
  rcases pair_over_at_rest {} {} {} (fun _ => true) Sample.mockGateways (fun gw => by cases gw <;> rfl) (fun _ => rfl)
    (by decide +kernel) (by decide +kernel) hd hrest p hp with hover | ⟨-, hopen⟩
  · rw [hst] at hover
    cases hover
  · exact hopen false (by rw [hst]; decide)

end OrderExecution
