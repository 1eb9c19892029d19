import OrderExecution.ArbOnce
import OrderExecution.ArbStatus

/-!
# The dispatch of a pair

`Sending` follows one call of `dispatch_pair` from the copies it makes under the
lock to the orders it hands to the gateways. A pair has one such call at most,
whose critical section found it assembling, complete and funded.
-/

namespace OrderExecution

open ArbCoordinator Machine

def ArbEffect.isLegSend : ArbEffect → Bool
  | .sendOrder _ .cexLeg _ _ | .sendOrder _ .dexLeg _ _ => true
  | .sendOrder _ .unwind _ _ | .dispatched _ | .startUnwind _ | .bookFill _ _ _ _ => false

def DispatchCall.isEnter : DispatchCall → Bool
  | .enter _ => true
  | .lookup _ _ _ | .sendCex _ _ _ _ _ | .sendDex _ _ _ | .startMonitor _ => false

def View.legSends (v : View) : List ArbEffect := v.log.filter (·.isLegSend)

/-- The calls of `dispatch_pair` that passed the critical section. -/
def View.ongoing (v : View) : List DispatchCall := v.calls.filter (!·.isEnter)

def ArbCoordinator.legSends (c : ArbCoordinator) (g : CStr 15) : List ArbEffect := (c.view g).legSends

def sendTo (g : CStr 15) (role : LegRole) (gw : Option Exchange) (o : Order) : List ArbEffect :=
  (gw.map fun x => .sendOrder g role x o).toList

/-- How far a call has sent the copies `o₁` and `o₂`: where it stands, and what
it gave to the gateways. -/
inductive Sending (g : CStr 15) (o₁ o₂ : Order) : List DispatchCall → List ArbEffect → Prop where
  | copied : Sending g o₁ o₂ [.lookup g o₁ o₂] []
  | found (gw₁ gw₂) : Sending g o₁ o₂ [.sendCex g gw₁ gw₂ o₁ o₂] []
  | cexSent (gw₁ gw₂) : Sending g o₁ o₂ [.sendDex g gw₂ o₂] (sendTo g .cexLeg gw₁ o₁)
  | bothSent (gw₁ gw₂) : Sending g o₁ o₂ [.startMonitor g] (sendTo g .dexLeg gw₂ o₂ ++ sendTo g .cexLeg gw₁ o₁)
  | finished (gw₁ gw₂) : Sending g o₁ o₂ [] (sendTo g .dexLeg gw₂ o₂ ++ sendTo g .cexLeg gw₁ o₁)

/-- Whether the pair was dispatched, and with which orders. -/
inductive View.Stage (g : CStr 15) (v : View) : Option (Order × Order) → Prop where
  | before : .dispatched g ∉ v.log → v.ongoing = [] → v.legSends = [] → Stage g v none
  | after {o₁ o₂} : v.log.count (.dispatched g) = 1 → 1 ≤ v.rank → Sending g o₁ o₂ v.ongoing v.legSends →
      Stage g v (some (o₁, o₂))

section
variable {c c' : ArbCoordinator} {g : CStr 15} {v v' : View} {e : ArbEvent} {p : ArbPair}
  {s : Option (Order × Order)} {d : DispatchCall} {o₁ o₂ : Order}

theorem View.ongoing_erase (v : View) (d : DispatchCall) :
    (v.calls.erase d).filter (!·.isEnter) = v.ongoing.erase d :=
  (List.erase_filter ..).symm

theorem View.ongoing_erase_enter (v : View) (g : CStr 15) :
    (v.calls.erase (.enter g)).filter (!·.isEnter) = v.ongoing := by
  rw [v.ongoing_erase]
  refine List.erase_of_not_mem fun hm => ?_
  have := (List.mem_filter.mp hm).2
  cases this

theorem View.mem_ongoing (hd : d ∈ v.calls) (he : d.isEnter = false) : d ∈ v.ongoing :=
  List.mem_filter.mpr ⟨hd, by rw [he]; rfl⟩

theorem View.Stage.of_same (h : v.Stage g s) (hcount : v'.log.count (.dispatched g) = v.log.count (.dispatched g))
    (hsends : v'.legSends = v.legSends) (hcalls : v'.ongoing = v.ongoing) (hrank : v.rank ≤ v'.rank) :
    v'.Stage g s := by
  cases h with
  | before hd ho hl =>
    refine .before ?_ (hcalls.trans ho) (hsends.trans hl)
    rwa [← List.count_eq_zero, hcount, List.count_eq_zero]
  | after hd hr hs => exact .after (hcount.trans hd) (hr.trans hrank) (by rw [hcalls, hsends]; exact hs)

theorem Sending.eq_singleton {l : List DispatchCall} {r : List ArbEffect} (h : Sending g o₁ o₂ l r) (hd : d ∈ l) :
    l = [d] := by
  cases h with
  | finished _ _ => cases hd
  | _ => rw [List.mem_singleton.mp hd]

theorem View.Stage.advance (h : v.Stage g s) (ds : List DispatchCall)
    (sends : List ArbEffect) (hd : d ∈ v.calls) (he : d.isEnter = false)
    (hcount : v'.log.count (.dispatched g) = v.log.count (.dispatched g))
    (hcalls : v'.ongoing = ds ++ v.ongoing.erase d) (hsends : v'.legSends = sends ++ v.legSends)
    (hrank : v.rank ≤ v'.rank) (hmove : ∀ o₁ o₂ r, Sending g o₁ o₂ [d] r → Sending g o₁ o₂ ds (sends ++ r)) :
    v'.Stage g s := by
  have hmem := View.mem_ongoing hd he
  cases h with
  | before _ ho _ =>
    rw [ho] at hmem
    cases hmem
  | after hc hr hs =>
    refine .after (hcount.trans hc) (hr.trans hrank) ?_
    have hone := hs.eq_singleton hmem
    rw [hone] at hs
    rw [hcalls, hsends, hone, List.erase_cons_head, List.append_nil]
    exact hmove _ _ _ hs

theorem legSends_send (v : View) (b : Bool) (gw : Option Exchange) (o : Order) :
    (v.send g b gw o).legSends = sendTo g (if b then .cexLeg else .dexLeg) gw o ++ v.legSends := by
  cases gw <;> cases b <;> rfl

theorem count_dispatched_send (v : View) (b : Bool) (gw : Option Exchange) (o : Order) :
    (v.send g b gw o).log.count (.dispatched g) = v.log.count (.dispatched g) := by
  cases gw with
  | none => rfl
  | some x => exact List.count_cons_of_ne (by simp)

theorem reject_log (v : View) (p : ArbPair) (b : Bool) (now : Int) :
    (v.reject c g p b now).log.count (.dispatched g) = v.log.count (.dispatched g) ∧
      (v.reject c g p b now).legSends = v.legSends ∧ (v.reject c g p b now).ongoing = v.ongoing := by
  unfold View.reject
  split
  · exact ⟨List.count_cons_of_ne (by simp), rfl, rfl⟩
  · exact ⟨rfl, rfl, rfl⟩

/-- What a step does to the dispatch of the pair: one step begins it, with the
orders of the pair at that time, and the others follow the call. -/
theorem PairStep.stage (h : PairStep c g v e v') (hv : v.Stage g s) : v'.Stage g s ∨
    s = none ∧ ∃ now p, e = .dispatch (.enter g) now ∧ v.pair = some p ∧ p.status = .ASSEMBLING ∧ c.Approved p ∧
      .enter g ∈ v.calls ∧ v'.pair = some (p.dispatchedAt now) ∧
        v'.Stage g (some (ArbPair.sentOrder now p.cexLeg, ArbPair.sentOrder now p.dexLeg)) := by
  have hrank := h.rank_le
  cases h with
  | @addLeg _ _ p _ _ =>
    refine .inl (hv.of_same rfl rfl ?_ hrank)
    unfold View.ongoing
    simp only
    split
    · rfl
    · rfl
  | enterReturns _ _ | enterRefused _ _ _ _ => exact .inl (hv.of_same rfl rfl (v.ongoing_erase_enter g) hrank)
  | @enterDispatches now p hm hp hs ha =>
    cases hv with
    | before hd ho hl =>
      refine .inr ⟨rfl, now, p, rfl, hp, hs, ha, hm, rfl, .after ?_ ?_ ?_⟩
      · rw [List.count_cons_self, List.count_eq_zero.mpr hd]
      · exact le_rfl
      · show Sending g _ _ (.lookup g _ _ :: (v.calls.erase (.enter g)).filter (!·.isEnter)) v.legSends
        rw [v.ongoing_erase_enter, ho, hl]
        exact .copied
    | after _ hr _ =>
      -- the rank of a pair that was dispatched is past `ASSEMBLING`
      rw [View.rank_of_pair hp, hs] at hr
      cases hr
  | lookupFails hm _ =>
    refine .inl (hv.advance [] [] hm rfl rfl (v.ongoing_erase _) rfl hrank fun o₁ o₂ r hs => ?_)
    cases hs
    exact .finished none none
  | lookup hm _ =>
    refine .inl (hv.advance [_] [] hm rfl rfl (congrArg (_ :: ·) (v.ongoing_erase _)) rfl hrank
      fun o₁ o₂ r hs => ?_)
    cases hs
    exact .found _ _
  | sendCex hm =>
    refine .inl (hv.advance [_] _ hm rfl (count_dispatched_send ..) (congrArg (_ :: ·) (v.ongoing_erase _))
      (legSends_send ..) hrank fun o₁ o₂ r hs => ?_)
    cases hs
    rw [List.append_nil]
    exact .cexSent _ _
  | sendDex hm =>
    refine .inl (hv.advance [_] _ hm rfl (count_dispatched_send ..) (congrArg (_ :: ·) (v.ongoing_erase _))
      (legSends_send ..) hrank fun o₁ o₂ r hs => ?_)
    cases hs
    exact .bothSent _ _
  | startMonitor hm =>
    refine .inl (hv.advance [] [] hm rfl rfl (v.ongoing_erase _) rfl hrank fun o₁ o₂ r hs => ?_)
    cases hs
    exact .finished _ _
  | sendFailed _ _ _ _ | legRejected _ _ =>
    obtain ⟨h₁, h₂, h₃⟩ := reject_log ..
    exact .inl (hv.of_same h₁ h₂ h₃ hrank)
  | riskCex _ _ _ => exact .inl (hv.of_same (List.count_cons_of_ne (by simp)) rfl rfl hrank)
  | unwindSend _ => exact .inl (hv.of_same (List.count_cons_of_ne (by simp)) rfl rfl hrank)
  | secondFill _ _ _ => exact .inl (hv.of_same (by simp) rfl rfl hrank)
  | _ => exact .inl (hv.of_same rfl rfl rfl hrank)

/-- One critical section of `dispatch_pair` has the margin of the pair reserved and
copies its orders. -/
structure Dispatches (g : CStr 15) (p : ArbPair) (now : Int) (c c' : ArbCoordinator) : Prop where
  step : c.step (.dispatch (.enter g) now) = some c'
  pair : c.pairs.lookup g = some p
  complete : p.bothLegsPresent = true
  assembling : p.status = .ASSEMBLING
  approved : (c.portfolio.checkAndReservePair p.cexLeg.signal p.dexLeg.signal).2.approved = true
  reserved : c'.portfolio = (c.portfolio.checkAndReservePair p.cexLeg.signal p.dexLeg.signal).1
  after : c'.status g = some .DISPATCHED

theorem stage_step (hsound : c.Sound) (h : c.step e = some c') (hv : (c.view g).Stage g s) :
    (c'.view g).Stage g s ∨ s = none ∧ ∃ now p, e = .dispatch (.enter g) now ∧ Dispatches g p now c c' ∧
      (c'.view g).Stage g (some (ArbPair.sentOrder now p.cexLeg, ArbPair.sentOrder now p.dexLeg)) := by
  rcases (step_view hsound.keyed h g).stage hv with hv' | ⟨rfl, now, p, rfl, hp, hst, ha, hm, hp', hv'⟩
  · exact .inl hv'
  · refine .inr ⟨rfl, now, p, rfl, ⟨h, hp, ?_, hst, ha, ?_, ?_⟩, hv'⟩
    · obtain ⟨q, hq, hboth⟩ := hsound.complete g (.inr (.inl hm))
      rw [hp, Option.some.injEq] at hq
      exact hq ▸ hboth
    · have hp : c.pairs.lookup g = some p := hp
      rw [portfolio_step h]
      rw [guardOps_enter hp hst]
      rfl
    · exact congrArg (Option.map (·.status)) hp'

theorem stage_run {es : List ArbEvent} {oo : Order × Order} (h : c.Sound) (hv : (c.view g).Stage g (some oo))
    (hr : run step c es = some c') : (c'.view g).Stage g (some oo) := by
  refine (inv_run (I := fun d => d.Sound ∧ (d.view g).Stage g (some oo)) ?_ ⟨h, hv⟩ hr).2
  intro d e d' hd hs
  rcases stage_step hd.1 hs hd.2 with hv' | ⟨hnone, -⟩
  · exact ⟨hd.1.step hs, hv'⟩
  · cases hnone

theorem undispatched_run {es : List ArbEvent} (h : c.Sound) (hv : (c.view g).Stage g none) (h3 : (c.view g).rank = 3)
    (hr : run step c es = some c') : (c'.view g).Stage g none := by
  refine (inv_run (I := fun d => d.Sound ∧ (d.view g).Stage g none ∧ (d.view g).rank = 3) ?_ ⟨h, hv, h3⟩ hr).2.1
  intro d e d' hd hs
  rcases stage_step hd.1 hs hd.2.1 with hv' | ⟨-, now, p, -, hdisp, -⟩
  · have := (step_view hd.1.keyed hs g).rank_le
    have := (d'.view g).rank_le
    have := hd.2.2
    exact ⟨hd.1.step hs, hv', by omega⟩
  · have := hd.2.2
    rw [View.rank_of_pair hdisp.pair, hdisp.assembling] at this
    cases this

theorem Sending.sublist {l : List DispatchCall} {r : List ArbEffect} (h : Sending g o₁ o₂ l r) :
    ∃ gw₁ gw₂, r.Sublist [.sendOrder g .dexLeg gw₂ o₂, .sendOrder g .cexLeg gw₁ o₁] := by
  have one : ∀ (role : LegRole) (gw : Option Exchange) (o : Order), ∃ x, (sendTo g role gw o).Sublist
      [.sendOrder g role x o] := by
    intro role gw o
    cases gw with
    | none => exact ⟨.BINANCE, List.nil_sublist _⟩
    | some x => exact ⟨x, List.Sublist.refl _⟩
  cases h with
  | copied | found _ _ => exact ⟨.BINANCE, .BINANCE, List.nil_sublist _⟩
  | cexSent gw₁ gw₂ =>
    obtain ⟨x₁, h₁⟩ := one .cexLeg gw₁ o₁
    exact ⟨x₁, .BINANCE, h₁.cons _⟩
  | bothSent gw₁ gw₂ | finished gw₁ gw₂ =>
    obtain ⟨x₁, h₁⟩ := one .cexLeg gw₁ o₁
    obtain ⟨x₂, h₂⟩ := one .dexLeg gw₂ o₂
    exact ⟨x₁, x₂, h₂.append h₁⟩

theorem stage_history {es : List ArbEvent} (h : c.Sound) (hv : (c.view g).Stage g none)
    (hr : run step c es = some c') : (c'.view g).Stage g none ∨
      ∃ es₁ now es₂ c₁ c₂ p, es = es₁ ++ .dispatch (.enter g) now :: es₂ ∧ run step c es₁ = some c₁ ∧
        Dispatches g p now c₁ c₂ ∧ run step c₂ es₂ = some c' ∧ (c₁.view g).Stage g none ∧
        (c'.view g).Stage g (some (ArbPair.sentOrder now p.cexLeg, ArbPair.sentOrder now p.dexLeg)) := by
  induction es generalizing c with
  | nil =>
    simp only [run, Option.some.injEq] at hr
    exact .inl (hr ▸ hv)
  | cons e es ih =>
    obtain ⟨d, hs, hrest⟩ := run_cons hr
    rcases stage_step h hs hv with hd | ⟨-, now, p, rfl, hdisp, hd⟩
    · rcases ih (h.step hs) hd hrest with hn | ⟨es₁, now, es₂, c₁, c₂, p, hes, hr₁, hlast⟩
      · exact .inl hn
      · refine .inr ⟨e :: es₁, now, es₂, c₁, c₂, p, congrArg (e :: ·) hes, ?_, hlast⟩
        rw [run, hs, Option.bind_some, hr₁]
    · exact .inr ⟨[], now, es, c, d, p, rfl, rfl, hdisp, hrest, hv, stage_run (h.step hs) hd hrest⟩

theorem View.Stage.legSends_none (h : v.Stage g none) : v.legSends = [] := by
  cases h with
  | before _ _ hl => exact hl

/-- The run `es` from `c₀` to `c` sends legs of the pair never, or each once at
most, with the orders of one dispatch. -/
def DispatchedOnce (g : CStr 15) (c₀ : ArbCoordinator) (es : List ArbEvent) (c : ArbCoordinator) : Prop :=
  c.legSends g = [] ∨ ∃ es₁ now es₂ c₁ c₂ p gw₁ gw₂, es = es₁ ++ .dispatch (.enter g) now :: es₂ ∧
    run step c₀ es₁ = some c₁ ∧ Dispatches g p now c₁ c₂ ∧ run step c₂ es₂ = some c ∧ c₁.legSends g = [] ∧
      (c.legSends g).Sublist [.sendOrder g .dexLeg gw₂ (ArbPair.sentOrder now p.dexLeg),
        .sendOrder g .cexLeg gw₁ (ArbPair.sentOrder now p.cexLeg)]

/-- The deadline timer or the margin check sets the pair to `FAILED`. -/
def FailsPair (g : CStr 15) (c : ArbCoordinator) (e : ArbEvent) (c' : ArbCoordinator) : Prop :=
  c.step e = some c' ∧ c.status g ≠ some .FAILED ∧ c'.status g = some .FAILED ∧
    ((∃ r now, e = .worker (.deadline g) r now) ∨ ∃ now, e = .dispatch (.enter g) now)

theorem FailsPair.rank (hk : c.Keyed) (h : FailsPair g c e c') : (c.view g).rank = 0 ∧ (c'.view g).rank = 3 := by
  obtain ⟨hs, hne, hf, he⟩ := h
  obtain ⟨p', hp', hst'⟩ := Option.map_eq_some_iff.mp hf
  have hstep := step_view hk hs g
  have hsame : (c'.view g).pair ≠ (c.view g).pair := fun heq => hne ((congrArg (Option.map _) heq).symm.trans hf)
  refine ⟨?_, by rw [View.rank_of_pair (p := p') hp', hst']; rfl⟩
  generalize c'.view g = v' at hstep hsame
  rcases he with ⟨r, now, rfl⟩ | ⟨now, rfl⟩
  · cases hstep with
    | other ht => exact absurd rfl ht
    | deadlineIdle _ _ => exact absurd rfl hsame
    | deadline _ hp hst _ => rw [View.rank_of_pair hp, hst]; rfl
  · cases hstep with
    | other ht => exact absurd rfl ht
    | enterReturns _ _ => exact absurd rfl hsame
    | enterRefused _ hp hst _ | enterDispatches _ hp hst _ => rw [View.rank_of_pair hp, hst]; rfl

end

/-- In every run a pair is dispatched once at most, and then only complete,
assembling and with the margin of the two orders that are sent reserved; no leg
is sent of a pair that the timer or the margin check failed. -/
theorem dispatched_once (config : ArbConfig) (portfolio : PortfolioGuard) (hasGateway : Exchange → Bool)
    (uuid : UuidGenerator) (g : CStr 15) (es : List ArbEvent) (c : ArbCoordinator)
    (h : run step ((init config portfolio hasGateway).setUuid uuid) es = some c) :
    DispatchedOnce g ((init config portfolio hasGateway).setUuid uuid) es c ∧ c.log.count (.dispatched g) ≤ 1 ∧
      ∀ es₁ e es₂ c₁ c₂, es = es₁ ++ e :: es₂ →
        run step ((init config portfolio hasGateway).setUuid uuid) es₁ = some c₁ → FailsPair g c₁ e c₂ →
          c.legSends g = [] := by
  generalize hc₀ : (init config portfolio hasGateway).setUuid uuid = c₀ at h ⊢
  have hsound : c₀.Sound := hc₀ ▸ sound_init config portfolio hasGateway uuid
  have hbefore : (c₀.view g).Stage g none := hc₀ ▸ .before List.not_mem_nil rfl rfl
  clear hc₀
  refine ⟨?_, ?_, ?_⟩
  · rcases stage_history hsound hbefore h with hn | ⟨es₁, now, es₂, c₁, c₂, p, hes, hr₁, hdisp, hr₂, hv₁, hv⟩
    · exact .inl hn.legSends_none
    · cases hv with
      | after _ _ hs =>
        obtain ⟨gw₁, gw₂, hsub⟩ := hs.sublist
        exact .inr ⟨es₁, now, es₂, c₁, c₂, p, gw₁, gw₂, hes, hr₁, hdisp, hr₂, hv₁.legSends_none, hsub⟩
  · have hcount : c.log.count (.dispatched g) = (c.view g).log.count (.dispatched g) :=
      (List.count_filter (by simp [ArbEffect.groupId])).symm
    rw [hcount]
    rcases stage_history hsound hbefore h with hn | ⟨es₁, now, es₂, c₁, c₂, p, -, -, -, -, -, hv⟩
    · cases hn with
      | before hd _ _ => rw [List.count_eq_zero.mpr hd]; exact Nat.zero_le 1
    · cases hv with
      | after hd _ _ => exact hd.le
  · intro es₁ e es₂ c₁ c₂ hes hr₁ hfail
    obtain ⟨h0, h3⟩ := hfail.rank (inv_run (fun _ _ _ hd hs => Sound.step hd hs) hsound hr₁).keyed
    have hsound₁ : c₁.Sound := inv_run (fun _ _ _ hd hs => Sound.step hd hs) hsound hr₁
    obtain ⟨d, hd, hr₂⟩ := run_append_some (hes ▸ h)
    obtain rfl : c₁ = d := Option.some.inj (hr₁.symm.trans hd)
    obtain ⟨d, hs, hr₂⟩ := run_cons hr₂
    obtain rfl : c₂ = d := Option.some.inj (hfail.1.symm.trans hs)
    have hv₁ : (c₁.view g).Stage g none := by
      rcases stage_history hsound hbefore hr₁ with hn | ⟨_, now, _, _, _, p, -, -, -, -, -, hv⟩
      · exact hn
      · cases hv with
        | after _ hr _ => omega
    rcases stage_step hsound₁ hs hv₁ with hv₂ | ⟨-, now, p, -, hdisp, -⟩
    · exact (undispatched_run (hsound₁.step hs) hv₂ h3 hr₂).legSends_none
    · have := hfail.2.2.1.symm.trans hdisp.after
      cases this

def Sample.expiring : List ArbEvent := [.addLeg Sample.cexSignal 1, .worker (.deadline Sample.groupId) {} 2]

def Sample.late : List ArbEvent := [.addLeg Sample.dexSignal 3, .dispatch (.enter Sample.groupId) 3]

theorem dispatched_once_filled_expired :
    (∃ c, run step (init {} (.init {}) fun _ => true) Sample.filledAgain = some c ∧
      DispatchedOnce Sample.groupId (init {} (.init {}) fun _ => true) Sample.filledAgain c) ∧
    ∃ c c₁ c₂, run step (init {} (.init {}) fun _ => true) (Sample.expiring ++ Sample.late) = some c ∧
      FailsPair Sample.groupId c₁ (.worker (.deadline Sample.groupId) {} 2) c₂ ∧ c.legSends Sample.groupId = [] := by
  constructor
  · obtain ⟨c, hc⟩ := Option.isSome_iff_exists.mp
      (show (run step (init {} (.init {}) fun _ => true) Sample.filledAgain).isSome by decide +kernel)
    exact ⟨c, hc, (dispatched_once {} (.init {}) (fun _ => true) {} Sample.groupId _ c hc).1⟩
  · obtain ⟨c, hc⟩ := Option.isSome_iff_exists.mp
      (show (run step (init {} (.init {}) fun _ => true) (Sample.expiring ++ Sample.late)).isSome by decide +kernel)
    obtain ⟨c₁, hc₁⟩ := Option.isSome_iff_exists.mp
      (show (run step (init {} (.init {}) fun _ => true) [.addLeg Sample.cexSignal 1]).isSome by decide +kernel)
    obtain ⟨c₂, hc₂, hf⟩ := Option.bind_eq_some_iff.mp
      (show (run step (init {} (.init {}) fun _ => true) Sample.expiring).bind (·.status Sample.groupId) =
        some .FAILED by decide +kernel)
    have hne : c₁.status Sample.groupId ≠ some .FAILED := by
      have : (run step (init {} (.init {}) fun _ => true) [.addLeg Sample.cexSignal 1]).bind
        (·.status Sample.groupId) ≠ some .FAILED := by decide +kernel
      rwa [hc₁, Option.bind_some] at this
    have hs : c₁.step (.worker (.deadline Sample.groupId) {} 2) = some c₂ := by
      obtain ⟨d, hd, hs⟩ := run_snoc (show run step _ ([.addLeg Sample.cexSignal 1] ++ [_]) = some c₂ from hc₂)
      obtain rfl := Option.some.inj (hc₁.symm.trans hd)
      exact hs
    have hfail : FailsPair Sample.groupId c₁ (.worker (.deadline Sample.groupId) {} 2) c₂ :=
      ⟨hs, hne, hf, .inl ⟨{}, 2, rfl⟩⟩
    exact ⟨c, c₁, c₂, hc, hfail,
      (dispatched_once {} (.init {}) (fun _ => true) {} Sample.groupId _ c hc).2.2 [.addLeg Sample.cexSignal 1] _
        Sample.late c₁ c₂ rfl hc₁ hfail⟩

end OrderExecution
