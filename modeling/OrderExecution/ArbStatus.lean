import OrderExecution.ArbSteps

/-!
# The status of a pair over whole runs

When a final status stays, when a pair is unwound once, and when a pair with
one filled leg is watched: for each the steps that break it, and that nothing
else does.
-/

namespace OrderExecution

open ArbCoordinator Machine

namespace ArbCoordinator

def status (c : ArbCoordinator) (g : CStr 15) : Option ArbPairStatus := (c.pairs.lookup g).map (·.status)

section
variable {c c' : ArbCoordinator} {g : CStr 15} {p : ArbPair} {e : ArbEvent}

theorem oneSided_ne_final (b : Bool) : (ArbPair.oneSided b).isFinal = false := by
  cases b <;> rfl

end

end ArbCoordinator

/-! ## Final statuses -/

namespace ArbCoordinator

/-- The steps that overwrite a final status: any reject of a `COMPLETED` pair,
a DEX reject that unwinds a `FAILED` pair, and an unwind that succeeds on a
`FAILED` pair or fails on a `COMPLETED` one. -/
def Overwrites (g : CStr 15) (c : ArbCoordinator) (e : ArbEvent) : Prop :=
  ∃ p, c.pairs.lookup g = some p ∧
    (p.status = .COMPLETED ∧ (∃ b, c.RejectOf g p b e) ∨
      p.status = .FAILED ∧ c.RejectOf g p false e ∧ p.RejectUnwinds false ∨
      ∃ r now, e = .worker (.unwindResult g) r now ∧
        (p.status = .FAILED ∧ r.success = true ∨ p.status = .COMPLETED ∧ r.success = false))

/-- A step from a state in which the pair has a final status leaves it. -/
def KeepsFinal (g : CStr 15) (c : ArbCoordinator) (e : ArbEvent) : Prop :=
  ∀ c' s, c.step e = some c' → c.status g = some s → s.isFinal = true → c'.status g = some s

section
variable {c c' : ArbCoordinator} {g : CStr 15} {p : ArbPair} {e : ArbEvent}

theorem Overwrites.touched (h : Overwrites g c e) : c.touched e = some g := by
  obtain ⟨p, -, ⟨-, b, h⟩ | ⟨-, h, -⟩ | ⟨r, now, rfl, -⟩⟩ := h
  · exact h.touched
  · exact h.touched
  · rfl

theorem not_overwrites (h : ∀ p b, ¬ c.RejectOf g p b e) (hu : ∀ r now, e ≠ .worker (.unwindResult g) r now) :
    ¬ Overwrites g c e := by
  rintro ⟨p, -, ⟨-, b, h'⟩ | ⟨-, h', -⟩ | ⟨r, now, h', -⟩⟩
  · exact h p b h'
  · exact h p false h'
  · exact hu r now h'

theorem final_reject_iff {b : Bool} (hp : c.pairs.lookup g = some p) (hf : p.status.isFinal = true)
    (hr : c.RejectOf g p b e) (huniq : ∀ q b', c.RejectOf g q b' e → b' = b)
    (hu : ∀ r now, e ≠ .worker (.unwindResult g) r now) :
    (p.rejected b).status = p.status ↔ ¬ Overwrites g c e := by
  have key : Overwrites g c e ↔
      p.status = .COMPLETED ∨ p.status = .FAILED ∧ b = false ∧ p.RejectUnwinds false := by
    constructor
    · rintro ⟨q, hq, ⟨hs, -⟩ | ⟨hs, hr', hw⟩ | ⟨r, now, h', -⟩⟩
      · rw [hp, Option.some.injEq] at hq; exact .inl (hq ▸ hs)
      · rw [hp, Option.some.injEq] at hq
        subst hq
        exact .inr ⟨hs, (huniq p false hr').symm, hw⟩
      · exact absurd h' (hu r now)
    · rintro (hs | ⟨hs, rfl, hw⟩)
      · exact ⟨p, hp, .inl ⟨hs, b, hr⟩⟩
      · exact ⟨p, hp, .inr (.inl ⟨hs, hr, hw⟩)⟩
  rw [key]
  cases b with
  | true =>
    rw [status_rejected_cex]
    cases hst : p.status <;> simp_all [ArbPairStatus.isFinal]
  | false =>
    rw [status_rejected_dex]
    by_cases hw : p.RejectUnwinds false <;> cases hst : p.status <;> simp_all [ArbPairStatus.isFinal]

theorem status_step_iff (hk : c.Keyed) (h : c.step e = some c') (hp : c.pairs.lookup g = some p)
    (hf : p.status.isFinal = true) : c'.status g = some p.status ↔ ¬ Overwrites g c e := by
  have hs := step_view hk h g
  have hv : ∀ q, (c.view g).pair = some q → q = p := fun q hq => by
    rw [show (c.view g).pair = some p from hp, Option.some.injEq] at hq; exact hq.symm
  have hpv : (c.view g).pair = some p := hp
  have hc' : ∀ s, c'.status g = some s ↔ ∃ p', (c'.view g).pair = some p' ∧ p'.status = s := fun s =>
    Option.map_eq_some_iff
  rw [hc']
  generalize c'.view g = v' at hs
  cases hs with
  | other ht => exact iff_of_true ⟨p, hp, rfl⟩ fun ho => ht ho.touched
  | addLeg hg hq =>
    refine iff_of_true ⟨_, rfl, ?_⟩ (not_overwrites (fun _ _ h => h) (fun _ _ h => by cases h))
    rw [hq, hpv]; simp
  | enterReturns _ _ | lookup _ _ | startMonitor _ | deadlineIdle _ _ | riskIdle _ _ | unwindSend _ =>
    exact iff_of_true ⟨p, hp, rfl⟩ (not_overwrites (fun _ _ h => h) (fun _ _ h => by cases h))
  | enterRefused _ h₁ h₂ _ | enterDispatches _ h₁ h₂ _ | deadline _ h₁ h₂ _ =>
    rw [← hv _ h₁, h₂] at hf; cases hf
  | lookupFails _ h₁ | unwindResultIdle _ h₁ => rw [hpv] at h₁; cases h₁
  | sendCex _ | sendDex _ =>
    exact iff_of_true ⟨p, (pair_send ..).trans hp, rfl⟩ (not_overwrites (fun _ _ h => h) (fun _ _ h => by cases h))
  | sendResultIdle _ h₁ =>
    refine iff_of_true ⟨p, hp, rfl⟩ (not_overwrites (fun q b h => ?_) (fun _ _ h => by cases h))
    obtain ⟨-, rfl, -, hq, hl⟩ := h
    rw [h₁ q hq] at hl; cases hl
  | sendSucceeded _ h₁ _ hr =>
    refine iff_of_true ⟨_, rfl, ?_⟩ (not_overwrites (fun q b h => ?_) (fun _ _ h => by cases h))
    · rw [status_acknowledged, hv _ h₁]
    · rw [h.2.2.1] at hr; cases hr
  | @sendFailed b r now q _ h₁ hl hr =>
    -- a failed send is a reject of its leg
    obtain rfl := hv _ h₁
    have hrej : c.RejectOf g q b (.worker (.sendResult g b) r now) := ⟨rfl, rfl, hr, hp, hl⟩
    rw [← final_reject_iff hp hf hrej (fun q' b' h => h.2.1.symm) (fun _ _ h => by cases h)]
    simp only [pair_reject, Option.some.injEq, exists_eq_left', status_rejected_identified]
  | riskCex _ h₁ h₂ | riskDex _ h₁ h₂ => rw [← hv _ h₁, h₂] at hf; cases hf
  | @unwindResult r now q _ h₁ =>
    obtain rfl := hv _ h₁
    have key : Overwrites g c (.worker (.unwindResult g) r now) ↔
        q.status = .FAILED ∧ r.success = true ∨ q.status = .COMPLETED ∧ r.success = false := by
      constructor
      · rintro ⟨q', hq', ⟨-, b, h'⟩ | ⟨-, h', -⟩ | ⟨r', now', heq, h'⟩⟩
        · exact h'.elim
        · exact h'.elim
        · cases heq
          rw [hp, Option.some.injEq] at hq'
          exact hq' ▸ h'
      · exact fun h' => ⟨q, hp, .inr (.inr ⟨r, now, rfl, h'⟩)⟩
    rw [key]
    simp only [Option.some.injEq, exists_eq_left']
    cases hr : r.success <;> cases hst : q.status <;> simp_all [ArbPairStatus.isFinal]
  | @legRejected x price qty now q b h₁ h₂ =>
    obtain rfl := hv _ h₂
    have hrej : c.RejectOf g q b (.onFill x price qty true now) := ⟨rfl, h₁⟩
    have huniq : ∀ q' b', c.RejectOf g q' b' (.onFill x price qty true now) → b' = b := by
      intro q' b' h'
      have := h'.2.symm.trans h₁
      simp only [Option.some.injEq, Prod.mk.injEq] at this
      exact this.2.2
    rw [← final_reject_iff hp hf hrej huniq (fun _ _ h => by cases h)]
    simp only [pair_reject, Option.some.injEq, exists_eq_left']
  | firstFill _ h₁ h₂ => rw [← hv _ h₁, h₂] at hf; cases hf
  | secondFill _ h₁ h₂ => rw [← hv _ h₁, h₂, oneSided_ne_final] at hf; cases hf
  | lateFill h₀ h₁ _ _ =>
    refine iff_of_true ⟨_, rfl, ?_⟩ (not_overwrites (fun q b h => ?_) (fun _ _ h => by cases h))
    · rw [status_fillLeg, hv _ h₁]
    · exact absurd h.1 (by decide)

theorem keepsFinal_iff (hk : c.Keyed) (h : c.step e = some c') : KeepsFinal g c e ↔ ¬ Overwrites g c e := by
  constructor
  · intro hkeep ho
    have hfin : ∃ p, c.pairs.lookup g = some p ∧ p.status.isFinal = true := by
      obtain ⟨p, hp, ⟨hs, -⟩ | ⟨hs, -⟩ | ⟨-, -, -, ⟨hs, -⟩ | ⟨hs, -⟩⟩⟩ := ho <;> exact ⟨p, hp, by rw [hs]; rfl⟩
    obtain ⟨p, hp, hf⟩ := hfin
    exact (status_step_iff hk h hp hf).mp (hkeep c' p.status h (by simp [status, hp]) hf) ho
  · intro ho c'' s hs' hst hf
    obtain ⟨p, hp, rfl⟩ := Option.map_eq_some_iff.mp hst
    exact (status_step_iff hk hs' hp hf).mpr ho

/-- Over a run, every final status stays as it is exactly when no step
overwrites one. -/
theorem final_status_iff (config : ArbConfig) (portfolio : PortfolioGuard) (hasGateway : Exchange → Bool)
    (g : CStr 15) (es : List ArbEvent) (hrun : (run step (init config portfolio hasGateway) es).isSome) :
    Along step (KeepsFinal g) (init config portfolio hasGateway) es ↔
      Along step (fun c e => ¬ Overwrites g c e) (init config portfolio hasGateway) es := by
  generalize hc : init config portfolio hasGateway = c at hrun ⊢
  have hk : c.Keyed := hc ▸ keyed_init config portfolio hasGateway
  clear hc
  induction es generalizing c with
  | nil => exact Iff.rfl
  | cons e es ih =>
    obtain ⟨c'', hr⟩ := Option.isSome_iff_exists.mp hrun
    obtain ⟨c', hs, hr⟩ := run_cons hr
    simp only [Along, keepsFinal_iff hk hs, hs, Option.some.injEq, forall_eq']
    exact and_congr_right fun _ => ih c' (Option.isSome_iff_exists.mpr ⟨c'', hr⟩) (hk.step hs)

end

theorem final_status_iff_late_reject :
    Along step (KeepsFinal Sample.groupId) Sample.coordinator
        (Sample.dispatch ++ Sample.acknowledged ++ [Sample.cexFill 4] ++ Sample.riskUnwind ++ [Sample.dexReject 7]) ↔
      Along step (fun c e => ¬ Overwrites Sample.groupId c e) Sample.coordinator
        (Sample.dispatch ++ Sample.acknowledged ++ [Sample.cexFill 4] ++ Sample.riskUnwind ++ [Sample.dexReject 7]) :=
  final_status_iff {} (.init {}) (fun _ => true) Sample.groupId _ (by decide +kernel)

def messageOf : ArbEvent → Option Bytes
  | .onFill x _ _ _ _ => some x
  | _ => none

/-- Each order produces at most one fill or reject. -/
def OneMessageEach (es : List ArbEvent) : Prop := (es.filterMap messageOf).Nodup

instance (es : List ArbEvent) : Decidable (OneMessageEach es) := inferInstanceAs (Decidable (List.Nodup _))

/-- The late reject turns `COMPLETED` into `UNWINDING`. -/
theorem not_final_status_absorbing :
    ¬ ∀ (config : ArbConfig) (portfolio : PortfolioGuard) (hasGateway : Exchange → Bool) (g : CStr 15)
      (es : List ArbEvent), OneMessageEach es → (run step (init config portfolio hasGateway) es).isSome →
        Along step (KeepsFinal g) (init config portfolio hasGateway) es := by
  intro h
  let before := Sample.dispatch ++ Sample.acknowledged ++ [Sample.cexFill 4] ++ Sample.riskUnwind
  have hkeep := along_iff.mp (h {} (.init {}) (fun _ => true) Sample.groupId (before ++ [Sample.dexReject 7])
    (by decide +kernel) (by decide +kernel)) before (Sample.dexReject 7) []
  obtain ⟨c, hc, hst⟩ : ∃ c, run step Sample.coordinator before = some c ∧
      c.status Sample.groupId = some .COMPLETED :=
    Option.bind_eq_some_iff.mp (show (run step Sample.coordinator before).bind
      (·.status Sample.groupId) = some .COMPLETED by decide +kernel)
  obtain ⟨c', hc', hst'⟩ : ∃ c', run step Sample.coordinator (before ++ [Sample.dexReject 7]) = some c' ∧
      c'.status Sample.groupId = some .UNWINDING :=
    Option.bind_eq_some_iff.mp (show (run step Sample.coordinator (before ++ [Sample.dexReject 7])).bind
      (·.status Sample.groupId) = some .UNWINDING by decide +kernel)
  obtain ⟨t, ht, hs⟩ := run_snoc hc'
  rw [hc, Option.some.injEq] at ht
  subst ht
  have := hkeep c rfl hc c' _ hs hst rfl
  rw [hst'] at this
  cases this

/-! ## Unwinds -/

/-- How often `start_unwind` ran for the pair. -/
def unwinds (c : ArbCoordinator) (g : CStr 15) : Nat := c.log.count (.startUnwind g)

/-- The steps that run `start_unwind`: the risk window of a pair whose CEX leg
alone is filled, and a DEX reject of a pair whose CEX leg is filled. -/
def StartsUnwind (g : CStr 15) (c : ArbCoordinator) (e : ArbEvent) : Prop :=
  ∃ p, c.pairs.lookup g = some p ∧
    ((∃ r now, e = .worker (.riskWindow g) r now) ∧ p.status = .CEX_FILLED ∨
      c.RejectOf g p false e ∧ p.RejectUnwinds false)

/-- The statuses a pair has from the first unwind on. -/
def Unwound (s : ArbPairStatus) : Prop := s = .UNWINDING ∨ s = .FAILED ∨ s = .COMPLETED

section
variable {c c' : ArbCoordinator} {g : CStr 15} {p : ArbPair} {e : ArbEvent}

theorem unwinds_eq (c : ArbCoordinator) (g : CStr 15) :
    c.unwinds g = (c.view g).log.count (.startUnwind g) := by
  rw [unwinds, view, List.count_filter (by simp [ArbEffect.groupId])]

theorem StartsUnwind.touched (h : StartsUnwind g c e) : c.touched e = some g := by
  obtain ⟨p, -, ⟨⟨r, now, rfl⟩, -⟩ | ⟨h, -⟩⟩ := h
  · rfl
  · exact h.touched

theorem not_startsUnwind (h : ∀ p, ¬ c.RejectOf g p false e)
    (hr : ∀ r now, e ≠ .worker (.riskWindow g) r now) : ¬ StartsUnwind g c e := by
  rintro ⟨p, -, ⟨⟨r, now, h'⟩, -⟩ | ⟨h', -⟩⟩
  · exact hr r now h'
  · exact h p h'

/-- What a step does to the number of unwinds and, seen from there, to the
status. -/
inductive UnwindStep (g : CStr 15) (c c' : ArbCoordinator) (e : ArbEvent) : Prop
  | starts : StartsUnwind g c e → c'.unwinds g = c.unwinds g + 1 → c'.status g = some .UNWINDING →
      UnwindStep g c c' e
  | keeps : ¬ StartsUnwind g c e → c'.unwinds g = c.unwinds g → c'.status g = c.status g →
      UnwindStep g c c' e
  | moves (s : ArbPairStatus) : ¬ StartsUnwind g c e → c'.unwinds g = c.unwinds g →
      c'.status g = some s → s ≠ .UNWINDING → (∀ s₀, c.status g = some s₀ → Unwound s₀ → Unwound s) →
      UnwindStep g c c' e

theorem UnwindStep.of_keeps (hns : ¬ StartsUnwind g c e)
    (hlog : (c'.view g).log.count (.startUnwind g) = (c.view g).log.count (.startUnwind g))
    (hst : (c'.view g).pair.map (·.status) = (c.view g).pair.map (·.status)) : UnwindStep g c c' e :=
  .keeps hns (by rw [unwinds_eq, unwinds_eq, hlog]) hst

theorem UnwindStep.of_moves (s : ArbPairStatus) (hns : ¬ StartsUnwind g c e)
    (hlog : (c'.view g).log.count (.startUnwind g) = (c.view g).log.count (.startUnwind g))
    (hst : (c'.view g).pair.map (·.status) = some s) (hu : s ≠ .UNWINDING)
    (hclosed : ∀ p, (c.view g).pair = some p → Unwound p.status → Unwound s) : UnwindStep g c c' e :=
  .moves s hns (by rw [unwinds_eq, unwinds_eq, hlog]) hst hu fun s₀ hs₀ h => by
    obtain ⟨p, hp, rfl⟩ := Option.map_eq_some_iff.mp hs₀
    exact hclosed p hp h

theorem UnwindStep.of_reject {b : Bool} {q : ArbPair} {now : Int} {v : View}
    (hq : q.RejectUnwinds false ↔ p.RejectUnwinds false) (hlog : v.log = (c.view g).log)
    (hv' : c'.view g = v.reject c g q b now) (hp : c.pairs.lookup g = some p) (hr : c.RejectOf g p b e)
    (huniq : ∀ p' b', c.RejectOf g p' b' e → b' = b) (hrw : ∀ r now, e ≠ .worker (.riskWindow g) r now) :
    UnwindStep g c c' e := by
  have huniq' : StartsUnwind g c e ↔ b = false ∧ p.RejectUnwinds false := by
    constructor
    · rintro ⟨p', hp', ⟨⟨r, n, h'⟩, -⟩ | ⟨h', hw⟩⟩
      · exact absurd h' (hrw r n)
      · rw [hp, Option.some.injEq] at hp'
        exact ⟨(huniq p' false h').symm, hp' ▸ hw⟩
    · rintro ⟨rfl, hw⟩; exact ⟨p, hp, .inr ⟨hr, hw⟩⟩
  by_cases hw : b = false ∧ p.RejectUnwinds false
  · obtain ⟨rfl, hw⟩ := hw
    refine .starts (huniq'.mpr ⟨rfl, hw⟩) ?_ ?_
    · rw [unwinds_eq, unwinds_eq, hv']
      simp [View.reject, hq.mpr hw, View.unwind, hlog]
    · show (c'.view g).pair.map _ = _
      rw [hv', pair_reject, Option.map_some, status_rejected_dex, if_pos (hq.mpr hw)]
  · have hnw : ¬ q.RejectUnwinds b := fun h' => hw ⟨h'.1, hq.mp ⟨rfl, h'.2⟩⟩
    refine .of_moves .FAILED (fun h => hw (huniq'.mp h)) ?_ ?_ (by decide) fun _ _ _ => .inr (.inl rfl)
    · rw [hv']; simp [View.reject, hnw, hlog]
    · rw [hv', pair_reject, Option.map_some]
      cases b with
      | true => rfl
      | false => rw [status_rejected_dex, if_neg hnw]

theorem unwind_step (hk : c.Keyed) (h : c.step e = some c') (g : CStr 15) : UnwindStep g c c' e := by
  have hs := step_view hk h g
  generalize hv' : c'.view g = v' at hs
  cases hs with
  | other ht => exact .of_keeps (fun hst => ht hst.touched) (by rw [hv']) (by rw [hv'])
  | @addLeg s now q hg hq =>
    have hns : ¬ StartsUnwind g c (.addLeg s now) := not_startsUnwind (fun _ h => h) (fun _ _ h => by cases h)
    cases hp : (c.view g).pair with
    | none =>
      refine .of_moves .ASSEMBLING hns (by rw [hv']) ?_ (by decide) fun p h => by rw [hp] at h; cases h
      rw [hv', hq, hp]; simp [newPair]
    | some p =>
      refine .of_keeps hns (by rw [hv']) ?_
      rw [hv', hq, hp]; simp
  | enterReturns _ _ | lookupFails _ _ | lookup _ _ | startMonitor _ | deadlineIdle _ _ | unwindResultIdle _ _ =>
    exact .of_keeps (not_startsUnwind (fun _ h => h) (fun _ _ h => by cases h)) (by rw [hv']) (by rw [hv'])
  | enterRefused _ h₁ h₂ _ =>
    exact .of_moves .FAILED (not_startsUnwind (fun _ h => h) (fun _ _ h => by cases h)) (by rw [hv'])
      (by rw [hv']; rfl) (by decide) fun _ _ _ => .inr (.inl rfl)
  | enterDispatches _ h₁ h₂ _ =>
    refine .of_moves .DISPATCHED (not_startsUnwind (fun _ h => h) (fun _ _ h => by cases h))
      (by rw [hv']; simp) (by rw [hv']; rfl) (by decide) fun p hp hu => ?_
    rw [h₁, Option.some.injEq] at hp
    rw [← hp, h₂] at hu
    simp [Unwound] at hu
  | sendCex _ | sendDex _ =>
    refine .of_keeps (not_startsUnwind (fun _ h => h) (fun _ _ h => by cases h)) ?_
      (by rw [hv']; exact congrArg _ (pair_send ..))
    rw [hv']
    simp only [View.send]
    split <;> simp
  | deadline _ _ _ _ =>
    exact .of_moves .FAILED (not_startsUnwind (fun _ h => h) (fun _ _ h => by cases h)) (by rw [hv'])
      (by rw [hv']; rfl) (by decide) fun _ _ _ => .inr (.inl rfl)
  | sendResultIdle _ h₁ =>
    refine .of_keeps (not_startsUnwind (fun q h => ?_) (fun _ _ h => by cases h)) (by rw [hv']) (by rw [hv'])
    obtain ⟨-, rfl, -, hq, hl⟩ := h
    rw [h₁ q hq] at hl; cases hl
  | sendSucceeded _ h₁ _ hr =>
    refine .of_keeps (not_startsUnwind (fun q h => ?_) (fun _ _ h => by cases h)) (by rw [hv']) ?_
    · rw [h.2.2.1] at hr; cases hr
    · rw [hv', h₁]; simp
  | @sendFailed b r now p _ h₁ hl hr =>
    exact .of_reject (v := { c.view g with workers := (c.view g).workers.erase (.sendResult g b) })
      (rejectUnwinds_identified ..) rfl hv' h₁ ⟨rfl, rfl, hr, h₁, hl⟩
      (fun _ _ h => h.2.1.symm) (fun _ _ h => by cases h)
  | riskIdle _ h₁ =>
    refine .of_keeps ?_ (by rw [hv']) (by rw [hv'])
    rintro ⟨p, hp, ⟨-, hs⟩ | ⟨h', -⟩⟩
    · exact (h₁ p hp).1 hs
    · exact h'
  | @riskCex r now p _ h₁ h₂ =>
    refine .starts ⟨p, h₁, .inl ⟨⟨r, now, rfl⟩, h₂⟩⟩ ?_ ?_
    · rw [unwinds_eq, unwinds_eq, hv']; simp [View.unwind]
    · show (c'.view g).pair.map _ = _
      rw [hv']; rfl
  | riskDex _ h₁ h₂ =>
    refine .of_moves .FAILED ?_ (by rw [hv']) (by rw [hv']; rfl) (by decide) fun _ _ _ => .inr (.inl rfl)
    rintro ⟨p, hp, ⟨-, hs⟩ | ⟨h', -⟩⟩
    · rw [show c.pairs.lookup g = some _ from h₁, Option.some.injEq] at hp
      rw [← hp, h₂] at hs; cases hs
    · exact h'
  | unwindSend _ =>
    exact .of_keeps (not_startsUnwind (fun _ h => h) (fun _ _ h => by cases h)) (by rw [hv']; simp) (by rw [hv'])
  | @unwindResult r now p _ h₁ =>
    refine .of_moves (if r.success then .COMPLETED else .FAILED)
      (not_startsUnwind (fun _ h => h) (fun _ _ h => by cases h)) (by rw [hv'])
      (by rw [hv']; rfl) ?_ fun _ _ _ => ?_
    · split <;> decide
    · split
      · exact .inr (.inr rfl)
      · exact .inr (.inl rfl)
  | @legRejected x price qty now p b h₀ h₁ =>
    refine .of_reject Iff.rfl rfl hv' h₁ ⟨rfl, h₀⟩ (fun p' b' h => ?_) (fun _ _ h => by cases h)
    have := h.2.symm.trans h₀
    simp only [Option.some.injEq, Prod.mk.injEq] at this
    exact this.2.2
  | @firstFill x price qty now p b h₀ h₁ h₂ =>
    refine .of_moves (ArbPair.oneSided b) (not_startsUnwind (fun _ h => absurd h.1 (by decide))
      (fun _ _ h => by cases h)) (by rw [hv']) (by rw [hv']; rfl) (by cases b <;> decide) fun q hq hu => ?_
    rw [h₁, Option.some.injEq] at hq
    rw [← hq, h₂] at hu
    simp [Unwound] at hu
  | secondFill h₀ h₁ h₂ =>
    exact .of_moves .COMPLETED (not_startsUnwind (fun _ h => absurd h.1 (by decide))
      (fun _ _ h => by cases h)) (by rw [hv']; simp) (by rw [hv']; rfl) (by decide)
      fun _ _ _ => .inr (.inr rfl)
  | lateFill h₀ h₁ h₂ h₃ =>
    refine .of_keeps (not_startsUnwind (fun _ h => absurd h.1 (by decide)) (fun _ _ h => by cases h))
      (by rw [hv']) ?_
    rw [hv', h₁]; simp

theorem unwinds_step_le (hk : c.Keyed) (h : c.step e = some c') : c.unwinds g ≤ c'.unwinds g := by
  cases unwind_step hk h g with
  | starts _ hu _ => omega
  | keeps _ hu _ => omega
  | moves _ _ hu _ _ _ => omega

theorem unwinds_run_le {es : List ArbEvent} (hk : c.Keyed) (h : run step c es = some c') :
    c.unwinds g ≤ c'.unwinds g :=
  (inv_run (I := fun d => d.Keyed ∧ c.unwinds g ≤ d.unwinds g)
    (fun _ _ _ hI hs => ⟨hI.1.step hs, hI.2.trans (unwinds_step_le hI.1 hs)⟩) ⟨hk, le_rfl⟩ h).2

theorem keyed_run {config : ArbConfig} {portfolio : PortfolioGuard} {hasGateway : Exchange → Bool}
    {es : List ArbEvent} (h : run step (init config portfolio hasGateway) es = some c) : c.Keyed :=
  inv_run (fun _ _ _ hk hs => hk.step hs) (keyed_init config portfolio hasGateway) h

/-- Over a run: the unwinds began when the status first was `UNWINDING`, and
from then on no other status than the final ones follows. -/
theorem unwinds_history {config : ArbConfig} {portfolio : PortfolioGuard} {hasGateway : Exchange → Bool} :
    ∀ {es : List ArbEvent} {c : ArbCoordinator}, run step (init config portfolio hasGateway) es = some c →
      (1 ≤ c.unwinds g ↔ Visits step (fun c => c.status g = some .UNWINDING)
        (init config portfolio hasGateway) es) ∧
      (1 ≤ c.unwinds g → ∃ s, c.status g = some s ∧ Unwound s) := by
  intro es
  induction es using List.reverseRecOn with
  | nil =>
    intro c h
    simp only [run, Option.some.injEq] at h
    subst h
    have h0 : (init config portfolio hasGateway).unwinds g = 0 := rfl
    refine ⟨iff_of_false (by omega) ?_, fun h => by omega⟩
    rintro ⟨es₁, es₂, t, he, ht, hs⟩
    obtain ⟨rfl, rfl⟩ := List.append_eq_nil_iff.mp he.symm
    simp only [run, Option.some.injEq] at ht
    subst ht
    simp [status, init] at hs
  | append_singleton es e ih =>
    intro c h
    obtain ⟨t, ht, hs⟩ := run_snoc h
    obtain ⟨hhist, hended⟩ := ih ht
    rw [visits_snoc ht hs, ← hhist]
    cases unwind_step (keyed_run ht) hs g with
    | starts _ hu hst => exact ⟨iff_of_true (by omega) (.inr hst), fun _ => ⟨_, hst, .inl rfl⟩⟩
    | keeps _ hu hst =>
      rw [hu, hst]
      refine ⟨⟨.inl, ?_⟩, hended⟩
      rintro (h | h)
      · exact h
      · exact hhist.mpr ⟨es, [], t, (List.append_nil es).symm, ht, h⟩
    | moves s _ hu hst hne hclosed =>
      rw [hu, hst]
      refine ⟨⟨.inl, ?_⟩, fun h => ?_⟩
      · rintro (h | h)
        · exact h
        · exact absurd (Option.some.inj h) hne
      · obtain ⟨s₀, hs₀, hun⟩ := hended h
        exact ⟨s, rfl, hclosed s₀ hs₀ hun⟩

/-- Over a run, the pair is unwound at most once exactly when no DEX reject
finds its CEX leg filled after the pair has been `UNWINDING`. -/
theorem unwinds_le_one_iff (config : ArbConfig) (portfolio : PortfolioGuard) (hasGateway : Exchange → Bool)
    (g : CStr 15) (es : List ArbEvent) (c : ArbCoordinator)
    (hrun : run step (init config portfolio hasGateway) es = some c) :
    c.unwinds g ≤ 1 ↔
      ∀ es₁ e es₂ t p, es = es₁ ++ e :: es₂ → run step (init config portfolio hasGateway) es₁ = some t →
        t.RejectOf g p false e → p.RejectUnwinds false →
        ¬ Visits step (fun c => c.status g = some .UNWINDING) (init config portfolio hasGateway) es₁ := by
  constructor
  · rintro hle es₁ e es₂ t p rfl ht hr hw hv
    obtain ⟨t', ht', hrest⟩ := run_append_some hrun
    rw [ht, Option.some.injEq] at ht'
    subst ht'
    obtain ⟨u, hu, hrest⟩ := run_cons hrest
    have hone := (unwinds_history ht).1.mpr hv
    have hkt := keyed_run ht
    have hmono := unwinds_run_le (g := g) (hkt.step hu) hrest
    have hstart : StartsUnwind g t e := ⟨p, hr.lookup, .inr ⟨hr, hw⟩⟩
    cases unwind_step hkt hu g with
    | starts _ hn _ => omega
    | keeps hns _ _ => exact hns hstart
    | moves _ hns _ _ _ _ => exact hns hstart
  · induction es using List.reverseRecOn generalizing c with
    | nil =>
      intro _
      simp only [run, Option.some.injEq] at hrun
      subst hrun
      exact Nat.zero_le 1
    | append_singleton es e ih =>
      intro hcond
      obtain ⟨t, ht, hs⟩ := run_snoc hrun
      have hle := ih t ht fun es₁ e' es₂ t' p he =>
        hcond es₁ e' (es₂ ++ [e]) t' p (by rw [he, List.append_assoc, List.cons_append])
      cases unwind_step (keyed_run ht) hs g with
      | keeps _ hn _ => omega
      | moves _ _ hn _ _ _ => omega
      | starts hstart hn _ =>
        -- the risk window does not come back to a pair that was unwound, and the
        -- condition keeps a reject from it
        have hzero : ¬ 1 ≤ t.unwinds g := by
          intro hone
          obtain ⟨p, hp, ⟨-, hst⟩ | ⟨hr, hw⟩⟩ := hstart
          · obtain ⟨s, hs', hun⟩ := (unwinds_history ht).2 hone
            simp only [status, hp, Option.map_some, Option.some.injEq] at hs'
            rw [← hs', hst] at hun
            simp [Unwound] at hun
          · exact hcond es e [] t p rfl ht hr hw ((unwinds_history ht).1.mp hone)
        omega

end

theorem unwinds_le_one_iff_once :
    ∃ c, run step Sample.coordinator
        (Sample.dispatch ++ Sample.acknowledged ++ [Sample.cexFill 4] ++ Sample.riskUnwind) = some c ∧
      (c.unwinds Sample.groupId ≤ 1 ↔
        ∀ es₁ e es₂ t p, Sample.dispatch ++ Sample.acknowledged ++ [Sample.cexFill 4] ++ Sample.riskUnwind =
            es₁ ++ e :: es₂ → run step Sample.coordinator es₁ = some t →
          t.RejectOf Sample.groupId p false e → p.RejectUnwinds false →
          ¬ Visits step (fun c => c.status Sample.groupId = some .UNWINDING) Sample.coordinator es₁) := by
  obtain ⟨c, hc⟩ := Option.isSome_iff_exists.mp (show (run step Sample.coordinator
    (Sample.dispatch ++ Sample.acknowledged ++ [Sample.cexFill 4] ++ Sample.riskUnwind)).isSome by
      decide +kernel)
  exact ⟨c, hc, unwinds_le_one_iff {} (.init {}) (fun _ => true) Sample.groupId _ c hc⟩

/-- The risk window unwinds the pair, and so does the late DEX reject. -/
theorem not_unwound_once :
    ¬ ∀ (config : ArbConfig) (portfolio : PortfolioGuard) (hasGateway : Exchange → Bool) (g : CStr 15)
      (es : List ArbEvent) (c : ArbCoordinator), OneMessageEach es →
        run step (init config portfolio hasGateway) es = some c → c.unwinds g ≤ 1 := by
  intro h
  let es := Sample.dispatch ++ Sample.acknowledged ++ [Sample.cexFill 4] ++ Sample.riskUnwind ++
    [Sample.dexReject 7]
  obtain ⟨c, hc, hu⟩ : ∃ c, run step Sample.coordinator es = some c ∧ some (c.unwinds Sample.groupId) = some 2 :=
    Option.bind_eq_some_iff.mp (show (run step Sample.coordinator es).bind
      (fun c => some (c.unwinds Sample.groupId)) = some 2 by decide +kernel)
  have := h {} (.init {}) (fun _ => true) Sample.groupId es c (by decide +kernel) hc
  rw [Option.some.inj hu] at this
  omega

/-! ## The risk window -/

/-- The part of `dispatch_pair` behind its critical section, which ends by
starting the monitor. -/
def DispatchCall.Dispatching : DispatchCall → Prop
  | .enter _ => False
  | _ => True

/-- A monitor of the pair is pending, or the call that starts it is still in
progress. -/
def View.Watched (v : View) (g : CStr 15) : Prop :=
  .riskWindow g ∈ v.workers ∨ ∃ d ∈ v.calls, DispatchCall.Dispatching d

def Watched (c : ArbCoordinator) (g : CStr 15) : Prop := View.Watched (c.view g) g

def OneLegFilled (c : ArbCoordinator) (g : CStr 15) : Prop := ∃ b, c.status g = some (ArbPair.oneSided b)

/-- The event is the first fill of a leg of the dispatched pair. -/
def FirstFill (g : CStr 15) (c : ArbCoordinator) : ArbEvent → Prop
  | .onFill x _ _ isReject _ =>
    isReject = false ∧ ∃ p b, c.findLeg x = some (g, p, b) ∧ p.status = .DISPATCHED
  | _ => False

section
variable {c c' : ArbCoordinator} {g : CStr 15} {p : ArbPair} {e : ArbEvent}

theorem View.Watched.of_erase {v u : View} {w : Worker} (h : View.Watched v g) (hne : w ≠ .riskWindow g)
    (hw : u.workers = v.workers.erase w) (hc : u.calls = v.calls) : View.Watched u g := by
  rcases h with h | ⟨d, hd, hp⟩
  · exact .inl (by rw [hw]; exact (List.mem_erase_of_ne hne.symm).mpr h)
  · exact .inr ⟨d, by rw [hc]; exact hd, hp⟩

theorem View.Watched.mono {v v' : View} (h : View.Watched v g) (hw : v.workers ⊆ v'.workers)
    (hc : v.calls ⊆ v'.calls) : View.Watched v' g := by
  rcases h with h | ⟨d, hd, hp⟩
  · exact .inl (hw h)
  · exact .inr ⟨d, hc hd, hp⟩

theorem oneSided_of_rejected (p : ArbPair) (b b' : Bool) : (p.rejected b).status ≠ ArbPair.oneSided b' := by
  cases b
  · rw [status_rejected_dex]; cases b' <;> split <;> decide
  · rw [status_rejected_cex]; cases b' <;> decide

theorem watched_step (hk : c.Keyed) (h : c.step e = some c') (hw : c.OneLegFilled g → c.Watched g)
    (hf : FirstFill g c e → c.Watched g) (h' : c'.OneLegFilled g) : c'.Watched g := by
  obtain ⟨b', hst⟩ := h'
  obtain ⟨p', hp', hst⟩ := Option.map_eq_some_iff.mp hst
  have hwv : ∀ p, (c.view g).pair = some p → (∃ b, p.status = ArbPair.oneSided b) → View.Watched (c.view g) g :=
    fun p hp ⟨b, hb⟩ => hw ⟨b, Option.map_eq_some_iff.mpr ⟨p, hp, hb⟩⟩
  have hs := step_view hk h g
  unfold Watched
  replace hp' : (c'.view g).pair = some p' := hp'
  generalize c'.view g = v' at hs hp'
  cases hs with
  | other _ => exact hwv p' hp' ⟨b', hst⟩
  | addLeg hg hq =>
    cases hp'
    rw [hq, status_withLeg] at hst
    cases hp : (c.view g).pair with
    | none => rw [hp] at hst; cases b' <;> cases hst
    | some p =>
      rw [hp] at hst
      refine (hwv p hp ⟨b', hst⟩).mono ?_ ?_
      · simp
      · simp only; split
        · exact List.subset_cons_self ..
        · exact List.Subset.refl _
  | enterReturns _ _ =>
    rcases hwv p' hp' ⟨b', hst⟩ with hr | ⟨d, hd, hdp⟩
    · exact .inl hr
    · refine .inr ⟨d, (List.mem_erase_of_ne fun he => ?_).mpr hd, hdp⟩
      rw [he] at hdp
      exact hdp
  | enterRefused _ _ _ _ | enterDispatches _ _ _ _ | deadline _ _ _ _ =>
    cases hp'; cases b' <;> cases hst
  | lookupFails _ h₁ | unwindResultIdle _ h₁ => rw [show (c.view g).pair = some p' from hp'] at h₁; cases h₁
  | lookup _ _ | sendCex _ | sendDex _ => exact .inr ⟨_, List.mem_cons_self .., trivial⟩
  | startMonitor _ => exact .inl (List.mem_cons_self ..)
  | deadlineIdle _ _ | sendResultIdle _ _ => exact (hwv p' hp' ⟨b', hst⟩).of_erase (by simp) rfl rfl
  | sendSucceeded _ h₁ _ _ =>
    cases hp'
    rw [status_acknowledged] at hst
    exact (hwv _ h₁ ⟨b', hst⟩).of_erase (by simp) rfl rfl
  | sendFailed _ _ _ _ | legRejected _ _ => cases hp'; exact (oneSided_of_rejected _ _ _ hst).elim
  | riskIdle _ h₁ =>
    -- the monitor ends without a word only where no leg is filled alone
    obtain ⟨hc, hd⟩ := h₁ p' hp'
    cases b'
    · exact absurd hst hd
    · exact absurd hst hc
  | riskCex _ _ _ | riskDex _ _ _ => cases hp'; cases b' <;> cases hst
  | @unwindSend gw o r now _ =>
    have := (hwv p' hp' ⟨b', hst⟩).of_erase (w := .unwindSend g gw o)
      (u := { c.view g with workers := (c.view g).workers.erase (.unwindSend g gw o) }) (by simp) rfl rfl
    exact this.mono (List.subset_cons_self ..) (List.Subset.refl _)
  | @unwindResult r now p _ h₁ =>
    cases hp'
    cases hr : r.success <;> cases b' <;> simp [hr, ArbPair.oneSided] at hst
  | firstFill h₀ h₁ h₂ => exact hf ⟨rfl, _, _, h₀, h₂⟩
  | secondFill _ _ _ => cases hp'; cases b' <;> cases hst
  | lateFill h₀ h₁ _ _ =>
    cases hp'
    rw [status_fillLeg] at hst
    exact hwv _ h₁ ⟨b', hst⟩

theorem unwatched_firstFill (hk : c.Keyed) (h : c.step e = some c') (hf : FirstFill g c e)
    (hw : ¬ c.Watched g) : c'.OneLegFilled g ∧ ¬ c'.Watched g := by
  cases e with
  | onFill x price qty isReject now =>
    obtain ⟨rfl, p, b, hfind, hst⟩ := hf
    have hp := (mem_pairs_of_findLeg hfind).1
    have hs := step_view hk h g
    have hv : ∀ q b', c.findLeg x = some (g, q, b') → q = p := fun q b' h => by
      rw [hfind, Option.some.injEq, Prod.mk.injEq, Prod.mk.injEq] at h; exact h.2.1.symm
    generalize hv' : c'.view g = v' at hs
    cases hs with
    | other ht => exact absurd (by simp [ArbCoordinator.touched, hfind]) ht
    | @firstFill _ _ _ _ q b' h₀ h₁ h₂ =>
      refine ⟨⟨b', ?_⟩, ?_⟩
      · show (c'.view g).pair.map _ = _
        rw [hv']; rfl
      · unfold Watched; rw [hv']; exact hw
    | secondFill h₀ h₁ h₂ =>
      rw [hv _ _ h₀, hst] at h₂
      rename_i b'
      cases b' <;> cases h₂
    | lateFill h₀ h₁ h₂ _ => exact absurd (hv _ _ h₀ ▸ hst) h₂
  | _ => exact hf.elim

/-- Over a run, a pair with one filled leg is watched in every state exactly
when every first fill finds the pair watched. -/
theorem always_watched_iff (config : ArbConfig) (portfolio : PortfolioGuard) (hasGateway : Exchange → Bool)
    (g : CStr 15) (es : List ArbEvent) (hrun : (run step (init config portfolio hasGateway) es).isSome) :
    Always step (fun c => c.OneLegFilled g → c.Watched g) (init config portfolio hasGateway) es ↔
      Along step (fun c e => FirstFill g c e → c.Watched g) (init config portfolio hasGateway) es := by
  constructor
  · intro h
    refine along_iff.mpr fun es₁ e es₂ c he hc hf => ?_
    subst he
    by_contra hw
    obtain ⟨c'', hr⟩ := Option.isSome_iff_exists.mp hrun
    obtain ⟨t, ht, hrest⟩ := run_append_some hr
    rw [hc, Option.some.injEq] at ht
    subst ht
    obtain ⟨c', hs, -⟩ := run_cons hrest
    obtain ⟨hone, hnw⟩ := unwatched_firstFill (keyed_run hc) hs hf hw
    refine hnw (always_iff.mp h (es₁ ++ [e]) es₂ c' (by simp) (run_trans hc (run_one hs)) hone)
  · intro h
    have h0 : (init config portfolio hasGateway).OneLegFilled g → (init config portfolio hasGateway).Watched g := by
      rintro ⟨b, hb⟩
      simp [status, init] at hb
    refine Always.mono (fun c hc => hc.2) (inv_always (I := fun c => c.Keyed ∧ (c.OneLegFilled g → c.Watched g))
      (fun c e c' hI hC hs => ⟨hI.1.step hs, watched_step hI.1 hs hI.2 hC⟩) h
      ⟨keyed_init config portfolio hasGateway, h0⟩)

end

theorem always_watched_iff_pending :
    Always step (fun c => c.OneLegFilled Sample.groupId → c.Watched Sample.groupId) Sample.coordinator
        (Sample.dispatch ++ [Sample.cexFill 4]) ↔
      Along step (fun c e => FirstFill Sample.groupId c e → c.Watched Sample.groupId) Sample.coordinator
        (Sample.dispatch ++ [Sample.cexFill 4]) :=
  always_watched_iff {} (.init {}) (fun _ => true) Sample.groupId _ (by decide +kernel)

/-- The risk window runs out before the first fill. -/
theorem not_always_watched :
    ¬ ∀ (config : ArbConfig) (portfolio : PortfolioGuard) (hasGateway : Exchange → Bool) (g : CStr 15)
      (es : List ArbEvent), OneMessageEach es → (run step (init config portfolio hasGateway) es).isSome →
        Always step (fun c => c.OneLegFilled g → c.Watched g) (init config portfolio hasGateway) es := by
  intro h
  let es := Sample.dispatch ++ Sample.acknowledged ++ [.worker (.riskWindow Sample.groupId) {} 4, Sample.cexFill 5]
  have halways := h {} (.init {}) (fun _ => true) Sample.groupId es (by decide +kernel) (by decide +kernel)
  obtain ⟨c, hc, hst⟩ : ∃ c, run step Sample.coordinator es = some c ∧
      some (c.status Sample.groupId, c.workers, c.calls) =
        some (some .CEX_FILLED, [.deadline Sample.groupId], []) :=
    Option.bind_eq_some_iff.mp (show (run step Sample.coordinator es).bind
      (fun c => some (c.status Sample.groupId, c.workers, c.calls)) =
        some (some .CEX_FILLED, [.deadline Sample.groupId], []) by decide +kernel)
  simp only [Option.some.injEq, Prod.mk.injEq] at hst
  obtain ⟨hst, hw, hd⟩ := hst
  rcases always_iff.mp halways es [] c (List.append_nil _).symm hc ⟨true, hst⟩ with hm | ⟨d, hm, -⟩
  · have := List.mem_of_mem_filter hm
    rw [hw] at this
    simp at this
  · have := List.mem_of_mem_filter hm
    rw [hd] at this
    cases this

end ArbCoordinator

end OrderExecution
