import OrderExecution.ArbGuardCalls

/-!
# What happens to a pair at most once

The statuses of a pair are ranked, and no step takes a pair back in rank. A pair
is dispatched on the way out of rank `0` and booked on the way into rank `3`,
each at most once.
-/

namespace OrderExecution

open ArbCoordinator Machine

def ArbPairStatus.rank : ArbPairStatus → Nat
  | .ASSEMBLING => 0
  | .DISPATCHED => 1
  | .CEX_FILLED | .DEX_FILLED | .ALL_FILLED => 2
  | .UNWINDING | .FAILED | .COMPLETED => 3

def View.rank (v : View) : Nat := v.pair.elim 0 (·.status.rank)

section
variable {c c' : ArbCoordinator} {g : CStr 15} {v v' : View} {e : ArbEvent} {p : ArbPair}

theorem View.rank_of_pair (h : v.pair = some p) : v.rank = p.status.rank := by
  rw [View.rank, h, Option.elim_some]

theorem rank_oneSided (b : Bool) : (ArbPair.oneSided b).rank = 2 := by
  cases b <;> rfl

theorem rank_rejected (p : ArbPair) (b : Bool) : (p.rejected b).status.rank = 3 := by
  cases b with
  | true => rfl
  | false =>
    rw [status_rejected_dex]
    split <;> rfl

theorem ArbPairStatus.rank_le (s : ArbPairStatus) : s.rank ≤ 3 := by
  cases s <;> decide

theorem View.rank_le (v : View) : v.rank ≤ 3 := by
  unfold View.rank
  cases v.pair with
  | none => exact Nat.zero_le 3
  | some p => exact p.status.rank_le

theorem PairStep.rank_le (h : PairStep c g v e v') : v.rank ≤ v'.rank := by
  have last : ∀ {p' : ArbPair}, v'.pair = some p' → p'.status.rank = 3 → v.rank ≤ v'.rank := by
    intro p' hp hr
    rw [View.rank_of_pair hp, hr]
    exact v.rank_le
  have same : v'.pair = v.pair → v.rank ≤ v'.rank := by
    intro he
    unfold View.rank
    rw [he]
  have kept : ∀ {p p' : ArbPair}, v.pair = some p → v'.pair = some p' → p'.status = p.status → v.rank ≤ v'.rank := by
    intro p p' hp hp' he
    rw [View.rank_of_pair hp, View.rank_of_pair hp', he]
  cases h with
  | addLeg _ hq =>
    cases hp : v.pair with
    | none =>
      rw [show v.rank = 0 by rw [View.rank, hp]; rfl]
      exact Nat.zero_le _
    | some p =>
      rw [hp, Option.getD_some] at hq
      exact kept hp rfl (by rw [hq, status_withLeg])
  | enterRefused _ _ _ _ | deadline _ _ _ _ | riskCex _ _ _ | riskDex _ _ _ => exact last rfl rfl
  | enterDispatches _ hp hs _ =>
    rw [View.rank_of_pair hp, hs]
    exact Nat.zero_le _
  | sendCex _ | sendDex _ => exact same (pair_send ..)
  | sendSucceeded _ hp _ _ => exact kept hp rfl (status_acknowledged ..)
  | sendFailed _ _ _ _ | legRejected _ _ => exact last (pair_reject ..) (rank_rejected ..)
  | @unwindResult r now p _ hp =>
    refine last rfl ?_
    cases r.success <;> rfl
  | @firstFill _ _ _ _ p b _ hp hs =>
    rw [View.rank_of_pair hp, hs, View.rank_of_pair rfl, rank_oneSided]
    decide
  | secondFill _ _ _ => exact last rfl rfl
  | lateFill _ hp _ _ => exact kept hp rfl (status_fillLeg ..)
  | _ => exact same rfl

end

/-! ## Bookings -/

/-- The two invariants of every step that the views rest on. -/
structure ArbCoordinator.Sound (c : ArbCoordinator) : Prop where
  keyed : c.Keyed
  complete : c.Complete

theorem ArbCoordinator.Sound.step {c c' : ArbCoordinator} {e : ArbEvent} (h : c.Sound) (hs : c.step e = some c') :
    c'.Sound :=
  ⟨h.keyed.step hs, h.complete.step h.keyed hs⟩

theorem sound_init (config : ArbConfig) (portfolio : PortfolioGuard) (hasGateway : Exchange → Bool)
    (uuid : UuidGenerator) : Sound ((init config portfolio hasGateway).setUuid uuid) :=
  ⟨keyed_init config portfolio hasGateway, complete_init config portfolio hasGateway⟩

def ArbEffect.isBooking : ArbEffect → Bool
  | .bookFill _ _ _ _ => true
  | .dispatched _ | .sendOrder _ _ _ _ | .startUnwind _ => false

def View.bookings (v : View) : List ArbEffect := v.log.filter (·.isBooking)

/-- The fills of the pair that were given to the guard, the last first. -/
def ArbCoordinator.bookings (c : ArbCoordinator) (g : CStr 15) : List ArbEffect := (c.view g).bookings

def legBooking (g : CStr 15) (o : Order) : ArbEffect := .bookFill g o.signal o.avgFillPrice o.filledQuantity

/-- One step gives the guard the fills of both legs of the pair. -/
structure Books (g : CStr 15) (p : ArbPair) (c c' : ArbCoordinator) : Prop where
  pair : c'.pairs.lookup g = some p
  complete : p.bothLegsPresent = true
  before : c.bookings g = []
  after : c'.bookings g = [legBooking g p.dexLeg, legBooking g p.cexLeg]
  guard : c'.portfolio = (c.portfolio.onFill p.cexLeg.signal p.cexLeg.avgFillPrice p.cexLeg.filledQuantity).onFill
    p.dexLeg.signal p.dexLeg.avgFillPrice p.dexLeg.filledQuantity

section
variable {c c' : ArbCoordinator} {g : CStr 15} {v v' : View} {e : ArbEvent} {p : ArbPair}

theorem PairStep.bookings (h : PairStep c g v e v') : v'.bookings = v.bookings ∨
    ∃ x price qty now p b, e = .onFill x price qty false now ∧ c.findLeg x = some (g, p, b) ∧ v.pair = some p ∧
      p.status = ArbPair.oneSided (!b) ∧
      v'.pair = some { fillLeg p b price qty now with status := .ALL_FILLED }.finalized ∧
      v'.bookings = [legBooking g (fillLeg p b price qty now).dexLeg, legBooking g (fillLeg p b price qty now).cexLeg] ++
        v.bookings := by
  have hreject : ∀ (u : View) (p : ArbPair) (b : Bool) (now : Int), (u.reject c g p b now).bookings = u.bookings := by
    intro u p b now
    unfold View.reject
    split <;> rfl
  have hsend : ∀ (b : Bool) (gw : Option Exchange) (o : Order), (v.send g b gw o).bookings = v.bookings := by
    intro b gw o
    cases gw <;> rfl
  cases h with
  | secondFill hf hp hs => exact .inr ⟨_, _, _, _, _, _, rfl, hf, hp, hs, rfl, rfl⟩
  | sendCex _ | sendDex _ => exact .inl (hsend ..)
  | sendFailed _ _ _ _ => exact .inl (hreject ..)
  | legRejected _ _ => exact .inl (hreject ..)
  | _ => exact .inl rfl

/-- Nothing of the pair was booked before it is over. -/
def View.BookedLate (v : View) : Prop := v.bookings ≠ [] → v.rank = 3

theorem View.BookedLate.step (hb : v.BookedLate) (h : PairStep c g v e v') : v'.BookedLate := by
  intro hne
  rcases h.bookings with he | ⟨x, price, qty, now, p, b, -, -, -, -, hp', -⟩
  · have := hb (he ▸ hne)
    have := h.rank_le
    have := v'.rank_le
    omega
  · rw [View.rank_of_pair hp']
    rfl

theorem bookings_step (hsound : c.Sound) (hb : (c.view g).BookedLate) (h : c.step e = some c') :
    c'.bookings g = c.bookings g ∨ ∃ p, Books g p c c' := by
  have hs := step_view hsound.keyed h g
  rcases hs.bookings with he | ⟨x, price, qty, now, p, b, rfl, hf, hp, hst, hp', hbook⟩
  · exact .inl he
  · have hne : p.status ≠ .ASSEMBLING ∧ p.status ≠ .FAILED := by
      rw [hst]
      cases b <;> decide
    have hnil : (c.view g).bookings = [] := by
      by_contra hsome
      have := hb hsome
      rw [View.rank_of_pair hp, hst, rank_oneSided] at this
      omega
    have hops : c.guardOps (.onFill x price qty false now) = (fillLeg p b price qty now).bookOps := by
      rw [guardOps_onFill hf, ArbPair.messageOps, if_neg Bool.false_ne_true, if_pos hst]
    refine .inr ⟨_, show c'.pairs.lookup g = some _ from hp', ?_, hnil, ?_, ?_⟩
    · have hboth := (hsound.complete g).bothLegsPresent hp (.inl ⟨p, hp, hne.1, hne.2⟩)
      exact ((ArbPair.sameLegs_fillLeg p b price qty now).bothLegsPresent).trans hboth
    · refine hbook.trans ?_
      rw [hnil]
      rfl
    · rw [portfolio_step h, hops]
      rfl

structure ArbCoordinator.Ranked (c : ArbCoordinator) : Prop extends c.Sound where
  late : ∀ g, (c.view g).BookedLate

theorem ArbCoordinator.Ranked.step (h : c.Ranked) (hs : c.step e = some c') : c'.Ranked where
  toSound := h.toSound.step hs
  late := fun g => (h.late g).step (step_view h.keyed hs g)

theorem ranked_init (config : ArbConfig) (portfolio : PortfolioGuard) (hasGateway : Exchange → Bool)
    (uuid : UuidGenerator) : Ranked ((init config portfolio hasGateway).setUuid uuid) where
  toSound := sound_init config portfolio hasGateway uuid
  late := fun _ hne => absurd rfl hne

theorem bookings_run {es : List ArbEvent} (h : c.Ranked) (hb : c.bookings g ≠ []) (hr : run step c es = some c') :
    c'.bookings g = c.bookings g := by
  refine (inv_run (I := fun d => d.Ranked ∧ d.bookings g = c.bookings g) ?_ ⟨h, rfl⟩ hr).2
  intro d e d' hd hs
  refine ⟨hd.1.step hs, ?_⟩
  rcases bookings_step hd.1.toSound (hd.1.late g) hs with he | ⟨p, hbooks⟩
  · rw [he, hd.2]
  · exact absurd (hd.2 ▸ hbooks.before) hb

end

/-- The run `es` from `c₀` to `c` books the pair never, or in one step with both
its legs. -/
def BookedOnce (g : CStr 15) (c₀ : ArbCoordinator) (es : List ArbEvent) (c : ArbCoordinator) : Prop :=
  c.bookings g = [] ∨ ∃ es₁ e es₂ c₁ c₂ p, es = es₁ ++ e :: es₂ ∧ run step c₀ es₁ = some c₁ ∧
    c₁.step e = some c₂ ∧ run step c₂ es₂ = some c ∧ Books g p c₁ c₂ ∧ c.bookings g = c₂.bookings g

/-- Every run books the pair both or none, and at most once. -/
theorem booked_both_or_none (config : ArbConfig) (portfolio : PortfolioGuard) (hasGateway : Exchange → Bool)
    (uuid : UuidGenerator) (g : CStr 15) (es : List ArbEvent) (c : ArbCoordinator)
    (h : run step ((init config portfolio hasGateway).setUuid uuid) es = some c) :
    BookedOnce g ((init config portfolio hasGateway).setUuid uuid) es c := by
  generalize hc₀ : (init config portfolio hasGateway).setUuid uuid = c₀ at h ⊢
  have hranked : c₀.Ranked := hc₀ ▸ ranked_init config portfolio hasGateway uuid
  have hnil : c₀.bookings g = [] := hc₀ ▸ rfl
  clear hc₀
  induction es generalizing c₀ with
  | nil =>
    simp only [run, Option.some.injEq] at h
    exact .inl (h ▸ hnil)
  | cons e es ih =>
    obtain ⟨c₁, hs, hr⟩ := run_cons h
    rcases bookings_step hranked.toSound (hranked.late g) hs with he | ⟨p, hbooks⟩
    · rcases ih c₁ hr (hranked.step hs) (he.trans hnil) with hn | ⟨es₁, e', es₂, d₁, d₂, p, hes, hr₁, hrest⟩
      · exact .inl hn
      · refine .inr ⟨e :: es₁, e', es₂, d₁, d₂, p, congrArg (e :: ·) hes, ?_, hrest⟩
        rw [run, hs, Option.bind_some, hr₁]
    · refine .inr ⟨[], e, es, c₀, c₁, p, rfl, rfl, hs, hr, hbooks, ?_⟩
      refine bookings_run (hranked.step hs) ?_ hr
      rw [hbooks.after]
      exact List.cons_ne_nil _ _

def Sample.filledAgain : List ArbEvent :=
  Sample.dispatch ++ Sample.acknowledged ++ [Sample.cexFill 4, Sample.dexFill 5, Sample.cexFill 6]

theorem booked_both_or_none_filled : ∃ c, run step (init {} (.init {}) fun _ => true) Sample.filledAgain = some c ∧
    BookedOnce Sample.groupId (init {} (.init {}) fun _ => true) Sample.filledAgain c := by
  obtain ⟨c, hc⟩ := Option.isSome_iff_exists.mp
    (show (run step (init {} (.init {}) fun _ => true) Sample.filledAgain).isSome by decide +kernel)
  exact ⟨c, hc, booked_both_or_none {} (.init {}) (fun _ => true) {} Sample.groupId _ c hc⟩

end OrderExecution
