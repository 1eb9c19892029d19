import OrderExecution.ArbOnce

/-!
# The orders that `add_leg` returns

The slot of an order is chosen by the type of its exchange alone. An order stays
a leg of its pair for as long as no other order is put in its slot.
-/

namespace OrderExecution

open ArbCoordinator Machine

def HasOrder (g : CStr 15) (o : Order) (c : ArbCoordinator) : Prop :=
  ∃ p ∈ c.pairs.lookup g, ∃ b, p.hasLeg b = true ∧ (p.leg b).orderId = o.orderId ∧ (p.leg b).signal = o.signal

instance (g : CStr 15) (o : Order) (c : ArbCoordinator) : Decidable (HasOrder g o c) :=
  inferInstanceAs (Decidable (∃ p ∈ c.pairs.lookup g, ∃ b, p.hasLeg b = true ∧ (p.leg b).orderId = o.orderId ∧
    (p.leg b).signal = o.signal))

/-- `add_leg` puts an order in the place of another one. -/
def Replaces (c : ArbCoordinator) : ArbEvent → Prop
  | .addLeg s _ => ∃ p ∈ c.pairs.lookup s.groupId, p.hasLeg s.isCexLeg = true ∧
      ((p.leg s.isCexLeg).orderId ≠ storedOrderId c.uuid.orderCounter ∨ (p.leg s.isCexLeg).signal ≠ s)
  | _ => False

/-- Every order that `add_leg` returns in the run `es` from `c₀` is a leg of its
pair from then on. -/
def LegsStay (c₀ : ArbCoordinator) (es : List ArbEvent) : Prop :=
  ∀ es₁ s now es₂ c, es = es₁ ++ .addLeg s now :: es₂ → run step c₀ es₁ = some c →
    Always step (HasOrder s.groupId (c.addLeg s now).2) (c.addLeg s now).1 es₂

section
variable {c c' : ArbCoordinator} {g : CStr 15} {v v' : View} {e : ArbEvent} {p : ArbPair} {b : Bool} {o : Order}

theorem lookup_addLeg (c : ArbCoordinator) (s : Signal) (now : Int) :
    (c.addLeg s now).1.pairs.lookup s.groupId = some (c.addedPair s now) := by
  rw [addLeg_fst]
  split <;> exact AList.lookup_insert _

theorem leg_addedPair (c : ArbCoordinator) (s : Signal) (now : Int) :
    (c.addedPair s now).hasLeg s.isCexLeg = true ∧ (c.addedPair s now).leg s.isCexLeg = c.newOrder s now :=
  ⟨hasLeg_withLeg _ (c.newOrder s now), leg_withLeg _ (c.newOrder s now)⟩

theorem bothLegsPresent_addedPair (c : ArbCoordinator) (s : Signal) (now : Int) :
    (c.addedPair s now).bothLegsPresent = true ↔ (c.addedPair s now).hasLeg (!s.isCexLeg) = true := by
  rw [ArbPair.bothLegsPresent_iff]
  refine ⟨fun h => h _, fun h b => ?_⟩
  by_cases hb : b = s.isCexLeg
  · exact hb ▸ (leg_addedPair c s now).1
  · rw [Bool.eq_not_of_ne hb]; exact h

theorem hasOrder_addLeg (c : ArbCoordinator) (s : Signal) (now : Int) :
    HasOrder s.groupId (c.addLeg s now).2 (c.addLeg s now).1 := by
  obtain ⟨hb, hl⟩ := leg_addedPair c s now
  exact ⟨_, lookup_addLeg c s now, s.isCexLeg, hb, by rw [hl]; exact ⟨rfl, rfl⟩⟩

theorem HasOrder.step (h : HasOrder g o c) (hk : c.Keyed) (hr : ¬ Replaces c e) (hs : c.step e = some c') :
    HasOrder g o c' := by
  obtain ⟨p, hp, b, hb, hid, hsig⟩ := h
  by_cases hadd : ∃ s now, e = .addLeg s now ∧ s.groupId = g
  · obtain ⟨s, now, rfl, rfl⟩ := hadd
    cases hs
    have hadded := addedPair_some hp now
    refine ⟨_, lookup_addLeg c s now, b, ?_⟩
    by_cases hbs : b = s.isCexLeg
    · subst hbs
      obtain ⟨hb', hl⟩ := leg_addedPair c s now
      simp only [Replaces, not_exists, not_and, not_or, not_not] at hr
      obtain ⟨hid', hsig'⟩ := hr p hp hb
      refine ⟨hb', ?_⟩
      rw [hl, ← hid, ← hsig, hid', hsig']
      exact ⟨rfl, rfl⟩
    · rw [hadded, leg_withLeg_ne p (c.newOrder s now) hbs, hasLeg_withLeg_ne p (c.newOrder s now) hbs]
      exact ⟨hb, hid, hsig⟩
  · simp only [not_exists, not_and] at hadd
    obtain ⟨p', hp', hsame⟩ := (step_view hk hs g).legs_after hadd hp
    exact ⟨p', hp', b, (hsame.hasLeg b).trans hb, (hsame.orderId b).trans hid, (hsame.signal b).trans hsig⟩

theorem leg_history {c₀ : ArbCoordinator} {es : List ArbEvent} (hk : c₀.Keyed) (hnone : ∀ g, c₀.pairs.lookup g = none)
    (h : run step c₀ es = some c) (hp : c.pairs.lookup g = some p) (hb : p.hasLeg b = true) :
    ∃ es₁ s now es₂ c₁, es = es₁ ++ .addLeg s now :: es₂ ∧ run step c₀ es₁ = some c₁ ∧ s.groupId = g ∧
      s.isCexLeg = b ∧ (p.leg b).orderId = (c₁.addLeg s now).2.orderId ∧
        (p.leg b).signal = (c₁.addLeg s now).2.signal := by
  induction es using List.reverseRecOn generalizing c p with
  | nil =>
    simp only [run, Option.some.injEq] at h
    rw [← h, hnone] at hp
    cases hp
  | append_singleton es e ih =>
    obtain ⟨d, hd, hs⟩ := run_snoc h
    have hkd : d.Keyed := inv_run (fun _ _ _ hk hs => hk.step hs) hk hd
    rcases (step_view hkd hs g).leg_origin hp hb with ⟨q, hq, hbq, hid, hsig⟩ | ⟨s, now, rfl, hg, hsb, hid, hsig⟩
    · obtain ⟨es₁, s, now, es₂, c₁, rfl, hr, hg, hsb, hid', hsig'⟩ := ih hd hq hbq
      exact ⟨es₁, s, now, es₂ ++ [e], c₁, by simp, hr, hg, hsb, hid.trans hid', hsig.trans hsig'⟩
    · exact ⟨es, s, now, [], d, rfl, hd, hg, hsb, hid, hsig⟩

end

/-- In every run, each order that `add_leg` returned stays a leg of its pair
exactly when no `add_leg` replaces one. -/
theorem legs_stay_iff (config : ArbConfig) (portfolio : PortfolioGuard) (hasGateway : Exchange → Bool)
    (uuid : UuidGenerator) (es : List ArbEvent) :
    LegsStay ((init config portfolio hasGateway).setUuid uuid) es ↔
      Along step (fun c e => ¬ Replaces c e) ((init config portfolio hasGateway).setUuid uuid) es := by
  generalize hc₀ : (init config portfolio hasGateway).setUuid uuid = c₀
  have hk : c₀.Keyed := hc₀ ▸ keyed_init config portfolio hasGateway
  have hnone : ∀ g, c₀.pairs.lookup g = none := fun g => hc₀ ▸ rfl
  clear hc₀
  have keyed : ∀ {es c}, run step c₀ es = some c → c.Keyed := fun hr =>
    inv_run (fun _ _ _ hk hs => hk.step hs) hk hr
  constructor
  · intro hstay
    refine along_iff.mpr fun es₁ e es₂ c hes hr hrep => ?_
    cases e with
    | addLeg s now =>
      obtain ⟨p, hp, hb, hne⟩ := hrep
      -- the leg that is replaced came from an earlier call, and its order is a leg still
      obtain ⟨es₀, s₀, now₀, es₃, c₁, rfl, hr₁, hg, hsb, hid, hsig⟩ := leg_history hk hnone hr hp hb
      have halways := hstay es₀ s₀ now₀ (es₃ ++ .addLeg s now :: es₂) c₁ (by rw [hes]; simp) hr₁
      obtain ⟨d, hd, hr₂⟩ := run_append_some hr
      obtain rfl : c₁ = d := Option.some.inj (hr₁.symm.trans hd)
      obtain ⟨d, hs, hr₂⟩ := run_cons hr₂
      cases hs
      obtain ⟨q, hq, b, hbq, hidq, hsigq⟩ := always_iff.mp halways (es₃ ++ [.addLeg s now]) es₂ (c.addLeg s now).1
        (by simp) (run_trans hr₂ (run_one rfl))
      rw [hg, lookup_addLeg, Option.mem_some_iff] at hq
      subst hq
      by_cases hbs : b = s.isCexLeg
      · subst hbs
        rw [(leg_addedPair c s now).2] at hidq hsigq
        rcases hne with hne | hne
        · exact hne (hid.trans hidq.symm)
        · exact hne (hsig.trans hsigq.symm)
      · have hrun : run step c₀ ((es₀ ++ .addLeg s₀ now₀ :: es₃) ++ [.addLeg s now]) = some (c.addLeg s now).1 :=
          run_trans hr (run_one rfl)
        obtain ⟨_, s', now', _, _, -, -, -, hsb', -, hsig'⟩ := leg_history hk hnone hrun (lookup_addLeg c s now) hbq
        refine hbs (hsb'.symm.trans (Eq.trans ?_ hsb))
        exact congrArg Signal.isCexLeg (hsig'.symm.trans hsigq)
    | _ => exact hrep
  · intro halong es₁ s now es₂ c hes hr
    have hlast : Along step (fun c e => ¬ Replaces c e) (c.addLeg s now).1 es₂ :=
      along_iff.mpr fun es₃ e es₄ d he hd => along_iff.mp halong (es₁ ++ .addLeg s now :: es₃) e es₄ d
        (by rw [hes, he]; simp) (run_trans hr (by rw [run]; exact hd))
    refine Always.mono (fun d hd => hd.2) (inv_always (I := fun d => d.Keyed ∧ HasOrder s.groupId _ d)
      (fun d e d' hd hr hs => ⟨hd.1.step hs, hd.2.step hd.1 hr hs⟩) hlast ⟨?_, hasOrder_addLeg c s now⟩)
    exact (keyed hr).step (e := .addLeg s now) rfl

def Sample.bybitSignal : Signal := { Sample.cexSignal with signalId := storedSignalId 103, exchange := .BYBIT }

/-- A second CEX leg comes once the pair is dispatched. -/
theorem not_legs_stay :
    ¬ ∀ (config : ArbConfig) (portfolio : PortfolioGuard) (hasGateway : Exchange → Bool) (uuid : UuidGenerator)
      (es : List ArbEvent), LegsStay ((init config portfolio hasGateway).setUuid uuid) es := by
  intro h
  let c₁ := (Sample.coordinator.addLeg Sample.cexSignal 1).1
  let es := Sample.dispatch.tail ++ [.addLeg Sample.bybitSignal 3]
  have halways := h {} (.init {}) (fun _ => true) {} (.addLeg Sample.cexSignal 1 :: es) [] Sample.cexSignal 1 es
    Sample.coordinator rfl rfl
  obtain ⟨c, hc, hn⟩ : ∃ c, run step c₁ es = some c ∧
      some (decide (HasOrder Sample.groupId (Sample.coordinator.addLeg Sample.cexSignal 1).2 c)) = some false :=
    Option.bind_eq_some_iff.mp (show (run step c₁ es).bind (fun c => some (decide (HasOrder Sample.groupId
      (Sample.coordinator.addLeg Sample.cexSignal 1).2 c))) = some false by decide +kernel)
  exact of_decide_eq_false (Option.some.inj hn) (always_iff.mp halways es [] c (List.append_nil _).symm hc)

end OrderExecution
