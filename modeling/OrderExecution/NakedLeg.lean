import OrderExecution.ArbWorld

/-!
# No naked leg

When a pair is over and every message has come, what was bought on one
exchange is sold on the other or unwound, in every run whose steps leave no
filled leg uncovered. A DEX leg is never unwound, so a pair whose DEX leg fills
first and whose CEX leg is rejected ends naked.
-/

namespace OrderExecution

open ArbCoordinator Machine

/-- The quantity a fill adds to what is held. -/
def signed (s : Signal) (qty : ℚ) : ℚ := qty * s.side.sign

theorem cancels_signed : Cancels signed := by
  intro s s' q _ hside
  rw [signed, signed, hside, Side.sign_opposite, mul_neg]

def Worker.waits : Worker → Bool
  | .sendResult _ _ | .unwindSend _ _ _ | .unwindResult _ => true
  | .deadline _ | .riskWindow _ => false

namespace World

/-- The signed sum of all fills of the pair. -/
def net (w : World) (g : CStr 15) : ℚ :=
  ((w.fills.filter (·.groupId = g)).map fun r => signed r.order.signal r.qty).sum

/-- No send result of the pair is outstanding, and no message of its orders. -/
def Quiet (w : World) (g : CStr 15) : Prop :=
  (∀ t ∈ w.arb.workers, t.groupId = g → t.waits = false) ∧
    ∀ x ∈ w.arb.log, x.groupId = g → ∀ m ∈ x.orders, m.2.orderId ∈ w.closed

instance (w : World) (g : CStr 15) : Decidable (w.Quiet g) := inferInstanceAs (Decidable (_ ∧ _))

/-- Every unwind order that was sent was filled in full. -/
def UnwindsFilled (w : World) (g : CStr 15) : Prop :=
  ∀ x ∈ w.arb.log, x.groupId = g → ∀ o ∈ x.unwindOrder, ⟨g, .unwind, o, o.signal.quantity⟩ ∈ w.fills

instance (w : World) (g : CStr 15) : Decidable (w.UnwindsFilled g) :=
  inferInstanceAs (Decidable (∀ x ∈ w.arb.log, x.groupId = g → ∀ o ∈ x.unwindOrder,
    (⟨g, .unwind, o, o.signal.quantity⟩ : FillRecord) ∈ w.fills))

/-- Once a pair of opposite legs is over, the fills of its orders cancel. -/
def NoNakedLeg (g : CStr 15) (w : World) : Prop :=
  ∀ p ∈ w.arb.pairs.lookup g, p.cexLeg.signal.side = p.dexLeg.signal.side.opposite →
    p.cexLeg.signal.quantity = p.dexLeg.signal.quantity → p.status.isFinal = true →
    w.Quiet g → w.UnwindsFilled g → w.net g = 0

instance (g : CStr 15) (w : World) : Decidable (NoNakedLeg g w) :=
  inferInstanceAs (Decidable (∀ p ∈ w.arb.pairs.lookup g,
    p.cexLeg.signal.side = p.dexLeg.signal.side.opposite → p.cexLeg.signal.quantity = p.dexLeg.signal.quantity →
      p.status.isFinal = true → w.Quiet g → w.UnwindsFilled g → w.net g = 0))

section
variable {W : Signal → ℚ → ℚ} {R : ℚ → ℚ → Prop} {w : World} {g : CStr 15}

theorem sum_fills (W : Signal → ℚ → ℚ) (w : World) (g : CStr 15) :
    ((w.fills.filter (·.groupId = g)).map fun r => W r.order.signal r.qty).sum =
      w.filled W g .cexLeg + w.filled W g .dexLeg + w.filled W g .unwind := by
  obtain ⟨arb, others, closed, fills⟩ := w
  simp only [filled]
  induction fills with
  | nil => simp
  | cons r fills ih =>
    by_cases hg : r.groupId = g
    · have hroles : ∀ role, ((r :: fills).filter fun r => r.groupId = g ∧ r.role = role) =
          if r.role = role then r :: fills.filter fun r => r.groupId = g ∧ r.role = role
          else fills.filter fun r => r.groupId = g ∧ r.role = role := by
        intro role
        by_cases hr : r.role = role <;> simp [hg, hr]
      rw [List.filter_cons_of_pos (by simpa using hg), List.map_cons, List.sum_cons, ih, hroles, hroles, hroles]
      cases hr : r.role <;> simp <;> ring
    · simp only [List.filter_cons, hg, decide_false, false_and, Bool.false_eq_true, ite_false, ih]

theorem Ledger.mem_unwindOrders (h : w.Ledger W R g) {r : FillRecord} (hr : r ∈ w.fills)
    (hg : r.groupId = g) (hrole : r.role = .unwind) : r.order ∈ (w.arb.view g).unwindOrders := by
  obtain ⟨gw, hlog⟩ := sent_log (h.sent r hr).1
  rw [hg, hrole] at hlog
  exact View.mem_unwindOrders.mpr (.inr ⟨_, hlog, rfl⟩)

theorem Ledger.unwind_none (h : w.Ledger W R g) (hn : (w.arb.view g).unwindOrders = []) :
    w.filled W g .unwind = 0 := by
  have : (w.fills.filter fun r => r.groupId = g ∧ r.role = .unwind) = [] := by
    refine List.filter_eq_nil_iff.mpr fun r hr hc => ?_
    simp only [Bool.decide_and, Bool.and_eq_true, decide_eq_true_eq] at hc
    have := h.mem_unwindOrders hr hc.1 hc.2
    rw [hn] at this
    cases this
  rw [filled, this]; rfl

theorem Ledger.unwind_one (h : w.Ledger W R g) {o : Order} (ho : (w.arb.view g).unwindOrders = [o])
    (hq : w.Quiet g) (hf : w.UnwindsFilled g) : w.filled W g .unwind = W o.signal o.signal.quantity := by
  have hsent : ∃ x ∈ (w.arb.view g).log, x.unwindOrder = some o := by
    have hmem : o ∈ (w.arb.view g).unwindOrders := by rw [ho]; exact List.mem_singleton_self _
    rcases View.mem_unwindOrders.mp hmem with ⟨t, ht, hto⟩ | hx
    · obtain ⟨ht, hg⟩ := List.mem_filter.mp ht
      have := hq.1 t ht (by simpa using hg)
      cases t with
      | unwindSend g' gw o' => cases this
      | _ => cases hto
    · exact hx
  obtain ⟨x, hx, hxo⟩ := hsent
  obtain ⟨hx, hg⟩ := List.mem_filter.mp hx
  have hr := hf x hx (by simpa using hg) o hxo
  have hfilter : (w.fills.filter fun r => r.groupId = g ∧ r.role = .unwind) =
      [⟨g, .unwind, o, o.signal.quantity⟩] := by
    have hnodup := (List.Nodup.of_map _ h.once).filter fun r => r.groupId = g ∧ r.role = .unwind
    refine List.perm_singleton.mp ((List.perm_ext_iff_of_nodup hnodup (List.nodup_singleton _)).mpr fun r => ?_)
    simp only [List.mem_filter, Bool.decide_and, Bool.and_eq_true, decide_eq_true_eq, List.mem_singleton]
    constructor
    · rintro ⟨hr', hg', hrole⟩
      have hor := h.mem_unwindOrders hr' hg' hrole
      rw [ho, List.mem_singleton] at hor
      exact List.inj_on_of_nodup_map h.once hr' hr (congrArg Order.orderId hor)
    · rintro rfl
      exact ⟨hr, rfl, rfl⟩
  rw [filled, hfilter, List.map_singleton, List.sum_singleton]

theorem ledger_init (config : ArbConfig) (portfolio : PortfolioGuard) (hasGateway : Exchange → Bool) :
    (init config portfolio hasGateway).Ledger W R g where
  tagged := tagged_init config portfolio hasGateway
  sent := fun r hr => by cases hr
  once := List.nodup_nil
  dispatched := by
    refine .inr ⟨rfl, fun p hp => ?_, fun d hd => ?_, fun t ht => ?_⟩
    · cases hp
    · cases hd
    · cases ht
  asAdded := by
    refine ⟨fun p b hp => ?_, fun b o ho => ?_, ?_⟩
    · cases hp
    · simp [View.mem_orders, init, ArbCoordinator.init, view] at ho
    · rintro (⟨x, o, hx⟩ | ⟨x, gw, o₁, o₂, hx⟩) <;> cases hx
  unwinding := by
    rintro ⟨t, ht, -⟩
    cases ht
  balanced := ⟨fun _ => ⟨rfl, rfl, rfl, rfl⟩, fun p hp => by cases hp⟩

theorem Ledger.noNakedLeg (h : w.Ledger signed Eq g) : NoNakedLeg g w := by
  intro p hp hside _ hfinal hq hf
  rw [net, sum_fills]
  obtain ⟨ph, ha, hh⟩ := h.balanced.phase p hp
  cases ph with
  | idle =>
    obtain ⟨hc, hd, -, hn⟩ := hh
    rw [hc, hd, h.unwind_none hn]
    simp
  | cexOnly | dexOnly =>
    rw [of_decide_eq_true ha] at hfinal
    cases hfinal
  | both =>
    obtain ⟨-, hc, hd, -, hn, hqty⟩ := hh
    have hqty : p.cexLeg.filledQuantity = p.dexLeg.filledQuantity := hqty.elim id Eq.symm
    rw [h.unwind_none hn, hc, hd, signed, signed, hside, hqty, Side.sign_opposite]
    ring
  | unwound =>
    obtain ⟨hd, -, o, ho, hW⟩ := hh
    rw [h.unwind_one ho hq hf, hW, hd]
    ring

end

end World

/-- In every run that keeps the legs of a dispatched pair and whose steps leave no
filled leg uncovered, no leg is naked in any state. -/
theorem no_naked_leg (config : ArbConfig) (portfolio : PortfolioGuard) (hasGateway : Exchange → Bool)
    (g : CStr 15) (es : List WorldEvent)
    (hkept : Along World.step (fun w we => ∀ e ∈ we.arbEvent, LegsKept g w.arb e)
      (.init config portfolio hasGateway) es)
    (hids : Along World.step (fun w _ => w.arb.uuid.orderCounter < 10 ^ 11)
      (.init config portfolio hasGateway) es)
    (hcov : Along World.step (fun w we => ∀ e ∈ we.arbEvent, LegsCovered Eq g w.arb e)
      (.init config portfolio hasGateway) es) :
    Always World.step (World.NoNakedLeg g) (.init config portfolio hasGateway) es := by
  refine Always.mono (fun w hw => World.Ledger.noNakedLeg hw)
    (inv_always (C := World.Keeps Eq g) (I := World.Ledger signed Eq g) ?_ ?_ ?_)
  · exact fun w we w' hI hk hs => hI.step cancels_signed hk hs
  · exact ((hids.and hkept).and hcov).mono fun w we hc => ⟨hc.1.1, hc.1.2, hc.2⟩
  · exact World.ledger_init config portfolio hasGateway

namespace Sample

def world : World := .init {} (.init {}) fun _ => true

def opening : List WorldEvent := (dispatch ++ acknowledged).map .code

end Sample

theorem no_naked_leg_filled :
    Always World.step (World.NoNakedLeg Sample.groupId) Sample.world (Sample.opening ++
      [.message Sample.groupId .cexLeg Sample.cexOrder 100 1 false 4,
       .message Sample.groupId .dexLeg Sample.dexOrder 100 1 false 5]) :=
  no_naked_leg {} (.init {}) (fun _ => true) Sample.groupId _ (by decide +kernel) (by decide +kernel)
    (by decide +kernel)

/-- No leg of the pair is submitted twice. -/
def SubmittedOnce (g : CStr 15) (c : ArbCoordinator) : ArbEvent → Prop
  | .addLeg s _ => s.groupId = g → ∀ p ∈ c.pairs.lookup g, p.hasLeg s.isCexLeg = false
  | _ => True

instance (g : CStr 15) (c : ArbCoordinator) : ∀ e, Decidable (SubmittedOnce g c e)
  | .addLeg s _ =>
    inferInstanceAs (Decidable (s.groupId = g → ∀ p ∈ c.pairs.lookup g, p.hasLeg s.isCexLeg = false))
  | .dispatch _ _ | .worker _ _ _ | .onFill _ _ _ _ _ | .portfolio _ | .drawOrderId => isTrue trivial

/-- The DEX leg fills, and then the CEX leg is rejected. -/
theorem not_no_naked_leg :
    ¬ ∀ (config : ArbConfig) (portfolio : PortfolioGuard) (hasGateway : Exchange → Bool) (g : CStr 15)
      (es : List WorldEvent),
      Along World.step (fun w we => ∀ e ∈ we.arbEvent, SubmittedOnce g w.arb e)
        (.init config portfolio hasGateway) es →
      (run World.step (.init config portfolio hasGateway) es).isSome →
      Always World.step (World.NoNakedLeg g) (.init config portfolio hasGateway) es := by
  intro h
  let es := Sample.opening ++
    [.message Sample.groupId .dexLeg Sample.dexOrder 100 1 false 4,
     .message Sample.groupId .cexLeg Sample.cexOrder 0 0 true 5]
  have halways := h {} (.init {}) (fun _ => true) Sample.groupId es (by decide +kernel) (by decide +kernel)
  obtain ⟨w, hw, hn⟩ : ∃ w, run World.step Sample.world es = some w ∧
      some (decide (World.NoNakedLeg Sample.groupId w)) = some false :=
    Option.bind_eq_some_iff.mp (show (run World.step Sample.world es).bind
      (fun w => some (decide (World.NoNakedLeg Sample.groupId w))) = some false by decide +kernel)
  exact of_decide_eq_false (Option.some.inj hn) (always_iff.mp halways es [] w (List.append_nil _).symm hw)

end OrderExecution
