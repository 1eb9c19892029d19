import OrderExecution.ArbLegs
import OrderExecution.SingleCalls

/-!
# Stale signals

The age of a signal is a difference of two `int64_t`. Below `2 ^ 63` nanoseconds
a signal past its threshold is refused before anything is made of it. From there
on the difference wraps to a negative age, which no threshold refuses.
-/

namespace OrderExecution

open SignalReceiver

def IsInt64 (x : Int) : Prop := -2 ^ 63 ≤ x ∧ x < 2 ^ 63

instance (x : Int) : Decidable (IsInt64 x) := inferInstanceAs (Decidable (_ ∧ _))

namespace SignalReceiver

/-- `receive_ns - signal.timestamp_ns` as an integer. -/
def trueAgeNs (s : Signal) (receiveNs : Int) : Int := receiveNs - s.timestampNs

/-- The age from which a signal is past its threshold by a millisecond. -/
def staleNs (config : SignalConfig) (s : Signal) : Int := (thresholdMs config s + 1) * 1000000

/-- No field of the signal alone makes `validate` refuse it. -/
structure Complete (s : Signal) : Prop where
  signalId : s.signalId.isEmpty = false
  symbol : s.symbol.isEmpty = false
  quantity : 0 < s.quantity
  option : s.instrumentType = .OPTIONS → s.hasStrikePrice = true ∧ s.hasExpiry = true ∧ s.hasOptionType = true

section
variable {config : SignalConfig} {s : Signal} {receiveNs : Int}

theorem accepted_iff : Accepted config s receiveNs ↔ Complete s ∧ ageMs s receiveNs ≤ thresholdMs config s := by
  constructor
  · exact fun h => ⟨⟨h.signalId, h.symbol, h.quantity, h.option⟩, h.fresh⟩
  · exact fun h => ⟨h.1.signalId, h.1.symbol, h.1.quantity, h.1.option, h.2⟩

/-- Two moments of `int64_t`, the later of them not before the epoch. -/
structure Timed (s : Signal) (receiveNs : Int) : Prop where
  timestamp : IsInt64 s.timestampNs
  receive : IsInt64 receiveNs
  nonneg : 0 ≤ receiveNs

theorem Timed.age_eq (h : Timed s receiveNs) (hlt : trueAgeNs s receiveNs < 2 ^ 63) :
    (receiveNs - s.timestampNs).bmod (2 ^ 64) = trueAgeNs s receiveNs := by
  obtain ⟨-, hts⟩ := h.timestamp
  have hr := h.nonneg
  unfold trueAgeNs at hlt ⊢
  apply Int.bmod_eq_of_le <;> omega

theorem Timed.age_wraps (h : Timed s receiveNs) (hle : 2 ^ 63 ≤ trueAgeNs s receiveNs) :
    (receiveNs - s.timestampNs).bmod (2 ^ 64) = trueAgeNs s receiveNs - 2 ^ 64 := by
  obtain ⟨hts, -⟩ := h.timestamp
  obtain ⟨-, hr⟩ := h.receive
  unfold trueAgeNs at hle ⊢
  rw [← Int.sub_bmod_right]
  apply Int.bmod_eq_of_le <;> omega

theorem tdiv_le_iff {x n : Int} (hn : 0 ≤ n) : x.tdiv 1000000 ≤ n ↔ x < (n + 1) * 1000000 := by
  by_cases hx : 0 ≤ x
  · rw [Int.tdiv_eq_ediv_of_nonneg hx]
    omega
  · have hneg : x.tdiv 1000000 ≤ Int.tdiv 0 1000000 := Int.tdiv_le_tdiv (by norm_num) (by omega)
    rw [Int.zero_tdiv] at hneg
    omega

/-- The age passes its threshold if and only if the signal is not stale, or so
old that the difference wraps. -/
theorem Timed.fresh_iff (h : Timed s receiveNs) (hn : 0 ≤ thresholdMs config s) :
    ageMs s receiveNs ≤ thresholdMs config s ↔
      trueAgeNs s receiveNs < staleNs config s ∨ 2 ^ 63 ≤ trueAgeNs s receiveNs := by
  unfold ageMs staleNs
  rw [tdiv_le_iff hn]
  by_cases hlt : trueAgeNs s receiveNs < 2 ^ 63
  · rw [h.age_eq hlt, or_iff_left (not_le.mpr hlt)]
  · rw [h.age_wraps (not_lt.mp hlt)]
    refine iff_of_true ?_ (.inr (not_lt.mp hlt))
    obtain ⟨hts, -⟩ := h.timestamp
    obtain ⟨-, hr⟩ := h.receive
    unfold trueAgeNs
    omega

end

end SignalReceiver

namespace OrderManager

/-- No id is drawn, and no order and no leg is made. -/
structure CreatesNothing (m m' : OrderManager) : Prop where
  arb : m'.arb = m.arb
  orders : m'.orders = m.orders
  tasks : m'.tasks = m.tasks

/-- An order of the signal is in a call of `process_single_leg`, in `orders_`, or in
`pairs_` as a leg. -/
def Holds (m : OrderManager) (s : Signal) (o : Order) : Prop :=
  .check o ∈ m.tasks ∨ m.orders.lookup o.orderId = some o ∨
    ∃ p ∈ m.arb.pairs.lookup s.groupId, p.hasLeg s.isCexLeg = true ∧ p.leg s.isCexLeg = o

/-- The signal has become an order, under the next id. -/
structure Creates (m : OrderManager) (s : Signal) (m' : OrderManager) : Prop where
  drawn : m'.arb.uuid = m.arb.uuid.orderId.2
  order : ∃ o, o.orderId = storedOrderId m.arb.uuid.orderCounter ∧ o.signal = s ∧ m'.Holds s o

/-- What `process_signal` leaves: as it enters its pipeline, and when a call for a
single leg has returned with no other thread in between. -/
inductive ProcessSignal (m : OrderManager) (s : Signal) (receiveNs : Int) : OrderManager → Prop where
  | enters (now : Int) : ProcessSignal m s receiveNs (m.processSignal s receiveNs now)
  | returns (now sentNow : Int) (answers : List (Option CancelResult)) : s.hasGroupId = false →
      ProcessSignal m s receiveNs (m.processCall s receiveNs now sentNow answers)

section
variable {m m' : OrderManager} {s : Signal} {receiveNs : Int}

theorem CreatesNothing.not_creates (h : m.CreatesNothing m') : ¬ m.Creates s m' := by
  intro hc
  have hcount := congrArg UuidGenerator.orderCounter (h.arb ▸ hc.drawn)
  simp only [UuidGenerator.orderId] at hcount
  omega

theorem ProcessSignal.createsNothing (h : ProcessSignal m s receiveNs m')
    (hv : (validate m.signalConfig s receiveNs).valid = false) : m.CreatesNothing m' := by
  cases h with
  | enters now =>
    unfold processSignal
    simp only [hv, Bool.not_false, ite_true]
    exact ⟨rfl, rfl, rfl⟩
  | returns now sentNow answers _ =>
    rw [processCall_invalid hv]
    exact ⟨rfl, rfl, rfl⟩

theorem uuid_addLeg (c : ArbCoordinator) (now : Int) : (c.addLeg s now).1.uuid = c.uuid.orderId.2 := by
  rw [ArbCoordinator.addLeg_fst]
  unfold ArbCoordinator.addingTo
  split <;> split <;> rfl

theorem creates_processSignal (hv : (validate m.signalConfig s receiveNs).valid = true) (now : Int) :
    m.Creates s (m.processSignal s receiveNs now) := by
  unfold processSignal
  simp only [hv, Bool.not_true, Bool.false_eq_true, ite_false]
  split
  · obtain ⟨hleg, horder⟩ := leg_addedPair m.arb s now
    exact ⟨uuid_addLeg m.arb now, _, rfl, rfl, .inr (.inr ⟨_, lookup_addLeg m.arb s now, hleg, horder⟩)⟩
  · exact ⟨rfl, m.newOrder s now, rfl, rfl, .inl (List.mem_cons_self ..)⟩

/-- A call that is let in stores an order, whether it is refused later or not. -/
theorem creates_processCall (hv : (validate m.signalConfig s receiveNs).valid = true) (now sentNow : Int)
    (answers : List (Option CancelResult)) : m.Creates s (m.processCall s receiveNs now sentNow answers) := by
  have h := m.processCall_spec s receiveNs now sentNow answers
  generalize m.processCall s receiveNs now sentNow answers = m' at h
  cases h with
  | invalid r hinvalid =>
    rw [hv] at hinvalid
    cases hinvalid
  | refused reason r _ =>
    exact ⟨rfl, m.refusedOrder s now reason, rfl, rfl, .inr (.inl (AList.lookup_insert _))⟩
  | stranded r _ _ =>
    exact ⟨rfl, m.strandedOrder s now sentNow, rfl, rfl, .inr (.inl (AList.lookup_insert _))⟩
  | sent r _ _ =>
    exact ⟨rfl, m.sentOrder s now sentNow, rfl, rfl, .inr (.inl (AList.lookup_insert _))⟩

theorem ProcessSignal.creates (h : ProcessSignal m s receiveNs m')
    (hv : (validate m.signalConfig s receiveNs).valid = true) : m.Creates s m' := by
  cases h with
  | enters now => exact creates_processSignal hv now
  | returns now sentNow answers _ => exact creates_processCall hv now sentNow answers

/-- The signal becomes an order if and only if it is let through. -/
theorem ProcessSignal.creates_iff (h : ProcessSignal m s receiveNs m') :
    m.Creates s m' ↔ Accepted m.signalConfig s receiveNs := by
  rw [← validate_valid_iff]
  cases hv : (validate m.signalConfig s receiveNs).valid with
  | false => exact iff_of_false (h.createsNothing hv).not_creates Bool.false_ne_true
  | true => exact iff_of_true (h.creates hv) rfl

end

/-- Nothing is made of the signal once it is stale, and a later one is let through
where it is. -/
structure NoStale (m : OrderManager) (s : Signal) (receiveNs : Int) : Prop where
  refused : staleNs m.signalConfig s ≤ trueAgeNs s receiveNs → ∀ m', ProcessSignal m s receiveNs m' →
    m.CreatesNothing m'
  monotone : ∀ t, s.timestampNs ≤ t → IsInt64 t → ∀ m' m'', ProcessSignal m s receiveNs m' →
    ProcessSignal m { s with timestampNs := t } receiveNs m'' → m.Creates s m' →
      m.Creates { s with timestampNs := t } m''

end OrderManager

open OrderManager

/-- No stale signal is executed if and only if the signal is incomplete, or its
age in nanoseconds fits in 63 bits, or is below the threshold. -/
theorem stale_not_executed_iff (m : OrderManager) (s : Signal) (receiveNs : Int)
    (hdirect : 0 ≤ m.signalConfig.directFreshnessMs) (hbacktest : 0 ≤ m.signalConfig.backtestFreshnessMs)
    (htimed : Timed s receiveNs) :
    m.NoStale s receiveNs ↔ ¬ Complete s ∨ trueAgeNs s receiveNs < 2 ^ 63 ∨
      trueAgeNs s receiveNs < staleNs m.signalConfig s := by
  have hthreshold : ∀ s : Signal, 0 ≤ thresholdMs m.signalConfig s := by
    intro s
    unfold thresholdMs
    split
    · exact hdirect
    · exact hbacktest
  constructor
  · intro h
    by_contra hcond
    simp only [not_or, not_not, not_lt] at hcond
    obtain ⟨hcomplete, hwraps, hstale⟩ := hcond
    have haccepted : Accepted m.signalConfig s receiveNs :=
      accepted_iff.mpr ⟨hcomplete, (htimed.fresh_iff (hthreshold s)).mpr (.inr hwraps)⟩
    have henters : ProcessSignal m s receiveNs (m.processSignal s receiveNs 0) := .enters 0
    exact (h.refused hstale _ henters).not_creates (henters.creates_iff.mpr haccepted)
  · intro hcond
    have hnot : Accepted m.signalConfig s receiveNs → trueAgeNs s receiveNs < staleNs m.signalConfig s := by
      intro ha
      obtain ⟨hcomplete, hfresh⟩ := accepted_iff.mp ha
      rcases hcond with hc | hlt | hlt
      · exact absurd hcomplete hc
      · exact ((htimed.fresh_iff (hthreshold s)).mp hfresh).resolve_right (not_le.mpr hlt)
      · exact hlt
    refine ⟨fun hstale m' hm' => ?_, fun t hle ht m' m'' hm' hm'' hcreates => ?_⟩
    · refine hm'.createsNothing ?_
      rw [← Bool.not_eq_true, validate_valid_iff]
      exact fun ha => absurd (hnot ha) (not_lt.mpr hstale)
    · have ha := hm'.creates_iff.mp hcreates
      have hcomplete := (accepted_iff.mp ha).1
      have hlt : trueAgeNs { s with timestampNs := t } receiveNs ≤ trueAgeNs s receiveNs := by
        unfold trueAgeNs
        simp only
        omega
      have htimed' : Timed { s with timestampNs := t } receiveNs := ⟨ht, htimed.receive, htimed.nonneg⟩
      refine hm''.creates_iff.mpr (accepted_iff.mpr ⟨?_, ?_⟩)
      · exact ⟨hcomplete.signalId, hcomplete.symbol, hcomplete.quantity, hcomplete.option⟩
      · exact (htimed'.fresh_iff (hthreshold _)).mpr (.inl (lt_of_le_of_lt hlt (hnot ha)))

namespace Sample

def yesterday : Signal :=
  { signalId := .copy 15 (lit "sig_001"), symbol := .copy 15 (lit "ETH"), quantity := 1, price := 100,
    timestampNs := -86400000000000 }

/-- Stamped as far back as an `int64_t` goes. -/
def ancient : Signal := { yesterday with timestampNs := -2 ^ 63 }

theorem stale_not_executed_yesterday : (fresh {} {} {} (fun _ => true) {}).NoStale yesterday 0 :=
  (stale_not_executed_iff _ yesterday 0 (by decide) (by decide) ⟨by decide, by decide, by decide⟩).mpr
    (.inr (.inl (by decide)))

/-- At the epoch, a signal of `-2 ^ 63` nanoseconds has the age `-2 ^ 63`. -/
theorem not_stale_not_executed : ¬ ∀ (m : OrderManager) (s : Signal) (receiveNs : Int),
    0 ≤ m.signalConfig.directFreshnessMs → 0 ≤ m.signalConfig.backtestFreshnessMs → Timed s receiveNs →
      m.NoStale s receiveNs := by
  intro h
  let m : OrderManager := fresh {} {} {} (fun _ => true) {}
  have hno : m.NoStale ancient 0 := h m ancient 0 (by decide) (by decide) ⟨by decide, by decide, by decide⟩
  have hcall : ProcessSignal m ancient 0 (m.processCall ancient 0 0 0 []) := .returns 0 0 [] rfl
  have haccepted : Accepted m.signalConfig ancient 0 := validate_valid_iff.mp (by decide +kernel)
  exact (hno.refused (by decide) _ hcall).not_creates (hcall.creates_iff.mpr haccepted)

end Sample

end OrderExecution
