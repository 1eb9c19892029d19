import OrderExecution.Threads
import OrderExecution.Machine

/-!
# What the threads do to the coordinator

A stretch of code starts at most one thread (`stretch_starts` says when), and
every run of the threads without `reset()` is a run of the coordinator
(`run_arb`).
-/

namespace OrderExecution

open Machine

/-! ## What a stretch of code starts -/

/-- Whether its next stretch sends an order, without a lock. -/
def Worker.isSend : Worker → Bool
  | .unwindSend _ _ _ => true
  | _ => false

namespace ArbCoordinator

/-- Whether a job comes to start a thread before its next lock of `mutex_`. -/
def StartsThread (c : ArbCoordinator) (result : OrderResult) : Job → Prop
  | .addLeg s => c.pairs.lookup s.groupId = none
  | .dispatch (.sendCex _ cexGateway _ _ _) => cexGateway.isSome = true
  | .dispatch (.sendDex _ dexGateway _) => dexGateway.isSome = true
  | .dispatch (.startMonitor _) => True
  | .onFill exchangeOrderId _ _ isReject =>
    match c.findLeg exchangeOrderId with
    | some (_, p, isCex) =>
      isReject = true ∧ p.RejectUnwinds isCex ∧ c.hasGateway p.cexLeg.signal.exchange = true
    | none => False
  | .worker (.sendResult g isCex) =>
    match c.pairs.lookup g with
    | some p =>
      p.hasLeg isCex = true ∧ result.success = false ∧ p.RejectUnwinds isCex ∧
        c.hasGateway p.cexLeg.signal.exchange = true
    | none => False
  | .worker (.riskWindow g) =>
    match c.pairs.lookup g with
    | some p => p.status = .CEX_FILLED ∧ c.hasGateway p.cexLeg.signal.exchange = true
    | none => False
  | _ => False

/-- The code from `c` to `c'` starts one thread if `P`, else none, and makes the
calls `ds`. -/
def Adds (c c' : ArbCoordinator) (P : Prop) (ds : List DispatchCall) : Prop :=
  ∃ o : Option Worker, (o.isSome ↔ P) ∧ c'.workers = o.toList ++ c.workers ∧ c'.calls = ds ++ c.calls

def SameThreads (c c' : ArbCoordinator) : Prop := c'.workers = c.workers ∧ c'.calls = c.calls

section
variable {c c' : ArbCoordinator} {P : Prop} {ds : List DispatchCall} {g : CStr 15} {p : ArbPair} {b : Bool}

theorem SameThreads.adds (h : c.SameThreads c') (hP : ¬ P) : c.Adds c' P [] :=
  ⟨none, by simpa using hP, h⟩

theorem adds_one {w : Worker} (hw : c'.workers = w :: c.workers) (hd : c'.calls = ds ++ c.calls) (hP : P) :
    c.Adds c' P ds :=
  ⟨some w, by simpa using hP, hw, hd⟩

theorem Adds.imp {Q : Prop} (h : c.Adds c' P ds) (hPQ : P ↔ Q) : c.Adds c' Q ds := by
  obtain ⟨o, hP, hc⟩ := h
  exact ⟨o, hP.trans hPQ, hc⟩

theorem Adds.starts (h : c.Adds c' P ds) : (c.toStart c').isSome ↔ P := by
  obtain ⟨o, hP, hw, -⟩ := h
  unfold ArbCoordinator.toStart
  cases o with
  | none => simp [hw, ← hP]
  | some w => simp [hw, ← hP]

theorem Adds.workers (h : c.Adds c' P ds) : c'.workers = (c.toStart c').toList ++ c.workers := by
  obtain ⟨o, -, hw, -⟩ := h
  unfold ArbCoordinator.toStart
  cases o with
  | none => simp [hw]
  | some w => simp [hw]

theorem Adds.calls (h : c.Adds c' P ds) : c'.calls = ds ++ c.calls := by
  obtain ⟨o, -, -, hd⟩ := h
  exact hd

section
variable (c p b) (result : OrderResult) (now : Int)

theorem adds_startUnwind : c.Adds (c.startUnwind p now) (c.hasGateway p.cexLeg.signal.exchange = true) [] := by
  unfold startUnwind
  by_cases hg : c.hasGateway p.cexLeg.signal.exchange = true
  · rw [if_pos hg]; exact adds_one rfl rfl hg
  · rw [if_neg hg]; exact SameThreads.adds ⟨rfl, rfl⟩ hg

theorem sameThreads_handleLegReject (h : ¬ p.RejectUnwinds b) : c.SameThreads (c.handleLegReject p b now).1 := by
  cases b with
  | true =>
    simp only [handleLegReject, ite_true, ite_self]
    split <;> exact ⟨rfl, rfl⟩
  | false =>
    have hf : ¬ (p.hasCexLeg = true ∧ p.cexLeg.status = .FILLED) := fun hf => h ⟨rfl, hf⟩
    simp only [handleLegReject, Bool.false_eq_true, ite_false, if_neg hf]
    split <;> exact ⟨rfl, rfl⟩

theorem adds_handleLegReject : c.Adds (c.handleLegReject p b now).1
    (p.RejectUnwinds b ∧ c.hasGateway p.cexLeg.signal.exchange = true) [] := by
  by_cases hr : p.RejectUnwinds b
  · obtain ⟨rfl, hf⟩ := hr
    simp only [handleLegReject, Bool.false_eq_true, ite_false, if_pos hf]
    exact (adds_startUnwind c { p with status := .UNWINDING } now).imp ⟨fun h => ⟨⟨rfl, hf⟩, h⟩, fun h => h.2⟩
  · exact (sameThreads_handleLegReject c p b now hr).adds fun h => hr h.1

theorem adds_addLeg (s : Signal) : c.Adds (c.addLeg s now).1 (c.pairs.lookup s.groupId = none)
    (if (c.addedPair s now).bothLegsPresent then [.enter s.groupId] else []) := by
  rw [addLeg_fst]
  unfold addingTo
  cases hp : c.pairs.lookup s.groupId with
  | none =>
    simp only [Option.isNone_none, ite_true]
    split <;> exact adds_one rfl rfl trivial
  | some p =>
    simp only [Option.isNone_some, Bool.false_eq_true, ite_false]
    split <;> exact ⟨none, by simp, rfl, rfl⟩

theorem sameThreads_deadline (g : CStr 15) : c.SameThreads (c.deadline g) := by
  simp only [deadline]
  split
  · exact ⟨rfl, rfl⟩
  · split
    · split <;> split <;> exact ⟨rfl, rfl⟩
    · exact ⟨rfl, rfl⟩

theorem sameThreads_unwindResult (g : CStr 15) : c.SameThreads (c.unwindResult g result) := by
  simp only [unwindResult]
  split <;> exact ⟨rfl, rfl⟩

theorem adds_sendResult (g : CStr 15) :
    c.Adds (c.sendResult g b result now) (c.StartsThread result (.worker (.sendResult g b))) [] := by
  cases hp : c.pairs.lookup g with
  | none =>
    have hsame : c.SameThreads (c.sendResult g b result now) := by simp [sendResult, hp, SameThreads]
    exact hsame.adds (by simp [StartsThread, hp])
  | some p =>
    simp only [sendResult, StartsThread, hp]
    by_cases hl : p.hasLeg b = true
    · rw [if_pos hl]
      by_cases hs : result.success = true
      · rw [if_pos hs]
        exact SameThreads.adds ⟨rfl, rfl⟩ fun h => by simp [h.2.1] at hs
      · rw [if_neg hs]
        have h := adds_handleLegReject c (p.identified b result) b now
        have hsig : (p.identified b result).cexLeg.signal = p.cexLeg.signal := by cases b <;> rfl
        rw [rejectUnwinds_identified, hsig] at h
        exact h.imp (by simp [hl, hs])
    · rw [if_neg hl]
      exact SameThreads.adds ⟨rfl, rfl⟩ fun h => hl h.1

theorem adds_riskWindow (g : CStr 15) :
    c.Adds (c.riskWindow g now) (c.StartsThread result (.worker (.riskWindow g))) [] := by
  cases hp : c.pairs.lookup g with
  | none =>
    have hsame : c.SameThreads (c.riskWindow g now) := by simp [riskWindow, hp, SameThreads]
    exact hsame.adds (by simp [StartsThread, hp])
  | some p =>
    simp only [riskWindow, StartsThread, hp]
    by_cases hs : p.status = .CEX_FILLED
    · rw [if_pos hs]
      exact (adds_startUnwind (c.release p.dexLeg.signal)
        { p with status := .UNWINDING, dexLeg := { p.dexLeg with status := .TIMEOUT } } now).imp
        ⟨fun h => ⟨hs, h⟩, fun h => h.2⟩
    · rw [if_neg hs]
      split <;> exact SameThreads.adds ⟨rfl, rfl⟩ fun h => hs h.1

theorem adds_onFill (x : Bytes) (price qty : ℚ) (isReject : Bool) :
    c.Adds (c.onFill x price qty isReject now) (c.StartsThread result (.onFill x price qty isReject)) [] := by
  cases hf : c.findLeg x with
  | none =>
    have hsame : c.SameThreads (c.onFill x price qty isReject now) := by simp [onFill, hf, SameThreads]
    exact hsame.adds (by simp [StartsThread, hf])
  | some f =>
    simp only [onFill, StartsThread, hf]
    by_cases hr : isReject = true
    · rw [if_pos hr]
      exact (adds_handleLegReject c f.2.1 f.2.2 now).imp ⟨fun h => ⟨hr, h⟩, fun h => h.2⟩
    · rw [if_neg hr]
      refine SameThreads.adds ?_ fun h => hr h.1
      split
      · exact ⟨rfl, rfl⟩
      · split
        · simp only [finalizePair]
          split <;> exact ⟨rfl, rfl⟩
        · exact ⟨rfl, rfl⟩

theorem adds_advance (d : DispatchCall) : c.Adds (c.advance now d).1 (c.StartsThread result (.dispatch d)) [] := by
  cases d with
  | enter g =>
    refine SameThreads.adds ?_ id
    simp only [advance, dispatchEnter]
    split
    · exact ⟨rfl, rfl⟩
    · split
      · exact ⟨rfl, rfl⟩
      · split <;> exact ⟨rfl, rfl⟩
  | lookup g o₁ o₂ =>
    refine SameThreads.adds ?_ id
    simp only [advance]
    split <;> exact ⟨rfl, rfl⟩
  | sendCex g gw₁ gw₂ o₁ o₂ =>
    cases gw₁ with
    | none => exact SameThreads.adds ⟨rfl, rfl⟩ fun h => by cases h
    | some gw => exact adds_one rfl rfl rfl
  | sendDex g gw o =>
    cases gw with
    | none => exact SameThreads.adds ⟨rfl, rfl⟩ fun h => by cases h
    | some gw => exact adds_one rfl rfl rfl
  | startMonitor g => exact adds_one rfl rfl trivial

theorem adds_runWorker {w : Worker} (hw : w.isSend = false) :
    c.Adds (c.runWorker result now w) (c.StartsThread result (.worker w)) [] := by
  cases w with
  | deadline g => exact (sameThreads_deadline c g).adds id
  | sendResult g b => exact adds_sendResult c b result now g
  | riskWindow g => exact adds_riskWindow c result now g
  | unwindSend g gw o => cases hw
  | unwindResult g => exact (sameThreads_unwindResult c result g).adds id

theorem stretch_worker {w : Worker} (hw : w.isSend = false) : c.stretch result now (.worker w) =
    ((c.join w).runWorker result now w, (c.join w).toStart ((c.join w).runWorker result now w), none) := by
  cases w with
  | unwindSend g gw o => cases hw
  | _ => rfl

theorem stretch_starts (job : Job) : (c.stretch result now job).2.1.isSome ↔ c.StartsThread result job := by
  cases job with
  | addLeg s => exact (adds_addLeg c now s).starts
  | dispatch d => exact (adds_advance (c.dropCall d) result now d).starts
  | onFill x price qty isReject => exact (adds_onFill c result now x price qty isReject).starts
  | worker w =>
    cases hw : w.isSend with
    | true => cases w <;> simp [stretch, StartsThread, Worker.isSend] at hw ⊢
    | false =>
      rw [stretch_worker c result now hw]
      refine (adds_runWorker (c.join w) result now hw).starts.trans ?_
      cases w <;> exact Iff.rfl
  | getPair g | reset | clearPairs | destroy => simp [stretch, StartsThread]

end

instance (c : ArbCoordinator) (result : OrderResult) (job : Job) : Decidable (c.StartsThread result job) :=
  decidable_of_iff _ (c.stretch_starts result 0 job)

end

end ArbCoordinator

/-! ## The threads and the lists of the coordinator -/

def Job.workers : Job → List Worker
  | .worker w => [w]
  | _ => []

def Job.calls : Job → List DispatchCall
  | .dispatch d => [d]
  | _ => []

def Job.isReset : Job → Bool
  | .reset | .clearPairs => true
  | _ => false

namespace Place

/-- The workers that are still to run here, or to be started from here. -/
def workers : Place → List Worker
  | .ready job | .waitsMutex job => job.workers
  | .holdsMutex start next => start.toList ++ next.toList.flatMap Job.workers
  | .waitsThreads _ w next | .holdsThreads _ w next => w :: next.toList.flatMap Job.workers
  | _ => []

def calls : Place → List DispatchCall
  | .ready job | .waitsMutex job => job.calls
  | .holdsMutex _ next | .waitsThreads _ _ next | .holdsThreads _ _ next => next.toList.flatMap Job.calls
  | _ => []

def resets : Place → Bool
  | .ready job | .waitsMutex job => job.isReset
  | .holdsMutex _ next | .waitsThreads _ _ next | .holdsThreads _ _ next => next.any Job.isReset
  | .waitsJoin isReset | .joining isReset _ => isReset
  | .done => false

@[simp] theorem workers_after (next : Option Job) : (after next).workers = next.toList.flatMap Job.workers := by
  cases next <;> simp [after, workers]

@[simp] theorem calls_after (next : Option Job) : (after next).calls = next.toList.flatMap Job.calls := by
  cases next <;> simp [after, calls]

@[simp] theorem resets_after (next : Option Job) : (after next).resets = next.any Job.isReset := by
  cases next <;> rfl

end Place

namespace ArbCoordinator

variable (c : ArbCoordinator) (result : OrderResult) (now : Int)

theorem stretch_workers (job : Job) (hw : ∀ w ∈ job.workers, w ∈ c.workers) :
    (job.workers ++ (c.stretch result now job).1.workers).Perm
      ((c.stretch result now job).2.1.toList ++ (c.stretch result now job).2.2.toList.flatMap Job.workers ++
        c.workers) := by
  cases job with
  | addLeg s =>
    have h := (adds_addLeg c now s).workers
    have hnext : ((c.stretch result now (.addLeg s)).2.2.toList.flatMap Job.workers) = [] := by
      simp only [stretch]
      cases (((c.addLeg s now).1.pairs.lookup s.groupId).filter (·.bothLegsPresent)) <;> rfl
    rw [hnext, List.append_nil]
    exact .of_eq h
  | dispatch d =>
    have h := (adds_advance (c.dropCall d) result now d).workers
    have hnext : ((c.stretch result now (.dispatch d)).2.2.toList.flatMap Job.workers) = [] := by
      simp only [stretch]
      cases ((c.dropCall d).advance now d).2 <;> rfl
    rw [hnext, List.append_nil]
    exact .of_eq h
  | onFill x price qty isReject =>
    have h := (adds_onFill c result now x price qty isReject).workers
    exact .of_eq (h.trans (by simp [stretch]))
  | worker w =>
    have hmem : w ∈ c.workers := hw w (List.mem_singleton.mpr rfl)
    cases hsend : w.isSend with
    | true =>
      cases w with
      | unwindSend g gw o =>
        exact (List.Perm.swap _ _ _).trans ((List.perm_cons_erase hmem).symm.cons _)
      | _ => cases hsend
    | false =>
      have h := (adds_runWorker (c.join w) result now hsend).workers
      rw [stretch_worker c result now hsend, h]
      simp only [Job.workers, Option.toList_none, List.flatMap_nil, List.append_nil, List.singleton_append]
      exact List.perm_middle.symm.trans ((List.perm_cons_erase hmem).symm.append_left _)
  | getPair g | reset | clearPairs | destroy => exact .refl _

theorem stretch_calls (job : Job) (hd : ∀ d ∈ job.calls, d ∈ c.calls) :
    (job.calls ++ (c.stretch result now job).1.calls).Perm
      ((c.stretch result now job).2.2.toList.flatMap Job.calls ++ c.calls) := by
  cases job with
  | addLeg s =>
    have h := (adds_addLeg c now s).calls
    have hpair : (c.addLeg s now).1.pairs.lookup s.groupId = some (c.addedPair s now) := by
      rw [addLeg_fst]
      split <;> exact AList.lookup_insert _
    have hnext : ((c.stretch result now (.addLeg s)).2.2.toList.flatMap Job.calls) =
        if (c.addedPair s now).bothLegsPresent then [.enter s.groupId] else [] := by
      simp only [stretch, hpair, Option.filter_some]
      split <;> simp_all [Job.calls]
    rw [hnext]
    exact .of_eq h
  | dispatch d =>
    have h := (adds_advance (c.dropCall d) result now d).calls
    have hmem : d ∈ c.calls := hd d (List.mem_singleton.mpr rfl)
    have hnext : ((c.stretch result now (.dispatch d)).2.2.toList.flatMap Job.calls) =
        ((c.dropCall d).advance now d).2.toList := by
      simp only [stretch]
      cases ((c.dropCall d).advance now d).2 <;> rfl
    rw [hnext]
    have hafter : (c.stretch result now (.dispatch d)).1.calls =
        ((c.dropCall d).advance now d).2.toList ++ c.calls.erase d := congrArg (_ ++ ·) h
    rw [hafter]
    simp only [Job.calls, List.singleton_append]
    exact List.perm_middle.symm.trans ((List.perm_cons_erase hmem).symm.append_left _)
  | onFill x price qty isReject =>
    have h := (adds_onFill c result now x price qty isReject).calls
    exact .of_eq h
  | worker w =>
    cases hsend : w.isSend with
    | true =>
      cases w with
      | unwindSend g gw o => exact .refl _
      | _ => cases hsend
    | false =>
      have h := (adds_runWorker (c.join w) result now hsend).calls
      rw [stretch_worker c result now hsend]
      exact .of_eq h
  | getPair g | reset | clearPairs | destroy => exact .refl _

end ArbCoordinator

namespace Threads

/-- The coordinator's lists are what its threads are still to do. -/
structure Listed (s : Threads) : Prop where
  workers : (s.places.flatMap Place.workers).Perm s.arb.workers
  calls : (s.places.flatMap Place.calls).Perm s.arb.calls

section
variable {s s' : Threads} {t : Nat} {m : Move} {p : Place} {e : ThreadEvent} {result : OrderResult} {now : Int}

variable {α : Type} [DecidableEq α] {f : Place → List α}

theorem count_put (hp : s.places[t]? = some p) (a : α) :
    ((s.put t m).places.flatMap f).count a + (f p).count a =
      (s.places.flatMap f).count a + (f m.place).count a +
        ((m.emplaced.map fun w => Place.ready (.worker w)).toList.flatMap f).count a := by
  obtain ⟨hlt, hpt⟩ := List.getElem?_eq_some_iff.mp hp
  have hsplit : s.places = s.places.take t ++ p :: s.places.drop (t + 1) := by
    rw [← hpt, List.getElem_cons_drop, List.take_append_drop]
  have hset : s.places.set t m.place = s.places.take t ++ m.place :: s.places.drop (t + 1) :=
    List.set_eq_take_append_cons_drop.trans (if_pos hlt)
  have hold := congrArg (fun l => (l.flatMap f).count a) hsplit
  unfold put
  rw [hset]
  simp only [List.flatMap_append, List.flatMap_cons, List.count_append] at hold ⊢
  omega

theorem perm_put {l l' : List α} (h : (s.places.flatMap f).Perm l) (hp : s.places[t]? = some p)
    (hm : (f p ++ l').Perm
      (f m.place ++ (m.emplaced.map fun w => Place.ready (.worker w)).toList.flatMap f ++ l)) :
    ((s.put t m).places.flatMap f).Perm l' := by
  rw [List.perm_iff_count]
  intro a
  have hput := count_put (m := m) (f := f) hp a
  have hl := List.perm_iff_count.mp h a
  have hreplaced := List.perm_iff_count.mp hm a
  simp only [List.count_append] at hreplaced
  omega

omit [DecidableEq α] in
theorem mem_of_place (hp : s.places[t]? = some p) {l : List α} (h : (s.places.flatMap f).Perm l) {a : α}
    (ha : a ∈ f p) : a ∈ l :=
  h.mem_iff.mp (List.mem_flatMap.mpr ⟨p, List.mem_of_getElem? hp, ha⟩)

theorem Moves.workers (h : s.Moves result now p m) (hw : ∀ w ∈ p.workers, w ∈ s.arb.workers) :
    (p.workers ++ m.arb.workers).Perm (m.place.workers ++
      (m.emplaced.map fun w => Place.ready (.worker w)).toList.flatMap Place.workers ++ s.arb.workers) := by
  cases h with
  | asksJoin hj => obtain ⟨rfl, -⟩ | ⟨rfl, -⟩ := hj <;> exact .refl _
  | @runs job c next _ hs =>
    have hstretch := s.arb.stretch_workers result now job hw
    rw [hs] at hstretch
    rw [Place.workers_after]
    simpa [Place.workers] using hstretch
  | @asksThreads job c w next _ hs | @enters job c start next _ hs =>
    have hstretch := s.arb.stretch_workers result now job hw
    rw [hs] at hstretch
    simpa [Place.workers] using hstretch
  | leaves =>
    rw [Place.workers_after]
    simp [Place.workers]
  | @starts w next =>
    rw [Place.workers_after]
    simpa [Place.workers, Job.workers] using List.perm_middle.symm
  | @startsUnderMutex w next => simpa [Place.workers, Job.workers] using List.perm_middle.symm
  | _ => simp [Place.workers, Job.workers]

theorem Moves.calls (h : s.Moves result now p m) (hd : ∀ d ∈ p.calls, d ∈ s.arb.calls) :
    (p.calls ++ m.arb.calls).Perm (m.place.calls ++
      (m.emplaced.map fun w => Place.ready (.worker w)).toList.flatMap Place.calls ++ s.arb.calls) := by
  cases h with
  | asksJoin hj => obtain ⟨rfl, -⟩ | ⟨rfl, -⟩ := hj <;> exact .refl _
  | @runs job c next _ hs =>
    have hstretch := s.arb.stretch_calls result now job hd
    rw [hs] at hstretch
    rw [Place.calls_after]
    simpa [Place.calls] using hstretch
  | @asksThreads job c w next _ hs | @enters job c start next _ hs =>
    have hstretch := s.arb.stretch_calls result now job hd
    rw [hs] at hstretch
    simpa [Place.calls] using hstretch
  | leaves | starts =>
    rw [Place.calls_after]
    simp [Place.calls, Job.calls]
  | _ => simp [Place.calls, Job.calls]

theorem Listed.step (h : s.Listed) (hs : s.step e = some s') : s'.Listed := by
  cases e with
  | call job =>
    simp only [Threads.step] at hs
    split at hs <;> cases hs
    next hj =>
      have hnone : job.workers = [] ∧ job.calls = [] := by
        cases job with
        | dispatch _ | worker _ => cases hj
        | _ => exact ⟨rfl, rfl⟩
      constructor
      · simpa [Place.workers, hnone.1] using h.workers
      · simpa [Place.calls, hnone.2] using h.calls
  | go t result now =>
    obtain ⟨p, m, hp, hm, rfl⟩ := step_go hs
    exact ⟨perm_put h.workers hp (hm.workers fun w => mem_of_place hp h.workers),
      perm_put h.calls hp (hm.calls fun d => mem_of_place hp h.calls)⟩
  | guard op => cases hs; exact ⟨h.workers, h.calls⟩
  | drawOrderId => cases hs; exact ⟨h.workers, h.calls⟩

theorem listed_init (config : ArbConfig) (portfolio : PortfolioGuard) (hasGateway : Exchange → Bool) :
    (init config portfolio hasGateway).Listed := ⟨.refl _, .refl _⟩

/-! ## Steps of the threads are steps of the coordinator -/

theorem stretch_step (result : OrderResult) (now : Int) {c : ArbCoordinator} {job : Job} (hw : ∀ w ∈ job.workers, w ∈ c.workers)
    (hd : ∀ d ∈ job.calls, d ∈ c.calls) (hj : job ≠ .clearPairs) :
    (c.stretch result now job).1 = c ∨ ∃ e, c.step e = some (c.stretch result now job).1 := by
  cases job with
  | addLeg s => exact .inr ⟨.addLeg s now, rfl⟩
  | dispatch d => exact .inr ⟨.dispatch d now, if_pos (hd d (List.mem_singleton.mpr rfl))⟩
  | onFill x price qty isReject => exact .inr ⟨.onFill x price qty isReject now, rfl⟩
  | worker w =>
    have hmem : w ∈ c.workers := hw w (List.mem_singleton.mpr rfl)
    refine .inr ⟨.worker w result now, (if_pos hmem).trans ?_⟩
    cases w <;> rfl
  | clearPairs => exact absurd rfl hj
  | getPair g | reset | destroy => exact .inl rfl

theorem stretch_noReset (c : ArbCoordinator) (result : OrderResult) (now : Int) (job : Job) :
    (c.stretch result now job).2.2.any Job.isReset = false := by
  cases job with
  | addLeg s =>
    simp only [ArbCoordinator.stretch]
    cases (((c.addLeg s now).1.pairs.lookup s.groupId).filter (·.bothLegsPresent)) <;> rfl
  | dispatch d =>
    simp only [ArbCoordinator.stretch]
    cases ((c.dropCall d).advance now d).2 <;> rfl
  | worker w => cases w <;> rfl
  | _ => rfl

theorem Moves.noReset (h : s.Moves result now p m) (hp : p.resets = false) : m.place.resets = false := by
  cases h with
  | asksJoin hj =>
    obtain ⟨rfl, -⟩ | ⟨rfl, rfl⟩ := hj
    · cases hp
    · rfl
  | @runs job c next _ hs =>
    have hnext := stretch_noReset s.arb result now job
    rw [hs] at hnext
    rw [Place.resets_after]
    exact hnext
  | @asksThreads job c w next _ hs | @enters job c start next _ hs =>
    have hnext := stretch_noReset s.arb result now job
    rw [hs] at hnext
    exact hnext
  | leaves | starts => rw [Place.resets_after]; exact hp
  | clears => cases hp
  | ends => rfl
  | _ => exact hp

theorem Moves.arb (h : s.Moves result now p m) (hw : ∀ w ∈ p.workers, w ∈ s.arb.workers)
    (hd : ∀ d ∈ p.calls, d ∈ s.arb.calls) (hr : p.resets = false) :
    m.arb = s.arb ∨ ∃ e, s.arb.step e = some m.arb := by
  have key : ∀ {job c start next}, s.arb.stretch result now job = (c, start, next) → job.isReset = false →
      (∀ w ∈ job.workers, w ∈ s.arb.workers) → (∀ d ∈ job.calls, d ∈ s.arb.calls) →
      c = s.arb ∨ ∃ e, s.arb.step e = some c := by
    intro job c start next hs hj hw hd
    have hne : job ≠ .clearPairs := by
      rintro rfl
      cases hj
    have hstep := stretch_step result now hw hd hne
    rwa [hs] at hstep
  cases h with
  | runs _ hs | asksThreads _ hs | enters _ hs => exact key hs hr hw hd
  | _ => exact .inl rfl

/-- No call of `reset()` is under way. -/
structure Plain (s : Threads) : Prop where
  listed : s.Listed
  noReset : ∀ p ∈ s.places, p.resets = false

theorem Plain.step (h : s.Plain) (hne : e ≠ .call .reset) (hs : s.step e = some s') : s'.Plain := by
  refine ⟨h.listed.step hs, fun q hq => ?_⟩
  cases e with
  | call job =>
    simp only [Threads.step] at hs
    split at hs <;> cases hs
    next hj =>
      obtain hq | hq := List.mem_append.mp hq
      · exact h.noReset q hq
      · rw [List.mem_singleton.mp hq]
        cases job with
        | reset => exact absurd rfl hne
        | clearPairs => cases hj
        | _ => rfl
  | go t result now =>
    obtain ⟨p, m, hp, hm, rfl⟩ := step_go hs
    obtain ⟨j, hj⟩ := List.mem_iff_getElem?.mp hq
    obtain ⟨-, rfl⟩ | ⟨-, hold⟩ | ⟨-, w, -, rfl⟩ := places_put hj
    · exact hm.noReset (h.noReset p (List.mem_of_getElem? hp))
    · exact h.noReset q (List.mem_of_getElem? hold)
    · rfl
  | guard op => cases hs; exact h.noReset q hq
  | drawOrderId => cases hs; exact h.noReset q hq

theorem Plain.arb_step (h : s.Plain) (hs : s.step e = some s') :
    ∃ es, run ArbCoordinator.step s.arb es = some s'.arb := by
  cases e with
  | call job =>
    simp only [Threads.step] at hs
    split at hs <;> cases hs
    exact ⟨[], rfl⟩
  | go t result now =>
    obtain ⟨p, m, hp, hm, rfl⟩ := step_go hs
    obtain hsame | ⟨e, he⟩ := hm.arb (fun w => mem_of_place hp h.listed.workers)
      (fun d => mem_of_place hp h.listed.calls) (h.noReset p (List.mem_of_getElem? hp))
    · exact ⟨[], congrArg some hsame.symm⟩
    · exact ⟨[e], run_one he⟩
  | guard op => cases hs; exact ⟨[.portfolio op], rfl⟩
  | drawOrderId => cases hs; exact ⟨[.drawOrderId], rfl⟩

end

/-- A run of the threads without `reset()` leaves the coordinator where one of
its own runs does. -/
theorem run_arb (config : ArbConfig) (portfolio : PortfolioGuard) (hasGateway : Exchange → Bool)
    {es : List ThreadEvent} (hes : ∀ e ∈ es, e ≠ .call .reset) {s : Threads}
    (hr : run Threads.step (init config portfolio hasGateway) es = some s) :
    ∃ es', run ArbCoordinator.step (.init config portfolio hasGateway) es' = some s.arb := by
  have hinit : (init config portfolio hasGateway).Plain := ⟨listed_init _ _ _, fun p hp => by simp [init] at hp⟩
  have halong : Along Threads.step (fun _ e => e ≠ .call .reset) (init config portfolio hasGateway) es :=
    along_of_mem (fun e he _ => hes e he) _
  exact run_simulated (I := Plain) (f := Threads.arb)
    (fun _ _ _ h hne hs => ⟨h.step hne hs, h.arb_step hs⟩) halong hinit hr

end Threads

end OrderExecution
