import OrderExecution.ThreadSteps

/-!
# Shutdown

`~ArbCoordinator` and `reset()` join every worker while they hold
`threads_mutex_`. A worker that waits for `threads_mutex_`, or for a `mutex_`
whose holder waits for it, never ends then, and neither does the shutdown.
-/

namespace OrderExecution

open Machine

/-! ## Deadlock -/

namespace Place

/-- It holds `mutex_` and goes on to `threads_mutex_`. -/
def starting : Place → Bool
  | .holdsMutex (some _) _ | .waitsThreads true _ _ => true
  | _ => false

/-- A place where a worker can be. -/
def isWorker : Place → Bool
  | .ready job | .waitsMutex job => job.isWorker
  | .holdsMutex _ next | .waitsThreads true _ next | .holdsThreads true _ next => next.all Job.isWorker
  | .done => true
  | _ => false

section
variable (next : Option Job)

@[simp] theorem hasMutex_after : (after next).hasMutex = false := by cases next <;> rfl
@[simp] theorem hasThreads_after : (after next).hasThreads = false := by cases next <;> rfl
@[simp] theorem toJoin_after : (after next).toJoin = [] := by cases next <;> rfl
@[simp] theorem starting_after : (after next).starting = false := by cases next <;> rfl
@[simp] theorem isWorker_after : (after next).isWorker = next.all Job.isWorker := by cases next <;> rfl

end

end Place

namespace Threads

/-- It waits for `threads_mutex_`, or for a `mutex_` whose holder does. -/
def Blocked (s : Threads) (t : Nat) : Prop :=
  ∃ p : Place, s.places[t]? = some p ∧
    (p.wantsThreads = true ∨ p.wantsMutex = true ∧
      ∃ (h : Nat) (q : Place), s.places[h]? = some q ∧ q.hasMutex = true ∧ q.wantsThreads = true)

/-- A shutdown holds `threads_mutex_` and joins a thread that needs it. -/
def Deadlocked (s : Threads) : Prop :=
  ∃ (t i : Nat) (isReset : Bool) (rest : List Nat),
    s.places[t]? = some (.joining isReset (i :: rest)) ∧ s.Blocked i

def Running (s : Threads) (l : List Nat) : Prop := ∃ i ∈ l, s.isDone i = false

/-- The step of a thread at this place does not bring together a thread that
holds `mutex_` and goes for `threads_mutex_` and a shutdown that holds that and
has a running thread to join. -/
def KeepsApart (s : Threads) (result : OrderResult) : Place → Prop
  | .waitsMutex job => s.arb.StartsThread result job → ∀ p ∈ s.places, ¬ s.Running p.toJoin
  | .waitsJoin _ => s.Running s.workerThreads → ∀ p ∈ s.places, p.starting = false
  | _ => True

def Apart (s : Threads) : ThreadEvent → Prop
  | .go t result _ => ∀ p ∈ s.places[t]?, s.KeepsApart result p
  | _ => True

instance (s : Threads) (l : List Nat) : Decidable (s.Running l) :=
  inferInstanceAs (Decidable (∃ i ∈ l, s.isDone i = false))

instance (s : Threads) (result : OrderResult) : ∀ p, Decidable (s.KeepsApart result p)
  | .waitsMutex job =>
    inferInstanceAs (Decidable (s.arb.StartsThread result job → ∀ p ∈ s.places, ¬ s.Running p.toJoin))
  | .waitsJoin _ =>
    inferInstanceAs (Decidable (s.Running s.workerThreads → ∀ p ∈ s.places, p.starting = false))
  | .ready _ | .holdsMutex _ _ | .waitsThreads _ _ _ | .holdsThreads _ _ _ | .joining _ _ | .done => isTrue trivial

instance (s : Threads) : ∀ e, Decidable (s.Apart e)
  | .go t result _ => inferInstanceAs (Decidable (∀ p ∈ s.places[t]?, s.KeepsApart result p))
  | .call _ | .guard _ | .drawOrderId => isTrue trivial

section
variable {s s' : Threads} {t i j : Nat} {m : Move} {p q : Place} {e : ThreadEvent} {result : OrderResult}
  {now : Int} {l : List Nat}

@[simp] theorem isDone_iff : s.isDone i = true ↔ s.places[i]? = some .done := by simp [isDone]

theorem isDone_eq_false (h : s.places[i]? = some p) : s.isDone i = false ↔ p ≠ .done := by
  simp [isDone, h]

/-! ## What every step keeps -/

def OneHolder (has : Place → Bool) (s : Threads) : Prop :=
  ∀ (i j : Nat) (p q : Place), s.places[i]? = some p → s.places[j]? = some q →
    has p = true → has q = true → i = j

/-- The thread is there, and at a place of a worker. -/
def IsWorkerAt (s : Threads) (i : Nat) : Prop := ∃ p, s.places[i]? = some p ∧ p.isWorker = true

structure Sound (s : Threads) : Prop where
  workers : ∀ i ∈ s.workerThreads, s.IsWorkerAt i
  joined : ∀ (t : Nat) (p : Place), s.places[t]? = some p → ∀ i ∈ p.toJoin, s.IsWorkerAt i
  oneMutex : s.OneHolder Place.hasMutex
  oneThreads : s.OneHolder Place.hasThreads

theorem Moves.hasMutex (h : s.Moves result now p m) (hm : m.place.hasMutex = true) :
    p.hasMutex = true ∨ s.mutexFree = true := by
  cases h with
  | enters hf _ => exact .inr hf
  | asksUnderMutex | startsUnderMutex => exact .inl rfl
  | takesThreads _ => exact .inl hm
  | runs _ _ | leaves | starts => simp at hm
  | _ => simp [Place.hasMutex] at hm

theorem Moves.hasThreads (h : s.Moves result now p m) (hm : m.place.hasThreads = true) :
    p.hasThreads = true ∨ s.threadsFree = true := by
  cases h with
  | takesThreads hf | beginsJoin hf => exact .inr hf
  | joins _ => exact .inl rfl
  | runs _ _ | leaves | starts => simp at hm
  | _ => simp [Place.hasThreads] at hm

theorem isWorker_stretch (c : ArbCoordinator) (result : OrderResult) (now : Int) {job : Job} (h : job.isWorker = true) :
    (c.stretch result now job).2.2.all Job.isWorker = true := by
  cases job with
  | worker w => cases w <;> rfl
  | _ => cases h

theorem Moves.isWorker (h : s.Moves result now p m) (hp : p.isWorker = true) : m.place.isWorker = true := by
  cases h with
  | asksJoin h =>
    obtain ⟨rfl, -⟩ | ⟨rfl, -⟩ := h <;> cases hp
  | runs _ hs =>
    have := isWorker_stretch s.arb result now hp
    rw [hs] at this
    simpa using this
  | @asksThreads job c w next hj hs =>
    cases job with
    | worker w' => cases w' <;> simp [ArbCoordinator.stretch, Job.takesMutex] at hs hj
    | _ => cases hp
  | enters _ hs =>
    have := isWorker_stretch s.arb result now hp
    rw [hs] at this
    exact this
  | leaves => rw [Place.isWorker_after]; exact hp
  | @takesThreads underMutex _ _ _ =>
    cases underMutex with
    | true => exact hp
    | false => cases hp
  | asksMutex _ | asksUnderMutex | startsUnderMutex => exact hp
  | ends => rfl
  | _ => cases hp

theorem Moves.toJoin (h : s.Moves result now p m) :
    m.place.toJoin ⊆ p.toJoin ∨ (∃ isReset, p = .waitsJoin isReset) ∧ m.place.toJoin = s.workerThreads := by
  cases h with
  | beginsJoin _ => exact .inr ⟨⟨_, rfl⟩, rfl⟩
  | joins _ => exact .inl (List.subset_cons_self ..)
  | runs _ _ | leaves | starts => simp
  | _ => exact .inl (List.nil_subset _)

theorem Moves.starting (h : s.Moves result now p m) (hm : m.place.starting = true) :
    p.starting = true ∨ ∃ job, p = .waitsMutex job ∧ s.arb.StartsThread result job := by
  cases h with
  | @enters job c start next _ hs =>
    refine .inr ⟨job, rfl, (ArbCoordinator.stretch_starts s.arb result now job).mp ?_⟩
    rw [hs]
    cases start with
    | none => cases hm
    | some w => rfl
  | asksUnderMutex => exact .inl rfl
  | runs _ _ | leaves | starts => simp at hm
  | _ => cases hm

theorem Moves.ne_done (h : s.Moves result now p m) : p ≠ .done := by
  rintro rfl
  cases h

theorem starting_eq_false (h : p.toJoin ≠ []) : p.starting = false := by
  cases p with
  | joining _ _ => rfl
  | _ => exact absurd rfl h

theorem of_mutexFree (h : s.mutexFree = true) (hq : s.places[j]? = some q) : q.hasMutex = false := by
  simpa using List.all_eq_true.mp h q (List.mem_of_getElem? hq)

theorem of_threadsFree (h : s.threadsFree = true) (hq : s.places[j]? = some q) : q.hasThreads = false := by
  simpa using List.all_eq_true.mp h q (List.mem_of_getElem? hq)

theorem OneHolder.put {has : Place → Bool} (h : s.OneHolder has) (hp : s.places[t]? = some p)
    (hm : has m.place = true → has p = true ∨ ∀ (j : Nat) (q : Place), s.places[j]? = some q → has q = false)
    (hready : ∀ job, has (.ready job) = false) : (s.put t m).OneHolder has := by
  intro i j q₁ q₂ h₁ h₂ hq₁ hq₂
  have key : ∀ (k : Nat) (q : Place), (s.put t m).places[k]? = some q → has q = true →
      k = t ∧ has m.place = true ∨ k ≠ t ∧ s.places[k]? = some q := by
    intro k q hk hq
    obtain ⟨rfl, rfl⟩ | hold | ⟨-, w, -, rfl⟩ := places_put hk
    · exact .inl ⟨rfl, hq⟩
    · exact .inr hold
    · simp [hready] at hq
  have other : ∀ (k : Nat) (q : Place), s.places[k]? = some q → has q = true → k ≠ t →
      has m.place = true → False := by
    intro k q hk hq hne hmp
    obtain hhp | hfree := hm hmp
    · exact hne (h k t q p hk hp hq hhp)
    · simp [hfree k q hk] at hq
  obtain ⟨rfl, hmp⟩ | ⟨hne₁, hk₁⟩ := key i q₁ h₁ hq₁
  · obtain ⟨rfl, -⟩ | ⟨hne₂, hk₂⟩ := key j q₂ h₂ hq₂
    · rfl
    · exact (other j q₂ hk₂ hq₂ hne₂ hmp).elim
  · obtain ⟨rfl, hmp⟩ | ⟨-, hk₂⟩ := key j q₂ h₂ hq₂
    · exact (other i q₁ hk₁ hq₁ hne₁ hmp).elim
    · exact h i j q₁ q₂ hk₁ hk₂ hq₁ hq₂

theorem IsWorkerAt.put (h : s.IsWorkerAt i) (hp : s.places[t]? = some p) (hm : s.Moves result now p m) :
    (s.put t m).IsWorkerAt i := by
  obtain ⟨q, hq, hw⟩ := h
  by_cases hi : i = t
  · subst hi
    rw [hp, Option.some.injEq] at hq
    subst hq
    obtain ⟨hlt, -⟩ := List.getElem?_eq_some_iff.mp hp
    exact ⟨m.place, places_put_self hlt, hm.isWorker hw⟩
  · exact ⟨q, places_put_of_ne hi hq, hw⟩

theorem isWorkerAt_emplaced {w : Worker} (hw : m.emplaced = some w) :
    (s.put t m).IsWorkerAt s.places.length := by
  refine ⟨.ready (.worker w), ?_, rfl⟩
  unfold Threads.put
  rw [List.getElem?_append_right (by simp), hw]
  simp

theorem Sound.put (hs : s.Sound) (hp : s.places[t]? = some p) (hm : s.Moves result now p m) :
    (s.put t m).Sound where
  workers i hi := by
    unfold Threads.put at hi
    obtain hi | hi := List.mem_append.mp hi
    · have : i ∈ s.workerThreads := by
        split at hi
        · cases hi
        · exact hi
      exact (hs.workers i this).put hp hm
    · cases hw : m.emplaced with
      | none => simp [hw] at hi
      | some w =>
        simp only [hw, Option.map_some, Option.toList_some, List.mem_singleton] at hi
        exact hi ▸ isWorkerAt_emplaced hw
  joined t' q hq i hi := by
    refine IsWorkerAt.put ?_ hp hm
    obtain ⟨rfl, rfl⟩ | ⟨-, hold⟩ | ⟨-, w, -, rfl⟩ := places_put hq
    · obtain hsub | ⟨-, heq⟩ := hm.toJoin
      · exact hs.joined t' p hp i (hsub hi)
      · exact hs.workers i (heq ▸ hi)
    · exact hs.joined t' q hold i hi
    · cases hi
  oneMutex := hs.oneMutex.put hp (fun h => (hm.hasMutex h).imp id fun hf _ _ => of_mutexFree hf) fun _ => rfl
  oneThreads := hs.oneThreads.put hp (fun h => (hm.hasThreads h).imp id fun hf _ _ => of_threadsFree hf) fun _ => rfl

theorem places_call {job : Job} (h : (s.places ++ [.ready job])[j]? = some q) :
    s.places[j]? = some q ∨ q = .ready job := by
  by_cases hlt : j < s.places.length
  · rw [List.getElem?_append_left hlt] at h
    exact .inl h
  · rw [List.getElem?_append_right (by omega), List.getElem?_singleton] at h
    split at h <;> cases h
    exact .inr rfl

theorem Sound.call (hs : s.Sound) (job : Job) :
    Sound { s with places := s.places ++ [.ready job] } := by
  have worker : ∀ i, s.IsWorkerAt i → IsWorkerAt { s with places := s.places ++ [.ready job] } i := by
    rintro i ⟨q, hq, hw⟩
    obtain ⟨hlt, -⟩ := List.getElem?_eq_some_iff.mp hq
    exact ⟨q, by rw [List.getElem?_append_left hlt, hq], hw⟩
  have one : ∀ has : Place → Bool, has (.ready job) = false → s.OneHolder has →
      OneHolder has { s with places := s.places ++ [.ready job] } := by
    intro has hready h i j q₁ q₂ h₁ h₂ hq₁ hq₂
    obtain h₁ | rfl := places_call h₁
    · obtain h₂ | rfl := places_call h₂
      · exact h i j q₁ q₂ h₁ h₂ hq₁ hq₂
      · simp [hready] at hq₂
    · simp [hready] at hq₁
  exact {
    workers i hi := worker i (hs.workers i hi)
    joined t q hq i hi := by
      obtain hq | rfl := places_call hq
      · exact worker i (hs.joined t q hq i hi)
      · cases hi
    oneMutex := one _ rfl hs.oneMutex
    oneThreads := one _ rfl hs.oneThreads }

theorem Sound.step (hs : s.Sound) (h : s.step e = some s') : s'.Sound := by
  cases e with
  | call job =>
    simp only [Threads.step] at h
    split at h <;> cases h
    exact hs.call job
  | go t result now =>
    obtain ⟨p, m, hp, hm, rfl⟩ := step_go h
    exact hs.put hp hm
  | guard op => cases h; exact ⟨hs.workers, hs.joined, hs.oneMutex, hs.oneThreads⟩
  | drawOrderId => cases h; exact ⟨hs.workers, hs.joined, hs.oneMutex, hs.oneThreads⟩

theorem sound_init (config : ArbConfig) (portfolio : PortfolioGuard) (hasGateway : Exchange → Bool) :
    (init config portfolio hasGateway).Sound where
  workers := nofun
  joined t p hp := by simp [init] at hp
  oneMutex i j p q hp := by simp [init] at hp
  oneThreads i j p q hp := by simp [init] at hp

theorem isDone_step (h : s.step e = some s') (hi : s.isDone i = true) : s'.isDone i = true := by
  rw [isDone_iff] at hi ⊢
  apply places_step h hi
  rintro result now rfl
  obtain ⟨p, m, hp, hm, -⟩ := step_go h
  rw [hi, Option.some.injEq] at hp
  exact hm.ne_done hp.symm

theorem Running.before (h : s.step e = some s') (hr : s'.Running l) : s.Running l := by
  obtain ⟨i, hi, hd⟩ := hr
  refine ⟨i, hi, ?_⟩
  by_contra hne
  rw [Bool.not_eq_false] at hne
  rw [isDone_step h hne] at hd
  cases hd

theorem Running.toJoin_ne_nil (h : s.Running l) : l ≠ [] := by
  obtain ⟨i, hi, -⟩ := h
  exact List.ne_nil_of_mem hi

theorem Running.mono {l' : List Nat} (h : s.Running l) (hl : l ⊆ l') : s.Running l' := by
  obtain ⟨i, hi, hd⟩ := h
  exact ⟨i, hl hi, hd⟩

/-! ## Steps that keep apart -/

/-- A shutdown with a running thread to join, and a thread that holds `mutex_`
and goes for `threads_mutex_`. -/
def Together (s : Threads) : Prop :=
  ∃ (t h : Nat) (p q : Place), s.places[t]? = some p ∧ s.Running p.toJoin ∧
    s.places[h]? = some q ∧ q.starting = true

theorem Running.put (h : s.Running l) (hm : m.place ≠ .done) : (s.put t m).Running l := by
  obtain ⟨i, hi, hd⟩ := h
  refine ⟨i, hi, ?_⟩
  by_contra hne
  rw [Bool.not_eq_false, isDone_iff] at hne
  obtain ⟨-, heq⟩ | ⟨-, hold⟩ | ⟨-, w, -, heq⟩ := places_put hne
  · exact hm heq.symm
  · rw [isDone_iff.mpr hold] at hd
    cases hd
  · cases heq

theorem Together.before (hs : s.step e = some s') (ha : s.Apart e) (h : s'.Together) : s.Together := by
  obtain ⟨t₁, t₂, p₁, p₂, hp₁, hr, hp₂, hst⟩ := h
  have hr' := hr.before hs
  cases e with
  | call job =>
    simp only [Threads.step] at hs
    split at hs <;> cases hs
    obtain hp₁ | rfl := places_call hp₁
    · obtain hp₂ | rfl := places_call hp₂
      · exact ⟨t₁, t₂, p₁, p₂, hp₁, hr', hp₂, hst⟩
      · cases hst
    · exact (hr.toJoin_ne_nil rfl).elim
  | go t result now =>
    obtain ⟨p, m, hp, hm, rfl⟩ := step_go hs
    have hk : s.KeepsApart result p := ha p hp
    obtain ⟨rfl, rfl⟩ | ⟨-, hold₁⟩ | ⟨-, w, -, rfl⟩ := places_put hp₁
    · obtain ⟨-, rfl⟩ | ⟨-, hold₂⟩ | ⟨-, w, -, rfl⟩ := places_put hp₂
      · rw [starting_eq_false hr.toJoin_ne_nil] at hst
        cases hst
      · obtain hsub | ⟨⟨isReset, rfl⟩, heq⟩ := hm.toJoin
        · exact ⟨t₁, t₂, p, p₂, hp, hr'.mono hsub, hold₂, hst⟩
        · rw [hk (heq ▸ hr') p₂ (List.mem_of_getElem? hold₂)] at hst
          cases hst
      · cases hst
    · obtain ⟨rfl, rfl⟩ | ⟨-, hold₂⟩ | ⟨-, w, -, rfl⟩ := places_put hp₂
      · obtain hpst | ⟨job, rfl, hjob⟩ := hm.starting hst
        · exact ⟨t₁, t₂, p₁, p, hold₁, hr', hp, hpst⟩
        · exact (hk hjob p₁ (List.mem_of_getElem? hold₁) hr').elim
      · exact ⟨t₁, t₂, p₁, p₂, hold₁, hr', hold₂, hst⟩
      · cases hst
    · exact (hr.toJoin_ne_nil rfl).elim
  | guard op => cases hs; exact ⟨t₁, t₂, p₁, p₂, hp₁, hr', hp₂, hst⟩
  | drawOrderId => cases hs; exact ⟨t₁, t₂, p₁, p₂, hp₁, hr', hp₂, hst⟩

theorem together_of_not_apart (hs : s.step e = some s') (ha : ¬ s.Apart e) : s'.Together := by
  cases e with
  | go t result now =>
    obtain ⟨p, m, hp, hm, rfl⟩ := step_go hs
    have hk : ¬ s.KeepsApart result p := fun hk => ha fun p' hp' => by
      rw [Option.mem_def, hp, Option.some.injEq] at hp'
      exact hp' ▸ hk
    have hlt := (List.getElem?_eq_some_iff.mp hp).1
    cases hm with
    | @enters job c start next _ hst =>
      simp only [KeepsApart, not_forall, not_not] at hk
      obtain ⟨hjob, p₁, hmem, hr⟩ := hk
      obtain ⟨t₁, hp₁⟩ := List.mem_iff_getElem?.mp hmem
      have hne : t₁ ≠ t := by
        rintro rfl
        rw [hp, Option.some.injEq] at hp₁
        exact hr.toJoin_ne_nil (hp₁ ▸ rfl)
      have hstart : (Place.holdsMutex start next).starting = true := by
        have := (ArbCoordinator.stretch_starts s.arb result now job).mpr hjob
        rw [hst] at this
        obtain ⟨w, hw⟩ := Option.isSome_iff_exists.mp this
        rw [show start = some w from hw]
        rfl
      exact ⟨t₁, t, p₁, _, places_put_of_ne hne hp₁, hr.put nofun, places_put_self hlt, hstart⟩
    | @beginsJoin isReset _ =>
      -- the holder of `mutex_` was there first
      simp only [KeepsApart, not_forall, Bool.not_eq_false] at hk
      obtain ⟨hr, q, hmem, hst⟩ := hk
      obtain ⟨t₂, hq⟩ := List.mem_iff_getElem?.mp hmem
      have hne : t₂ ≠ t := by
        rintro rfl
        rw [hp, Option.some.injEq] at hq
        rw [← hq] at hst
        cases hst
      exact ⟨t, t₂, _, q, places_put_self hlt, hr.put nofun, places_put_of_ne hne hq, hst⟩
    | _ => exact (hk trivial).elim
  | _ => exact (ha trivial).elim

/-- A worker that a shutdown waits for in vain brings them together. -/
theorem Deadlocked.together (hs : s.Sound) (h : s.Deadlocked) : s.Together := by
  obtain ⟨t, i, isReset, rest, ht, p, hp, hb⟩ := h
  obtain ⟨p', hp', hw⟩ := hs.joined t _ ht i List.mem_cons_self
  obtain rfl : p = p' := Option.some.inj (hp.symm.trans hp')
  have hr : s.Running (i :: rest) := by
    refine ⟨i, List.mem_cons_self, (isDone_eq_false hp).mpr ?_⟩
    rintro rfl
    obtain h | ⟨h, -⟩ := hb <;> cases h
  obtain hwants | ⟨-, h, q, hq, hmutex, hthreads⟩ := hb
  · refine ⟨t, i, _, p, ht, hr, hp, ?_⟩
    cases p with
    | waitsThreads underMutex w next =>
      cases underMutex with
      | true => rfl
      | false => cases hw
    | waitsJoin isReset => cases hw
    | _ => cases hwants
  · refine ⟨t, h, _, q, ht, hr, hq, ?_⟩
    cases q with
    | waitsThreads underMutex w next =>
      cases underMutex with
      | true => rfl
      | false => cases hmutex
    | waitsJoin isReset => cases hmutex
    | _ => cases hthreads

/-! ## Once they are together -/

def Doomed (s : Threads) : Prop := ∃ es s', run Threads.step s es = some s' ∧ s'.Deadlocked

theorem Doomed.of_step (h : s.step e = some s') (hd : s'.Doomed) : s.Doomed := by
  obtain ⟨es, u, hr, hu⟩ := hd
  exact ⟨e :: es, u, by simp [run, h, hr], hu⟩

theorem step_of_move (hp : s.places[t]? = some p) (hm : s.move {} 0 p = some m) :
    s.step (.go t {} 0) = some (s.put t m) := by
  simp [Threads.step, hp, hm]

section
variable {h : Nat} {isReset : Bool} {rest : List Nat} {w : Worker} {next : Option Job}

theorem doomed_of_ready (ht : s.places[t]? = some (.joining isReset (i :: rest)))
    (hh : s.places[h]? = some (.waitsThreads true w next)) {w' : Worker}
    (hi : s.places[i]? = some (.ready (.worker w'))) (hj : (Job.worker w').takesMutex = true) : s.Doomed := by
  have hm : s.move {} 0 (.ready (.worker w')) = some { arb := s.arb, place := .waitsMutex (.worker w') } := by
    simp [move, hj]
  have hti : t ≠ i := by
    rintro rfl
    cases ht.symm.trans hi
  have hhi : h ≠ i := by
    rintro rfl
    cases hh.symm.trans hi
  refine .of_step (step_of_move hi hm) ⟨[], _, rfl, t, i, isReset, rest, places_put_of_ne hti ht, ?_⟩
  exact ⟨_, places_put_self (List.getElem?_eq_some_iff.mp hi).1,
    .inr ⟨rfl, h, _, places_put_of_ne hhi hh, rfl, rfl⟩⟩

theorem doomed_of_joining (hs : s.Sound) (ht : s.places[t]? = some (.joining isReset (i :: rest)))
    (hh : s.places[h]? = some (.waitsThreads true w next)) (hi : s.isDone i = false) : s.Doomed := by
  obtain ⟨p, hp, hw⟩ := hs.joined t _ ht i List.mem_cons_self
  have hnow : ∀ {q : Place}, s.places[i]? = some q → q.wantsThreads = true ∨ q.wantsMutex = true → s.Doomed := by
    intro q hq hwants
    refine ⟨[], s, rfl, t, i, isReset, rest, ht, q, hq, hwants.imp id fun hm => ⟨hm, h, _, hh, rfl, rfl⟩⟩
  cases p with
  | ready job =>
    cases job with
    | worker w' =>
      by_cases hj : (Job.worker w').takesMutex = true
      · exact doomed_of_ready ht hh hp hj
      · -- it sends the unwinding order first
        cases w' with
        | unwindSend g gw o =>
          have hm : s.move {} 0 (.ready (.worker (.unwindSend g gw o))) =
              some { arb := _, place := .ready (.worker (.unwindResult g)) } := rfl
          have hti : t ≠ i := by
            rintro rfl
            cases ht.symm.trans hp
          have hhi : h ≠ i := by
            rintro rfl
            cases hh.symm.trans hp
          exact .of_step (step_of_move hp hm) (doomed_of_ready (places_put_of_ne hti ht) (places_put_of_ne hhi hh)
            (places_put_self (List.getElem?_eq_some_iff.mp hp).1) rfl)
        | _ => exact (hj rfl).elim
    | _ => cases hw
  | waitsMutex job => exact hnow hp (.inr rfl)
  | holdsMutex start next' =>
    -- `h` holds `mutex_`, and the shutdown `threads_mutex_`
    obtain rfl := hs.oneMutex i h _ _ hp hh rfl rfl
    cases hp.symm.trans hh
  | waitsThreads underMutex w' next' => exact hnow hp (.inl rfl)
  | holdsThreads underMutex w' next' =>
    obtain rfl := hs.oneThreads i t _ _ hp ht rfl rfl
    cases hp.symm.trans ht
  | waitsJoin isReset' => cases hw
  | joining isReset' rest' => cases hw
  | done => exact ((isDone_eq_false hp).mp hi rfl).elim

/-- The shutdown joins the threads that ended, up to one that cannot end. -/
theorem doomed_of_waits (hs : s.Sound) (ht : s.places[t]? = some (.joining isReset l)) (hr : s.Running l)
    (hh : s.places[h]? = some (.waitsThreads true w next)) : s.Doomed := by
  induction l generalizing s with
  | nil => exact (hr.toJoin_ne_nil rfl).elim
  | cons i rest ih =>
    cases hi : s.isDone i with
    | false => exact doomed_of_joining hs ht hh hi
    | true =>
      have hm : s.move {} 0 (.joining isReset (i :: rest)) =
          some { arb := s.arb, place := .joining isReset rest } := by simp only [move, hi, ite_true]
      have hht : h ≠ t := by
        rintro rfl
        cases hh.symm.trans ht
      have hr' : s.Running rest := by
        obtain ⟨j, hj, hd⟩ := hr
        obtain rfl | hj := List.mem_cons.mp hj
        · rw [hi] at hd; cases hd
        · exact ⟨j, hj, hd⟩
      have hstep := step_of_move ht hm
      exact .of_step hstep (ih (hs.step hstep) (places_put_self (List.getElem?_eq_some_iff.mp ht).1)
        (hr'.put fun h => by cases h) (places_put_of_ne hht hh))

end

theorem Together.doomed (hs : s.Sound) (h : s.Together) : s.Doomed := by
  obtain ⟨t, h, p, q, ht, hr, hh, hst⟩ := h
  cases p with
  | joining isReset l =>
    cases q with
    | waitsThreads underMutex w next =>
      cases underMutex with
      | true => exact doomed_of_waits hs ht hr hh
      | false => cases hst
    | holdsMutex start next =>
      cases start with
      | none => cases hst
      | some w =>
        have hne : t ≠ h := by
          rintro rfl
          cases ht.symm.trans hh
        have hstep := step_of_move (m := { arb := s.arb, place := .waitsThreads true w next }) hh rfl
        exact .of_step hstep (doomed_of_waits (hs.step hstep) (places_put_of_ne hne ht) (hr.put nofun)
          (places_put_self (List.getElem?_eq_some_iff.mp hh).1))
    | _ => cases hst
  | _ => exact (hr.toJoin_ne_nil rfl).elim

/-! ## A deadlock is for ever -/

theorem Moves.threadsFree (h : s.Moves result now p m) (hp : p.wantsThreads = true) : s.threadsFree = true := by
  cases h with
  | takesThreads hf | beginsJoin hf => exact hf
  | _ => cases hp

theorem Moves.mutexFree (h : s.Moves result now p m) (hp : p.wantsMutex = true) : s.mutexFree = true := by
  cases h with
  | enters hf _ => exact hf
  | _ => cases hp

theorem places_of_stuck (hs : s.step e = some s') (hq : s.places[j]? = some q)
    (hno : ∀ result now m, ¬ s.Moves result now q m) : s'.places[j]? = some q := by
  apply places_step hs hq
  rintro result now rfl
  obtain ⟨p, m, hp, hm, -⟩ := step_go hs
  obtain rfl : p = q := Option.some.inj (hp.symm.trans hq)
  exact hno _ _ _ hm

theorem Deadlocked.step (h : s.Deadlocked) (hs : s.step e = some s') : s'.Deadlocked := by
  obtain ⟨t, i, isReset, rest, ht, p, hp, hb⟩ := h
  have hthreads : s.threadsFree ≠ true := by
    intro hf
    cases of_threadsFree hf ht
  have hpd : p ≠ .done := by
    rintro rfl
    obtain h | ⟨h, -⟩ := hb <;> cases h
  have ht' : s'.places[t]? = some (.joining isReset (i :: rest)) := by
    apply places_of_stuck hs ht
    intro result now m hm
    cases hm with
    | joins hd =>
      rw [(isDone_eq_false hp).mpr hpd] at hd
      cases hd
  refine ⟨t, i, isReset, rest, ht', p, ?_⟩
  obtain hwants | ⟨hwants, h, q, hq, hmutex, hq'⟩ := hb
  · exact ⟨places_of_stuck hs hp fun _ _ _ hm => hthreads (hm.threadsFree hwants), .inl hwants⟩
  · have hfree : s.mutexFree ≠ true := by
      intro hf
      rw [of_mutexFree hf hq] at hmutex
      cases hmutex
    exact ⟨places_of_stuck hs hp fun _ _ _ hm => hfree (hm.mutexFree hwants),
      .inr ⟨hwants, h, q, places_of_stuck hs hq fun _ _ _ hm => hthreads (hm.threadsFree hq'), hmutex, hq'⟩⟩

theorem Deadlocked.run {es : List ThreadEvent} (h : s.Deadlocked) (hr : run Threads.step s es = some s') :
    s'.Deadlocked :=
  inv_run (fun _ _ _ => Deadlocked.step) h hr

end

/-! ## Shutdown -/

/-- While every step keeps the two kinds of threads apart, no shutdown runs
into a deadlock; after a step that does not, some schedule leads into one. -/
theorem shutdown_deadlock_free (config : ArbConfig) (portfolio : PortfolioGuard) (hasGateway : Exchange → Bool) :
    (∀ es, Along Threads.step Apart (init config portfolio hasGateway) es →
      Always Threads.step (fun s => ¬ s.Deadlocked) (init config portfolio hasGateway) es) ∧
    ∀ es s e s', run Threads.step (init config portfolio hasGateway) es = some s → s.step e = some s' →
      ¬ s.Apart e → ∃ es' u, run Threads.step s' es' = some u ∧ u.Deadlocked := by
  constructor
  · intro es hes
    have hinit : (init config portfolio hasGateway).Sound ∧ ¬ (init config portfolio hasGateway).Together := by
      refine ⟨sound_init _ _ _, ?_⟩
      rintro ⟨t, h, p, q, hp, -⟩
      simp [init] at hp
    have hsteps := inv_always (I := fun s : Threads => s.Sound ∧ ¬ s.Together)
      (fun _ _ _ h ha hs => ⟨h.1.step hs, fun ht => h.2 (ht.before hs ha)⟩) hes hinit
    exact hsteps.mono fun s h hd => h.2 (hd.together h.1)
  · intro es s e s' hr hs ha
    have hsound : s.Sound := inv_run (fun _ _ _ => Sound.step) (sound_init _ _ _) hr
    exact (together_of_not_apart hs ha).doomed (hsound.step hs)

end Threads

namespace Sample

open ArbCoordinator

def threads : Threads := .init {} (.init {}) fun _ => true

def goes (t n : Nat) (result : OrderResult) (now : Int) : List ThreadEvent :=
  List.replicate n (.go t result now)

/-- Both legs arrive, the orders are sent and acknowledged, and the timer runs
out. The thread `5` is the monitor. -/
def opened : List ThreadEvent :=
  .call (.addLeg cexSignal) :: goes 0 6 {} 1 ++ .call (.addLeg dexSignal) :: goes 2 3 {} 1 ++ goes 2 13 {} 2 ++
    goes 3 3 cexAck 3 ++ goes 4 3 dexAck 3 ++ goes 1 3 {} 3

def filling (t : Nat) (exchangeOrderId : Bytes) : List ThreadEvent :=
  .call (.onFill exchangeOrderId 100 1 false) :: goes t 3 {} 4

def resetting (t : Nat) : List ThreadEvent := .call .reset :: goes t 5 {} 5

/-- The CEX leg alone is filled when `reset()` begins and the risk window runs out. -/
def riskReset : List ThreadEvent :=
  opened ++ filling 6 (exIdOf cexOrder.orderId) ++ resetting 7 ++ goes 5 1 {} 5

def quietReset : List ThreadEvent :=
  opened ++ filling 6 (exIdOf cexOrder.orderId) ++ filling 7 (hlIdOf dexOrder.orderId) ++ resetting 8 ++
    goes 5 3 {} 5 ++ goes 8 5 {} 6

theorem shutdown_deadlock_free_quiet :
    Always Threads.step (fun s => ¬ s.Deadlocked) threads quietReset ∧
    ∃ s, run Threads.step threads (riskReset ++ [.go 5 {} 5]) = some s ∧
      ∃ es u, run Threads.step s es = some u ∧ u.Deadlocked := by
  have hfree := Threads.shutdown_deadlock_free {} (.init {}) fun _ => true
  refine ⟨hfree.1 quietReset (by decide +kernel), ?_⟩
  obtain ⟨s, hs, ha⟩ := Option.bind_eq_some_iff.mp
    (show (run Threads.step threads riskReset).bind (fun s => some (decide (s.Apart (.go 5 {} 5)))) = some false by
      decide +kernel)
  simp only [Option.some.injEq, decide_eq_false_iff_not] at ha
  obtain ⟨s', hs'⟩ := Option.isSome_iff_exists.mp
    (show (run Threads.step threads (riskReset ++ [.go 5 {} 5])).isSome by decide +kernel)
  obtain ⟨t, ht, hstep⟩ := run_snoc hs'
  obtain rfl : s = t := Option.some.inj (hs.symm.trans ht)
  exact ⟨s', hs', hfree.2 riskReset s _ s' hs hstep ha⟩

/-- The monitor finds the CEX leg alone filled, starts the unwinding and waits
for `threads_mutex_`, while `reset()` holds that and joins the monitor. -/
theorem not_shutdown_deadlock_free :
    ¬ ∀ (config : ArbConfig) (portfolio : PortfolioGuard) (hasGateway : Exchange → Bool) (es : List ThreadEvent),
      Always Threads.step (fun s => ¬ s.Deadlocked) (.init config portfolio hasGateway) es := by
  intro h
  obtain ⟨s, hs, hstate⟩ := Option.bind_eq_some_iff.mp
    (show (run Threads.step threads (riskReset ++ goes 5 2 {} 5)).bind
      (fun s => some (s.places[7]?, s.places[5]?.map Place.wantsThreads)) =
        some (some (.joining true [5]), some true) by decide +kernel)
  simp only [Option.some.injEq, Prod.mk.injEq, Option.map_eq_some_iff] at hstate
  obtain ⟨h₇, p, h₅, hp⟩ := hstate
  exact always_iff.mp (h {} (.init {}) (fun _ => true) _) _ [] s (List.append_nil _).symm hs
    ⟨7, 5, true, [], h₇, p, h₅, .inl hp⟩

end Sample

end OrderExecution
