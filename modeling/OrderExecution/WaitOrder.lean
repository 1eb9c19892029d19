import OrderExecution.Machine
import Mathlib.Data.List.MinMax

/-!
# Locks, threads and the order of waiting

Threads that take locks for the length of a block, start other threads and wait
for their end. Where the code branches, a run may take either way. When every
lock and every kind of thread has a rank, and a thread waits only for what ranks
above itself and above every lock that it holds, no set of threads can come to
wait for each other: from every state, all threads can run to their end.
-/

namespace WaitOrder

/-- What a thread does. `guard l p` holds `l` while `p` runs; `either` lists the
shorter way first. -/
inductive Script (ℓ κ γ : Type) where
  | skip
  | seq (p q : Script ℓ κ γ)
  | guard (l : ℓ) (p : Script ℓ κ γ)
  | either (p q : Script ℓ κ γ)
  | many (p : Script ℓ κ γ)
  | pick (p : γ → Script ℓ κ γ)
  | start (k : κ)
  /-- A join, or the `get` of a future, of some thread of the kind. -/
  | await (k : κ)

/-- What a thread has still to do, the next first. -/
inductive Frame (ℓ κ γ : Type) where
  | run (p : Script ℓ κ γ)
  | release (l : ℓ)
  | join (t : Nat)

structure Runner (ℓ κ γ : Type) where
  kind : κ
  frames : List (Frame ℓ κ γ)

/-- The threads in the order of their start. -/
abbrev State (ℓ κ γ : Type) := List (Runner ℓ κ γ)

/-- Which way a thread takes: out of a choice or a loop, on in it, or which of
the threads it waits for. -/
inductive Way (γ : Type) where
  | out
  | on
  | pick (g : γ)
  | thread (t : Nat)

inductive Event (κ γ : Type) where
  /-- A thread from outside begins something of the kind. -/
  | call (k : κ)
  | go (t : Nat) (way : Way γ)

variable {ℓ κ γ : Type} [DecidableEq ℓ] [DecidableEq κ]

def Frame.releases (l : ℓ) : Frame ℓ κ γ → Bool
  | .release l' => l' = l
  | _ => false

namespace State

/-- No thread holds `l`. -/
def free (s : State ℓ κ γ) (l : ℓ) : Bool := s.all fun r => r.frames.all fun f => !f.releases l

def isDone (s : State ℓ κ γ) (t : Nat) : Bool := (s[t]?.map fun r => r.frames.isEmpty) == some true

def hasKind (s : State ℓ κ γ) (t : Nat) (k : κ) : Bool := (s[t]?.map (·.kind)) == some k

/-- The thread's frames after its next step, and the kind of a thread it starts. -/
def advance (s : State ℓ κ γ) (way : Way γ) : List (Frame ℓ κ γ) → Option (List (Frame ℓ κ γ) × Option κ)
  | [] => none
  | .run .skip :: rest => some (rest, none)
  | .run (.seq p q) :: rest => some (.run p :: .run q :: rest, none)
  | .run (.guard l p) :: rest => if s.free l then some (.run p :: .release l :: rest, none) else none
  | .run (.either p q) :: rest =>
    match way with
    | .out => some (.run p :: rest, none)
    | .on => some (.run q :: rest, none)
    | _ => none
  | .run (.many p) :: rest =>
    match way with
    | .out => some (rest, none)
    | .on => some (.run p :: .run (.many p) :: rest, none)
    | _ => none
  | .run (.pick p) :: rest =>
    match way with
    | .pick g => some (.run (p g) :: rest, none)
    | _ => none
  | .run (.start k) :: rest => some (rest, some k)
  | .run (.await k) :: rest =>
    match way with
    | .thread t => if s.hasKind t k then some (.join t :: rest, none) else none
    | .out => if s.all fun r => r.kind ≠ k then some (rest, none) else none
    | _ => none
  | .release _ :: rest => some (rest, none)
  | .join t :: rest => if s.isDone t then some (rest, none) else none

variable (script : κ → Script ℓ κ γ)

def fresh (k : κ) : Runner ℓ κ γ := ⟨k, [.run (script k)]⟩

/-- Thread `t` goes on with `frames`, and starts a thread of the kind. -/
def put (s : State ℓ κ γ) (t : Nat) (r : Runner ℓ κ γ) (next : List (Frame ℓ κ γ) × Option κ) : State ℓ κ γ :=
  s.set t { r with frames := next.1 } ++ (next.2.map (fresh script)).toList

def step (s : State ℓ κ γ) : Event κ γ → Option (State ℓ κ γ)
  | .call k => some (s ++ [fresh script k])
  | .go t way => s[t]?.bind fun r => (s.advance way r.frames).map (s.put script t r)

end State

/-! ## The order -/

/-- The ranks of the locks and of the kinds of threads. -/
structure Ranks (ℓ κ : Type) where
  lock : ℓ → Nat
  kind : κ → Nat

variable (ranks : Ranks ℓ κ)

namespace Script

/-- Everything it waits for ranks above `n` and above the locks it holds. -/
def Ordered : Nat → Script ℓ κ γ → Prop
  | _, .skip => True
  | n, .seq p q => p.Ordered n ∧ q.Ordered n
  | n, .guard l p => n < ranks.lock l ∧ p.Ordered (ranks.lock l)
  | n, .either p q => p.Ordered n ∧ q.Ordered n
  | n, .many p => p.Ordered n
  | n, .pick p => ∀ g, (p g).Ordered n
  | _, .start _ => True
  | n, .await k => n < ranks.kind k

/-- The steps of the shortest way through, with those of the threads it starts. -/
def cost [Inhabited γ] (kindCost : κ → Nat) : Script ℓ κ γ → Nat
  | .skip => 1
  | .seq p q => p.cost kindCost + q.cost kindCost + 1
  | .guard _ p => p.cost kindCost + 2
  | .either p _ => p.cost kindCost + 1
  | .many _ => 1
  | .pick p => (p default).cost kindCost + 1
  | .start k => kindCost k + 1
  | .await _ => 2

end Script

/-- The rank of the lock that was taken last, or of the thread itself. -/
def level (k : κ) : List (Frame ℓ κ γ) → Nat
  | [] => ranks.kind k
  | .release l :: _ => ranks.lock l
  | .run _ :: rest | .join _ :: rest => level k rest

def FramesOrdered (s : State ℓ κ γ) (k : κ) : List (Frame ℓ κ γ) → Prop
  | [] => True
  | .run p :: rest => p.Ordered ranks (level ranks k rest) ∧ FramesOrdered s k rest
  | .release l :: rest => level ranks k rest < ranks.lock l ∧ FramesOrdered s k rest
  | .join t :: rest =>
    (∃ r, s[t]? = some r ∧ level ranks k rest < ranks.kind r.kind) ∧ FramesOrdered s k rest

def Keeps (s : State ℓ κ γ) : Prop := ∀ r ∈ s, FramesOrdered ranks s r.kind r.frames

variable {ranks} {s s' : State ℓ κ γ} {k : κ} {fs : List (Frame ℓ κ γ)}

/-- The threads of `s` are still there. -/
def State.Kept (s s' : State ℓ κ γ) : Prop :=
  ∀ (t : Nat) (r : Runner ℓ κ γ), s[t]? = some r → ∃ r' : Runner ℓ κ γ, s'[t]? = some r' ∧ r'.kind = r.kind

section
omit [DecidableEq ℓ] [DecidableEq κ]

theorem FramesOrdered.mono (hs : s.Kept s')
    (h : FramesOrdered ranks s k fs) : FramesOrdered ranks s' k fs := by
  induction fs with
  | nil => trivial
  | cons f rest ih =>
    cases f with
    | run p => exact ⟨h.1, ih h.2⟩
    | release l => exact ⟨h.1, ih h.2⟩
    | join t =>
      obtain ⟨r, hr, hlt⟩ := h.1
      obtain ⟨r', hr', hk⟩ := hs t r hr
      exact ⟨⟨r', hr', hk ▸ hlt⟩, ih h.2⟩

theorem kind_le_level (h : FramesOrdered ranks s k fs) : ranks.kind k ≤ level ranks k fs := by
  induction fs with
  | nil => exact Nat.le_refl _
  | cons f rest ih =>
    cases f with
    | run p => exact ih h.2
    | join t => exact ih h.2
    | release l => exact Nat.le_trans (ih h.2) (Nat.le_of_lt h.1)

theorem lock_le_level {l : ℓ} (h : FramesOrdered ranks s k fs) (hl : .release l ∈ fs) :
    ranks.lock l ≤ level ranks k fs := by
  induction fs with
  | nil => cases hl
  | cons f rest ih =>
    cases f with
    | run p => exact ih h.2 ((List.mem_cons.mp hl).resolve_left nofun)
    | join t => exact ih h.2 ((List.mem_cons.mp hl).resolve_left nofun)
    | release l' =>
      rcases List.mem_cons.mp hl with heq | hl
      · obtain rfl := Frame.release.inj heq
        exact Nat.le_refl _
      · exact Nat.le_trans (ih h.2 hl) (Nat.le_of_lt h.1)

end

/-! ## A step keeps the order -/

omit [DecidableEq ℓ] in
theorem exists_of_hasKind {t : Nat} (h : s.hasKind t k = true) : ∃ r : Runner ℓ κ γ, s[t]? = some r ∧ r.kind = k := by
  unfold State.hasKind at h
  cases hr : s[t]? with
  | none =>
    rw [hr] at h
    exact absurd h (by simp)
  | some r =>
    rw [hr] at h
    exact ⟨r, rfl, by simpa using h⟩

theorem advance_ordered {way : Way γ} {next : List (Frame ℓ κ γ) × Option κ} (h : FramesOrdered ranks s k fs)
    (ha : s.advance way fs = some next) : FramesOrdered ranks s k next.1 := by
  cases fs with
  | nil => cases ha
  | cons f rest =>
    cases f with
    | release l =>
      obtain rfl := Option.some.inj ha
      exact h.2
    | join t =>
      simp only [State.advance] at ha
      split at ha <;> cases ha
      exact h.2
    | run p =>
      cases p with
      | skip =>
        obtain rfl := Option.some.inj ha
        exact h.2
      | seq p q =>
        obtain rfl := Option.some.inj ha
        exact ⟨h.1.1, h.1.2, h.2⟩
      | guard l p =>
        simp only [State.advance] at ha
        split at ha <;> cases ha
        exact ⟨h.1.2, h.1.1, h.2⟩
      | either p q =>
        cases way <;> cases ha
        · exact ⟨h.1.1, h.2⟩
        · exact ⟨h.1.2, h.2⟩
      | many p =>
        cases way <;> cases ha
        · exact h.2
        · exact ⟨h.1, h.1, h.2⟩
      | pick p =>
        cases way <;> cases ha
        exact ⟨h.1 _, h.2⟩
      | start k' =>
        obtain rfl := Option.some.inj ha
        exact h.2
      | await k' =>
        cases way with
        | out =>
          simp only [State.advance] at ha
          split at ha <;> cases ha
          exact h.2
        | thread t =>
          simp only [State.advance] at ha
          split at ha <;> cases ha
          next ht =>
            obtain ⟨r, hr, hk⟩ := exists_of_hasKind ht
            exact ⟨⟨r, hr, hk ▸ h.1⟩, h.2⟩
        | _ => cases ha

variable {script : κ → Script ℓ κ γ}

theorem step_go {t : Nat} {way : Way γ} (hs : s.step script (.go t way) = some s') :
    ∃ r next, s[t]? = some r ∧ s.advance way r.frames = some next ∧ s' = s.put script t r next := by
  obtain ⟨r, hr, hs⟩ := Option.bind_eq_some_iff.mp hs
  obtain ⟨next, hnext, rfl⟩ := Option.map_eq_some_iff.mp hs
  exact ⟨r, next, hr, hnext, rfl⟩

omit [DecidableEq ℓ] [DecidableEq κ] in
theorem kept_append (s₂ : State ℓ κ γ) : s.Kept (s ++ s₂) := fun t r hr =>
  ⟨r, by rw [List.getElem?_append_left (List.getElem?_eq_some_iff.mp hr).1, hr], rfl⟩

omit [DecidableEq ℓ] [DecidableEq κ] in
theorem kept_put {t : Nat} {r : Runner ℓ κ γ} (hr : s[t]? = some r) (next : List (Frame ℓ κ γ) × Option κ) :
    s.Kept (s.put script t r next) := by
  intro i q hq
  have hi := (List.getElem?_eq_some_iff.mp hq).1
  unfold State.put
  rw [List.getElem?_append_left (by simpa using hi), List.getElem?_set]
  by_cases hti : t = i
  · subst hti
    obtain rfl := Option.some.inj (hq.symm.trans hr)
    exact ⟨{ q with frames := next.1 }, by rw [if_pos rfl, if_pos hi], rfl⟩
  · exact ⟨q, by rw [if_neg hti, hq], rfl⟩

theorem Keeps.step (hscript : ∀ k, (script k).Ordered ranks (ranks.kind k)) {e : Event κ γ} (h : Keeps ranks s)
    (hs : s.step script e = some s') : Keeps ranks s' := by
  have hfresh : ∀ (u : State ℓ κ γ) (k : κ), FramesOrdered ranks u k (State.fresh script k).frames :=
    fun u k => ⟨hscript k, trivial⟩
  cases e with
  | call k =>
    obtain rfl := Option.some.inj hs
    intro r hr
    rcases List.mem_append.mp hr with hr | hr
    · exact (h r hr).mono (kept_append _)
    · rw [List.mem_singleton.mp hr]
      exact hfresh _ k
  | go t way =>
    obtain ⟨r, next, hr, hnext, rfl⟩ := step_go hs
    have hkept : s.Kept (s.put script t r next) := kept_put hr next
    intro q hq
    rcases List.mem_append.mp hq with hq | hq
    · rcases List.mem_or_eq_of_mem_set hq with hq | rfl
      · exact (h q hq).mono hkept
      · exact (advance_ordered (h r (List.mem_of_getElem? hr)) hnext).mono hkept
    · obtain ⟨k, -, rfl⟩ := List.mem_map.mp (Option.toList_map .. ▸ hq)
      exact hfresh _ k

/-! ## Nobody waits for ever -/

section
variable [Inhabited γ] (kindCost : κ → Nat)

def frameCost : Frame ℓ κ γ → Nat
  | .run p => p.cost kindCost
  | .release _ | .join _ => 1

def framesCost : List (Frame ℓ κ γ) → Nat
  | [] => 0
  | f :: fs => frameCost kindCost f + framesCost fs

def stateCost : State ℓ κ γ → Nat
  | [] => 0
  | r :: s => framesCost kindCost r.frames + stateCost s

/-- What keeps a thread from its next step: another that holds a lock, or one
that it joins, each of a higher rank than it. -/
inductive Waits (ranks : Ranks ℓ κ) (s : State ℓ κ γ) (n : Nat) : Prop where
  | lock (l : ℓ) (r : Runner ℓ κ γ) : r ∈ s → .release l ∈ r.frames → n < ranks.lock l → Waits ranks s n
  | thread (r : Runner ℓ κ γ) : r ∈ s → r.frames ≠ [] → n < ranks.kind r.kind → Waits ranks s n

omit [DecidableEq κ] [Inhabited γ] in
theorem exists_of_not_free {l : ℓ} (h : s.free l = false) : ∃ r ∈ s, .release l ∈ r.frames := by
  simp only [State.free, List.all_eq_false, Bool.not_eq_true', List.all_eq_true, not_forall] at h
  obtain ⟨r, hr, f, hf, hrel⟩ := h
  cases f with
  | release l' =>
    have hl : l' = l := by simpa [Frame.releases] using hrel
    exact ⟨r, hr, hl ▸ hf⟩
  | run p => simp [Frame.releases] at hrel
  | join t => simp [Frame.releases] at hrel

/-- A thread that is not at its end can go on, on the shortest way, or it waits. -/
theorem advance_or_waits (h : FramesOrdered ranks s k fs) (hfs : fs ≠ []) :
    (∃ way next, s.advance way fs = some next ∧
      framesCost kindCost next.1 + (next.2.map fun k => kindCost k).getD 0 < framesCost kindCost fs) ∨
      Waits ranks s (level ranks k fs) := by
  cases fs with
  | nil => exact absurd rfl hfs
  | cons f rest =>
    have hcost : framesCost kindCost (f :: rest) = frameCost kindCost f + framesCost kindCost rest := by
      simp [framesCost]
    cases f with
    | release l => exact .inl ⟨.out, (rest, none), rfl, by rw [hcost]; simp [frameCost]⟩
    | join t =>
      obtain ⟨⟨r, hr, hlt⟩, -⟩ := h
      by_cases hdone : r.frames = []
      · refine .inl ⟨.out, (rest, none), ?_, by rw [hcost]; simp [frameCost]⟩
        simp [State.advance, State.isDone, hr, hdone]
      · exact .inr (.thread r (List.mem_of_getElem? hr) hdone hlt)
    | run p =>
      cases p with
      | skip => exact .inl ⟨.out, (rest, none), rfl, by rw [hcost]; simp [frameCost, Script.cost]⟩
      | seq p q =>
        refine .inl ⟨.out, (.run p :: .run q :: rest, none), rfl, ?_⟩
        rw [hcost]
        simp [framesCost, frameCost, Script.cost]
        omega
      | guard l p =>
        cases hfree : s.free l with
        | true =>
          refine .inl ⟨.out, (.run p :: .release l :: rest, none), by rw [State.advance, if_pos hfree], ?_⟩
          rw [hcost]
          simp [framesCost, frameCost, Script.cost]
          omega
        | false =>
          obtain ⟨r, hr, hl⟩ := exists_of_not_free hfree
          exact .inr (.lock l r hr hl h.1.1)
      | either p q =>
        refine .inl ⟨.out, (.run p :: rest, none), rfl, ?_⟩
        rw [hcost]
        simp [framesCost, frameCost, Script.cost]
      | many p =>
        exact .inl ⟨.out, (rest, none), rfl, by rw [hcost]; simp [frameCost, Script.cost]⟩
      | pick p =>
        refine .inl ⟨.pick default, (.run (p default) :: rest, none), rfl, ?_⟩
        rw [hcost]
        simp [framesCost, frameCost, Script.cost]
      | start k' =>
        refine .inl ⟨.out, (rest, some k'), rfl, ?_⟩
        rw [hcost]
        simp [frameCost, Script.cost]
        omega
      | await k' =>
        by_cases hall : s.all fun r => r.kind ≠ k'
        · exact .inl ⟨.out, (rest, none), by rw [State.advance, if_pos hall], by rw [hcost]; simp [frameCost, Script.cost]⟩
        · simp only [List.all_eq_true, not_forall, decide_eq_true_eq, not_not] at hall
          obtain ⟨r, hr, hk⟩ := hall
          obtain ⟨t, ht⟩ := List.getElem?_of_mem hr
          refine .inl ⟨.thread t, (.join t :: rest, none), ?_, ?_⟩
          · have hkind : s.hasKind t k' = true := by simp [State.hasKind, ht, hk]
            rw [State.advance, if_pos hkind]
          · rw [hcost]
            simp [framesCost, frameCost, Script.cost]

omit [DecidableEq ℓ] [DecidableEq κ] in
theorem stateCost_append (s₁ s₂ : State ℓ κ γ) :
    stateCost kindCost (s₁ ++ s₂) = stateCost kindCost s₁ + stateCost kindCost s₂ := by
  induction s₁ with
  | nil => simp [stateCost]
  | cons r s₁ ih =>
    simp only [List.cons_append, stateCost, ih]
    omega

omit [DecidableEq ℓ] [DecidableEq κ] in
theorem stateCost_put {t : Nat} {r : Runner ℓ κ γ} (hr : s[t]? = some r)
    (hcost : ∀ k, (script k).cost kindCost ≤ kindCost k) {next : List (Frame ℓ κ γ) × Option κ}
    (hlt : framesCost kindCost next.1 + (next.2.map fun k => kindCost k).getD 0 < framesCost kindCost r.frames) :
    stateCost kindCost (s.put script t r next) < stateCost kindCost s := by
  obtain ⟨ht, hget⟩ := List.getElem?_eq_some_iff.mp hr
  have hsplit : s = s.take t ++ r :: s.drop (t + 1) := by
    rw [← hget, List.getElem_cons_drop, List.take_append_drop]
  have hset : s.set t { r with frames := next.1 } = s.take t ++ { r with frames := next.1 } :: s.drop (t + 1) := by
    rw [List.set_eq_take_append_cons_drop, if_pos ht]
  have hnew : stateCost kindCost (next.2.map (State.fresh script)).toList ≤
      (next.2.map fun k => kindCost k).getD 0 := by
    cases next.2 with
    | none => exact Nat.le_refl _
    | some k =>
      have := hcost k
      simpa [stateCost, framesCost, frameCost, State.fresh] using this
  have hcons : ∀ (q : Runner ℓ κ γ) (s₁ : State ℓ κ γ),
      stateCost kindCost (q :: s₁) = framesCost kindCost q.frames + stateCost kindCost s₁ :=
    fun q s₁ => by simp [stateCost]
  have hold : stateCost kindCost s = stateCost kindCost (s.take t) +
      (framesCost kindCost r.frames + stateCost kindCost (s.drop (t + 1))) := by
    conv => lhs; rw [hsplit]
    rw [stateCost_append, hcons]
  unfold State.put
  rw [hset, stateCost_append, stateCost_append, hcons, hold]
  show _ + (framesCost kindCost next.1 + _) + _ < _
  omega

omit [DecidableEq ℓ] [DecidableEq κ] [Inhabited γ] in
/-- An unfinished thread of the highest level. -/
theorem exists_highest (ranks : Ranks ℓ κ) (hs : ∃ r ∈ s, r.frames ≠ []) :
    ∃ r ∈ s, r.frames ≠ [] ∧
      ∀ q ∈ s, q.frames ≠ [] → level ranks q.kind q.frames ≤ level ranks r.kind r.frames := by
  have hmem : ∀ q : Runner ℓ κ γ, q ∈ s.filter (fun r => !r.frames.isEmpty) ↔ q ∈ s ∧ q.frames ≠ [] := by
    intro q
    rw [List.mem_filter, Bool.not_eq_true', List.isEmpty_eq_false_iff]
  obtain ⟨r₀, hr₀⟩ := hs
  cases hmax : (s.filter fun r => !r.frames.isEmpty).argmax fun r => level ranks r.kind r.frames with
  | none =>
    rw [List.argmax_eq_none] at hmax
    have hnil := (hmem r₀).mpr hr₀
    rw [hmax] at hnil
    cases hnil
  | some r =>
    obtain ⟨hr, hne⟩ := (hmem r).mp (List.argmax_mem hmax)
    exact ⟨r, hr, hne, fun q hq hqne => List.le_of_mem_argmax ((hmem q).mpr ⟨hq, hqne⟩) hmax⟩

/-- It waits for nothing: what it waited for would rank higher. -/
theorem exists_step (h : Keeps ranks s) (hcost : ∀ k, (script k).cost kindCost ≤ kindCost k)
    (hs : ∃ r ∈ s, r.frames ≠ []) :
    ∃ t way s', s.step script (.go t way) = some s' ∧ stateCost kindCost s' < stateCost kindCost s := by
  obtain ⟨r, hr, hne, hmax⟩ := exists_highest ranks hs
  obtain ⟨t, ht⟩ := List.getElem?_of_mem hr
  rcases advance_or_waits kindCost (h r hr) hne with ⟨way, next, hnext, hlt⟩ | hwaits
  · refine ⟨t, way, s.put script t r next, ?_, stateCost_put kindCost ht hcost hlt⟩
    simp only [State.step, ht, Option.bind_some, hnext, Option.map_some]
  · exfalso
    cases hwaits with
    | lock l q hq hl hlt =>
      have hle := hmax q hq (List.ne_nil_of_mem hl)
      have hlock := lock_le_level (h q hq) hl
      omega
    | thread q hq hqne hlt =>
      have hle := hmax q hq hqne
      have hkind := kind_le_level (h q hq)
      omega

/-- All threads of the state are at their end. -/
def Finished (s : State ℓ κ γ) : Prop := ∀ r ∈ s, r.frames = []

/-- The steps are those of threads that are there already, none is a new call. -/
def Own (es : List (Event κ γ)) : Prop := ∀ e ∈ es, ∃ t way, e = .go t way

theorem exists_finish (hscript : ∀ k, (script k).Ordered ranks (ranks.kind k))
    (hcost : ∀ k, (script k).cost kindCost ≤ kindCost k) (h : Keeps ranks s) :
    ∃ es s', Own es ∧ Machine.run (State.step script) s es = some s' ∧ Finished s' := by
  induction hn : stateCost kindCost s using Nat.strong_induction_on generalizing s with
  | _ n ih =>
    by_cases hs : ∃ r ∈ s, r.frames ≠ []
    · obtain ⟨t, way, s₁, hstep, hlt⟩ := exists_step kindCost h hcost hs
      obtain ⟨es, s', hown, hrun, hfin⟩ := ih _ (hn ▸ hlt) (h.step hscript hstep) rfl
      exact ⟨.go t way :: es, s', List.forall_mem_cons.mpr ⟨⟨t, way, rfl⟩, hown⟩,
        by simp [Machine.run, hstep, hrun], hfin⟩
    · refine ⟨[], s, List.forall_mem_nil _, rfl, fun r hr => ?_⟩
      by_contra hne
      exact hs ⟨r, hr, hne⟩

/-- However the threads have run so far, they can all run to their end. -/
theorem can_finish (hscript : ∀ k, (script k).Ordered ranks (ranks.kind k))
    (hcost : ∀ k, (script k).cost kindCost ≤ kindCost k) {es : List (Event κ γ)}
    (hr : Machine.run (State.step script) [] es = some s) :
    ∃ es' s', Own es' ∧ Machine.run (State.step script) s es' = some s' ∧ Finished s' :=
  exists_finish kindCost hscript hcost
    (Machine.inv_run (fun _ _ _ hI hs => hI.step hscript hs) (fun r hr => by cases hr) hr)

end

end WaitOrder
