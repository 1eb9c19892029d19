import Mathlib.Logic.Function.Basic
import OrderExecution.Machine

/-!
# Programs under one lock

`Accesses δ α` is a program that touches shared data of type `δ` one access at
a time and ends with an answer. `Locked` is any number of threads that run such
programs, each between the lock and the unlock of one test-and-set flag. In
every interleaving of their accesses the calls take effect one at a time, in
the order in which they took the lock.
-/

/-- One access replaces the data `d` by `f d`; what comes next may depend on `d`. -/
inductive Accesses (δ α : Type) where
  | ret (answer : α)
  | access (f : δ → δ) (next : δ → Accesses δ α)

namespace Accesses

variable {δ ε α β : Type}

/-- The program without another thread in between. -/
def run : Accesses δ α → δ → δ × α
  | ret a, d => (d, a)
  | access f next, d => (next d).run (f d)

def bind : Accesses δ α → (α → Accesses δ β) → Accesses δ β
  | ret a, k => k a
  | access f next, k => access f fun d => (next d).bind k

def read (f : δ → α) : Accesses δ α := access id fun d => ret (f d)

def write (f : δ → δ) : Accesses δ Unit := access f fun _ => ret ()

/-- A program on a part of the data. -/
def zoom (get : ε → δ) (set : ε → δ → ε) : Accesses δ α → Accesses ε α
  | ret a => ret a
  | access f next => access (fun e => set e (f (get e))) fun e => zoom get set (next (get e))

instance : Monad (Accesses δ) where
  pure := ret
  bind := bind

@[simp] theorem run_pure (a : α) (d : δ) : (pure a : Accesses δ α).run d = (d, a) := rfl

@[simp] theorem run_ret (a : α) (d : δ) : (ret a : Accesses δ α).run d = (d, a) := rfl

@[simp] theorem run_read (f : δ → α) (d : δ) : (read f).run d = (d, f d) := rfl

@[simp] theorem run_write (f : δ → δ) (d : δ) : (write f).run d = (f d, ()) := rfl

@[simp] theorem run_bind (p : Accesses δ α) (k : α → Accesses δ β) (d : δ) :
    (p >>= k).run d = (k (p.run d).2).run (p.run d).1 := by
  show (p.bind k).run d = _
  induction p generalizing d with
  | ret a => rfl
  | access f next ih => exact ih d (f d)

theorem run_read_bind (f : δ → α) (k : α → Accesses δ β) (d : δ) : (read f >>= k).run d = (k (f d)).run d := rfl

theorem run_write_bind (f : δ → δ) (k : Unit → Accesses δ β) (d : δ) :
    (write f >>= k).run d = (k ()).run (f d) := rfl

theorem run_zoom {get : ε → δ} {set : ε → δ → ε} (hget : ∀ e d, get (set e d) = d)
    (hset : ∀ e d d', set (set e d) d' = set e d') (hself : ∀ e, set e (get e) = e) (p : Accesses δ α) (e : ε) :
    (p.zoom get set).run e = (set e (p.run (get e)).1, (p.run (get e)).2) := by
  induction p generalizing e with
  | ret a => rw [zoom, run_ret, run_ret, hself]
  | access f next ih => rw [zoom, run, ih, hget, hset, run]

end Accesses

namespace CriticalSections

variable {ι δ ο : Type}

/-- Where a thread stands: outside, at the flag, or inside with the accesses it
has still to make. -/
inductive Place (ι δ ο : Type) where
  | idle
  | spinning (call : ι)
  | inside (call : ι) (rest : Accesses δ ο)

/-- The calls that took the lock and those that returned are kept in their
order, with the thread of each. -/
structure Locked (ι δ ο : Type) where
  flag : Bool := false
  data : δ
  threads : Nat → Place ι δ ο := fun _ => .idle
  entered : List (Nat × ι) := []
  returned : List (Nat × ι × ο) := []

inductive Event (ι : Type) where
  | call (t : Nat) (i : ι)
  | go (t : Nat)

/-- Calls of a function one at a time: the data after them, and their answers. -/
def oneAtATime (call : δ → ι → δ × ο) (d : δ) (calls : List (Nat × ι)) : δ × List (Nat × ι × ο) :=
  calls.foldl (fun r c => ((call r.1 c.2).1, r.2 ++ [(c.1, c.2, (call r.1 c.2).2)])) (d, [])

theorem oneAtATime_concat (call : δ → ι → δ × ο) (d : δ) (calls : List (Nat × ι)) (c : Nat × ι) :
    oneAtATime call d (calls ++ [c]) =
      ((call (oneAtATime call d calls).1 c.2).1,
        (oneAtATime call d calls).2 ++ [(c.1, c.2, (call (oneAtATime call d calls).1 c.2).2)]) := by
  simp [oneAtATime]

namespace Locked

def goto (s : Locked ι δ ο) (t : Nat) (p : Place ι δ ο) : Locked ι δ ο :=
  { s with threads := Function.update s.threads t p }

section
variable (body : ι → Accesses δ ο)

/-- `body i` is what the call `i` does between the lock and the unlock. -/
def step (s : Locked ι δ ο) : Event ι → Option (Locked ι δ ο)
  | .call t i => match s.threads t with
    | .idle => some (s.goto t (.spinning i))
    | _ => none
  | .go t => match s.threads t with
    | .idle => none
    | .spinning i =>
      -- `test_and_set` leaves a flag that was set as it was
      if s.flag then some s
      else some { s.goto t (.inside i (body i)) with flag := true, entered := s.entered ++ [(t, i)] }
    | .inside i (.access f next) => some { s.goto t (.inside i (next s.data)) with data := f s.data }
    | .inside i (.ret o) =>
      some { s.goto t .idle with flag := false, returned := s.returned ++ [(t, i, o)] }

/-- What a thread does in one step. -/
inductive Moves (s : Locked ι δ ο) : Locked ι δ ο → Prop where
  | calls {t i} : s.threads t = .idle → Moves s (s.goto t (.spinning i))
  | waits : s.flag = true → Moves s s
  | enters {t i} : s.threads t = .spinning i → s.flag = false →
      Moves s { s.goto t (.inside i (body i)) with flag := true, entered := s.entered ++ [(t, i)] }
  | accesses {t i f next} : s.threads t = .inside i (.access f next) →
      Moves s { s.goto t (.inside i (next s.data)) with data := f s.data }
  | leaves {t i o} : s.threads t = .inside i (.ret o) →
      Moves s { s.goto t .idle with flag := false, returned := s.returned ++ [(t, i, o)] }

theorem moves_of_step {s s' : Locked ι δ ο} {e : Event ι} (h : step body s e = some s') : Moves body s s' := by
  cases e with
  | call t i =>
    cases ht : s.threads t with
    | idle =>
      simp only [step, ht, Option.some.injEq] at h
      exact h ▸ .calls ht
    | spinning j => simp [step, ht] at h
    | inside j rest => simp [step, ht] at h
  | go t =>
    cases ht : s.threads t with
    | idle => simp [step, ht] at h
    | spinning i =>
      cases hf : s.flag with
      | true =>
        simp only [step, ht, hf, if_true, Option.some.injEq] at h
        exact h ▸ .waits hf
      | false =>
        simp only [step, ht, hf, Bool.false_eq_true, if_false, Option.some.injEq] at h
        exact h ▸ .enters ht hf
    | inside i rest =>
      cases rest with
      | ret o =>
        simp only [step, ht, Option.some.injEq] at h
        exact h ▸ .leaves ht
      | access f next =>
        simp only [step, ht, Option.some.injEq] at h
        exact h ▸ .accesses ht

/-- What the bodies do without another thread in between. -/
def serial (d : δ) (calls : List (Nat × ι)) : δ × List (Nat × ι × ο) :=
  oneAtATime (fun d i => (body i).run d) d calls

theorem serial_concat (d : δ) (calls : List (Nat × ι)) (c : Nat × ι) :
    serial body d (calls ++ [c]) =
      (((body c.2).run (serial body d calls).1).1,
        (serial body d calls).2 ++ [(c.1, c.2, ((body c.2).run (serial body d calls).1).2)]) :=
  oneAtATime_concat ..

/-- No thread is inside, and the data are those after the calls so far. -/
structure Open (d : δ) (s : Locked ι δ ο) : Prop where
  flag : s.flag = false
  outside : ∀ t i rest, s.threads t ≠ .inside i rest
  data : s.data = (serial body d s.entered).1
  returned : s.returned = (serial body d s.entered).2

/-- Thread `t` alone is inside the last call, and what is left of it makes of
the data what the whole call makes of the data before it. -/
structure Shut (d : δ) (s : Locked ι δ ο) (t : Nat) (i : ι) (rest : Accesses δ ο) (calls : List (Nat × ι)) :
    Prop where
  flag : s.flag = true
  here : s.threads t = .inside i rest
  alone : ∀ u j rest', s.threads u = .inside j rest' → u = t
  entered : s.entered = calls ++ [(t, i)]
  data : rest.run s.data = (body i).run (serial body d calls).1
  returned : s.returned = (serial body d calls).2

def Inv (d : δ) (s : Locked ι δ ο) : Prop :=
  Open body d s ∨ ∃ t i rest calls, Shut body d s t i rest calls

end

variable {body : ι → Accesses δ ο} {d : δ} {s s' : Locked ι δ ο} {t u : Nat} {i : ι} {p : Place ι δ ο}

theorem goto_self : (s.goto t p).threads t = p := Function.update_self ..

theorem goto_ne (h : u ≠ t) : (s.goto t p).threads u = s.threads u := Function.update_of_ne h ..

theorem Inv.init : Inv body d { data := d } :=
  .inl ⟨rfl, fun _ _ _ => nofun, rfl, rfl⟩

/-- A thread that stays outside changes nothing. -/
theorem Inv.goto (h : Inv body d s) (ht : ∀ i rest, s.threads t ≠ .inside i rest)
    (hp : ∀ i rest, p ≠ .inside i rest) : Inv body d (s.goto t p) := by
  have hback : ∀ u j rest, (s.goto t p).threads u = .inside j rest → s.threads u = .inside j rest := by
    intro u j rest hu
    by_cases hut : u = t
    · subst hut
      rw [goto_self] at hu
      exact absurd hu (hp j rest)
    · rwa [goto_ne hut] at hu
  cases h with
  | inl h => exact .inl ⟨h.flag, fun u j rest hu => h.outside u j rest (hback u j rest hu), h.data, h.returned⟩
  | inr h =>
    obtain ⟨u, i, rest, calls, h⟩ := h
    have hut : u ≠ t := fun he => ht i rest (he ▸ h.here)
    exact .inr ⟨u, i, rest, calls, h.flag, by rw [goto_ne hut]; exact h.here,
      fun v j rest' hv => h.alone v j rest' (hback v j rest' hv), h.entered, h.data, h.returned⟩

/-- The thread that is inside holds the flag. -/
theorem Inv.shut (h : Inv body d s) {rest : Accesses δ ο} (ht : s.threads t = .inside i rest) :
    ∃ calls, Shut body d s t i rest calls := by
  cases h with
  | inl h => exact absurd ht (h.outside t i rest)
  | inr h =>
    obtain ⟨u, j, rest', calls, h⟩ := h
    obtain rfl := h.alone t i rest ht
    have he := h.here
    rw [ht] at he
    cases he
    exact ⟨calls, h⟩

theorem Inv.open (h : Inv body d s) (hf : s.flag = false) : Open body d s := by
  cases h with
  | inl h => exact h
  | inr h =>
    obtain ⟨t, i, rest, calls, h⟩ := h
    rw [h.flag] at hf
    cases hf

theorem Open.enter (h : Open body d s) (t : Nat) (i : ι) :
    Shut body d { s.goto t (.inside i (body i)) with flag := true, entered := s.entered ++ [(t, i)] } t i (body i)
      s.entered where
  flag := rfl
  here := goto_self
  alone := by
    intro u j rest hu
    by_contra hut
    exact h.outside u j rest ((goto_ne (p := Place.inside i (body i)) hut).symm.trans hu)
  entered := rfl
  data := by rw [← h.data]; rfl
  returned := h.returned

theorem Shut.access {f : δ → δ} {next : δ → Accesses δ ο} {calls : List (Nat × ι)}
    (h : Shut body d s t i (.access f next) calls) :
    Shut body d { s.goto t (.inside i (next s.data)) with data := f s.data } t i (next s.data) calls where
  flag := h.flag
  here := goto_self
  alone := by
    intro u j rest hu
    by_contra hut
    exact hut (h.alone u j rest ((goto_ne (p := Place.inside i (next s.data)) hut).symm.trans hu))
  entered := h.entered
  data := h.data
  returned := h.returned

theorem Shut.leave {o : ο} {calls : List (Nat × ι)} (h : Shut body d s t i (.ret o) calls) :
    Open body d { s.goto t .idle with flag := false, returned := s.returned ++ [(t, i, o)] } where
  flag := rfl
  outside := by
    intro u j rest hu
    by_cases hut : u = t
    · subst hut
      exact absurd ((goto_self (p := Place.idle)).symm.trans hu) nofun
    · exact hut (h.alone u j rest ((goto_ne (p := Place.idle) hut).symm.trans hu))
  data := by
    show s.data = (serial body d s.entered).1
    rw [h.entered, serial_concat, ← h.data, Accesses.run_ret]
  returned := by
    show s.returned ++ [(t, i, o)] = (serial body d s.entered).2
    rw [h.entered, serial_concat, ← h.data, Accesses.run_ret, h.returned]

theorem inv_step (h : Inv body d s) {e : Event ι} (hs : step body s e = some s') : Inv body d s' := by
  cases moves_of_step body hs with
  | calls ht => exact h.goto (by simp [ht]) nofun
  | waits => exact h
  | enters ht hf => exact .inr ⟨_, _, _, _, (h.open hf).enter _ _⟩
  | accesses ht =>
    obtain ⟨calls, hin⟩ := h.shut ht
    exact .inr ⟨_, _, _, calls, hin.access⟩
  | leaves ht =>
    obtain ⟨calls, hin⟩ := h.shut ht
    exact .inl hin.leave

theorem inv_run {es : List (Event ι)} (hr : Machine.run (step body) { data := d } es = some s) : Inv body d s :=
  Machine.inv_run (fun _ _ _ h hs => inv_step h hs) Inv.init hr

/-- At most one thread is inside. -/
theorem Inv.exclusive (h : Inv body d s) {j : ι} {rest rest' : Accesses δ ο} (ht : s.threads t = .inside i rest)
    (hu : s.threads u = .inside j rest') : u = t := by
  obtain ⟨calls, hin⟩ := h.shut ht
  exact hin.alone u j rest' hu

/-- The calls that returned are the first that took the lock, all but the one
that is inside, with the answers they have one at a time. -/
theorem Inv.returned_serial (h : Inv body d s) :
    ∃ calls, calls <+: s.entered ∧ s.entered.length ≤ calls.length + 1 ∧ s.returned = (serial body d calls).2 := by
  cases h with
  | inl h => exact ⟨s.entered, List.prefix_refl _, Nat.le_succ _, h.returned⟩
  | inr h =>
    obtain ⟨t, i, rest, calls, h⟩ := h
    refine ⟨calls, ?_, ?_, h.returned⟩
    · rw [h.entered]
      exact List.prefix_append ..
    · rw [h.entered, List.length_append]
      exact Nat.le_refl _

/-- The order in which the lock was taken does not change later. -/
theorem entered_prefix {es : List (Event ι)} (hr : Machine.run (step body) s es = some s') :
    s.entered <+: s'.entered := by
  refine Machine.inv_run (I := fun u => s.entered <+: u.entered) (fun u e u' h hs => h.trans ?_)
    (List.prefix_refl _) hr
  cases moves_of_step body hs with
  | enters => exact List.prefix_append ..
  | calls => exact List.prefix_refl _
  | waits => exact List.prefix_refl _
  | accesses => exact List.prefix_refl _
  | leaves => exact List.prefix_refl _

/-- A thread that is inside gets out by its own accesses. -/
theorem Shut.finish {rest : Accesses δ ο} {calls : List (Nat × ι)} (h : Shut body d s t i rest calls) :
    ∃ es s', Machine.run (step body) s es = some s' ∧ Open body d s' ∧ s'.threads t = .idle ∧
      ∀ u, u ≠ t → s'.threads u = s.threads u := by
  induction rest generalizing s with
  | ret o =>
    exact ⟨[.go t], _, Machine.run_one (by simp only [step, h.here]), h.leave, goto_self, fun u hu => goto_ne hu⟩
  | access f next ih =>
    obtain ⟨es, s', hr, ho, ht, hother⟩ := ih s.data h.access
    refine ⟨.go t :: es, s', ?_, ho, ht, fun u hu => (hother u hu).trans (goto_ne hu)⟩
    simp only [Machine.run, step, h.here, Option.bind_some]
    exact hr

/-- Whatever the others are doing, a call that was made can return. -/
theorem Inv.can_return (h : Inv body d s) (t : Nat) :
    ∃ es s', Machine.run (step body) s es = some s' ∧ s'.threads t = .idle := by
  have hopen : ∀ s : Locked ι δ ο, Open body d s →
      ∃ es s', Machine.run (step body) s es = some s' ∧ s'.threads t = .idle := by
    intro s h
    cases ht : s.threads t with
    | idle => exact ⟨[], s, rfl, ht⟩
    | inside i rest => exact absurd ht (h.outside t i rest)
    | spinning i =>
      obtain ⟨es, s', hr, -, hidle, -⟩ := (h.enter t i).finish
      refine ⟨.go t :: es, s', ?_, hidle⟩
      simp only [Machine.run, step, ht, h.flag, Bool.false_eq_true, if_false, Option.bind_some]
      exact hr
  cases h with
  | inl h => exact hopen s h
  | inr h =>
    obtain ⟨u, i, rest, calls, h⟩ := h
    obtain ⟨es, s₁, hr, ho, -, -⟩ := h.finish
    obtain ⟨es', s₂, hr', hidle⟩ := hopen s₁ ho
    exact ⟨es ++ es', s₂, Machine.run_trans hr hr', hidle⟩

end Locked

end CriticalSections
