import Mathlib.Algebra.BigOperators.Group.Finset.Basic
import Mathlib.Algebra.Order.BigOperators.Group.Finset
import Mathlib.Tactic.SplitIfs

/-!
# Linear probing on a ring

A table of `n` slots holds at most one key in each: `cell p` is the key in slot
`p`. A key starts its probe at `home k` and walks the ring. `Reach` says that
every stored key is found by its probe. Deleting a key opens a hole that can
cut other probes; `Holed` is the state of the table while the keys behind the
hole are taken out and put back one by one, and `Holed.close` says that when
the walk meets a free slot every probe is whole again.
-/

namespace Probing

/-- The number of slots a probe that starts at `a` passes before it reaches
`b`. -/
def dist (n a b : Nat) : Nat := if a ≤ b then b - a else n - a + b

theorem dist_lt {n a b : Nat} (ha : a < n) (hb : b < n) : dist n a b < n := by
  unfold dist; split <;> omega

theorem dist_self (n a : Nat) : dist n a a = 0 := by simp [dist]

theorem eq_of_dist_eq {n a p q : Nat} (ha : a < n) (hp : p < n) (hq : q < n)
    (h : dist n a p = dist n a q) : p = q := by
  unfold dist at h; split at h <;> split at h <;> omega

theorem add_mod_ring {n a i : Nat} (ha : a < n) (hi : i < n) :
    (a + i) % n = if a + i < n then a + i else a + i - n := by
  split
  · next h => exact Nat.mod_eq_of_lt h
  · next h => rw [Nat.mod_eq_sub_mod (by omega), Nat.mod_eq_of_lt (by omega)]

theorem dist_add_mod {n a i : Nat} (ha : a < n) (hi : i < n) : dist n a ((a + i) % n) = i := by
  rw [add_mod_ring ha hi]; unfold dist; split <;> split <;> omega

theorem add_dist_mod {n a p : Nat} (ha : a < n) (hp : p < n) : (a + dist n a p) % n = p := by
  rw [add_mod_ring ha (dist_lt ha hp)]; unfold dist; split <;> split <;> omega

theorem dist_add {n a g p : Nat} (ha : a < n) (hg : g < n) (hp : p < n)
    (h : dist n a g ≤ dist n a p) : dist n a p = dist n a g + dist n g p := by
  unfold dist at *; split_ifs at * <;> omega

theorem dist_between {n a g x p : Nat} (ha : a < n) (hg : g < n) (hp : p < n)
    (h : dist n a g ≤ dist n a p) (hxp : dist n g x ≤ dist n g p) :
    dist n a x = dist n a g + dist n g x := by
  unfold dist at *; split_ifs at * <;> omega

variable {K : Type} (n : Nat) (home : K → Nat) (cell : Nat → Option K)

def Distinct : Prop := ∀ p < n, ∀ q < n, ∀ k, cell p = some k → cell q = some k → p = q

/-- Every slot that the probe of `k` passes before `p` holds a key other
than `k`. -/
def Clear (k : K) (p : Nat) : Prop :=
  ∀ q < n, dist n (home k) q < dist n (home k) p → ∃ k', cell q = some k' ∧ k' ≠ k

/-- Every slot that a stored key's probe passes is taken. -/
def Reach : Prop :=
  ∀ p < n, ∀ k, cell p = some k → ∀ q < n, dist n (home k) q < dist n (home k) p → cell q ≠ none

/-- No other key's probe passes over slot `g`. -/
def Skipped (g : Nat) : Prop :=
  ∀ p < n, p ≠ g → ∀ k ∈ cell p, dist n (home k) p ≤ dist n (home k) g

instance [DecidableEq K] (g : Nat) : Decidable (Skipped n home cell g) :=
  inferInstanceAs (Decidable (∀ p < n, _))

/-- The table while a deletion repairs it: slot `g` was vacated, probes are
whole but for `g`, and the probes of the `d - 1` slots behind `g` avoid it. -/
structure Holed (g d : Nat) : Prop where
  pos : 0 < d
  distinct : Distinct n cell
  gap : cell g = none
  reach : ∀ p < n, ∀ k, cell p = some k → ∀ q < n, dist n (home k) q < dist n (home k) p →
    q ≠ g → cell q ≠ none
  done : ∀ p < n, ∀ k, cell p = some k → dist n g p < d → dist n (home k) p ≤ dist n (home k) g

/-- The distance of the key in slot `p`, if any, from its home. -/
def away (p : Nat) (o : Option K) : Nat := (o.map fun k => dist n (home k) p).getD 0

/-- The total distance of the stored keys from their homes. -/
def displacement : Nat := ∑ p ∈ Finset.range n, away n home p (cell p)

/-- One for the key in slot `p`, if any, and one for each slot its probe passes. -/
def load (p : Nat) (o : Option K) : Nat := o.elim 0 fun k => dist n (home k) p + 1

/-- The number of the stored keys and their total distance from their homes. -/
def weight : Nat := ∑ p ∈ Finset.range n, load n home p (cell p)

section
variable {n home cell} (hhome : ∀ k, home k < n)
include hhome

theorem Clear.ne_of_reach {k : K} {p q : Nat} (hr : Reach n home cell) (hq : q < n)
    (hc : cell q = some k) (hp : p < n) (h : Clear n home cell k p) (hf : cell p = none) : False := by
  rcases Nat.lt_trichotomy (dist n (home k) p) (dist n (home k) q) with hl | he | hg
  · exact hr q hq k hc p hp hl hf
  · rw [eq_of_dist_eq (hhome k) hp hq he, hc] at hf; cases hf
  · obtain ⟨k', hk', hne⟩ := h q hq hg
    rw [hc, Option.some.injEq] at hk'
    exact hne hk'.symm

omit hhome in
theorem Distinct.insert [DecidableEq K] (hd : Distinct n cell) {k : K} {p : Nat}
    (hk : ∀ q < n, cell q ≠ some k) : Distinct n (Function.update cell p (some k)) := by
  intro a ha b hb k' h₁ h₂
  by_cases hap : a = p <;> by_cases hbp : b = p
  · rw [hap, hbp]
  · subst hap
    rw [Function.update_self, Option.some.injEq] at h₁
    rw [Function.update_of_ne hbp, ← h₁] at h₂
    exact absurd h₂ (hk b hb)
  · subst hbp
    rw [Function.update_self, Option.some.injEq] at h₂
    rw [Function.update_of_ne hap, ← h₂] at h₁
    exact absurd h₁ (hk a ha)
  · rw [Function.update_of_ne hap] at h₁
    rw [Function.update_of_ne hbp] at h₂
    exact hd a ha b hb k' h₁ h₂

omit hhome in
theorem Distinct.remove (hd : Distinct n cell) (g : Nat) :
    Distinct n (Function.update cell g none) := by
  intro a ha b hb k h₁ h₂
  have hag : a ≠ g := fun h => by rw [h, Function.update_self] at h₁; cases h₁
  have hbg : b ≠ g := fun h => by rw [h, Function.update_self] at h₂; cases h₂
  rw [Function.update_of_ne hag] at h₁
  rw [Function.update_of_ne hbg] at h₂
  exact hd a ha b hb k h₁ h₂

omit hhome in
/-- A key put into the first free slot of its probe is reached, and fills no
other probe's way. -/
theorem Reach.insert (hr : Reach n home cell) {k : K} {p : Nat} (hc : Clear n home cell k p) :
    Reach n home (Function.update cell p (some k)) := by
  intro a ha k' h q hq hl
  by_cases hqp : q = p
  · subst hqp; simp
  rw [Function.update_of_ne hqp]
  by_cases hap : a = p
  · subst hap
    rw [Function.update_self, Option.some.injEq] at h
    subst h
    obtain ⟨k'', h'', -⟩ := hc q hq hl
    simp [h'']
  · rw [Function.update_of_ne hap] at h
    exact hr a ha k' h q hq hl

omit hhome in
theorem Reach.hole (hd : Distinct n cell) (hr : Reach n home cell) {g : Nat} (hg : g < n) :
    Holed n home (Function.update cell g none) g 1 where
  pos := Nat.one_pos
  distinct := hd.remove g
  gap := by simp
  reach := by
    intro p hp k h q hq hl hqg
    rw [Function.update_of_ne hqg]
    have hpg : p ≠ g := fun e => by rw [e, Function.update_self] at h; cases h
    rw [Function.update_of_ne hpg] at h
    exact hr p hp k h q hq hl
  done := by
    intro p hp k h hl
    have : p = g := eq_of_dist_eq hg hp hg (by rw [dist_self]; omega)
    rw [this, Function.update_self] at h; cases h

omit hhome in
/-- The hole that a deletion opens needs no repair when no probe passes over it. -/
theorem Reach.remove (hr : Reach n home cell) {g : Nat} (hg : Skipped n home cell g) :
    Reach n home (Function.update cell g none) := by
  intro p hp k h q hq hl
  have hpg : p ≠ g := fun e => by rw [e, Function.update_self] at h; cases h
  rw [Function.update_of_ne hpg] at h
  have hqg : q ≠ g := fun e => by
    have := hg p hp hpg k h
    rw [e] at hl
    omega
  rw [Function.update_of_ne hqg]
  exact hr p hp k h q hq hl

omit hhome in
/-- The key behind the hole whose probe crosses the hole: put back, it lands in
the hole, and the slot it left is the new hole. -/
theorem Holed.move {g d x : Nat} {k : K} (h : Holed n home cell g d) (hg : g < n) (hx : x < n)
    (hk : cell x = some k) (hl : dist n (home k) g < dist n (home k) x) :
    Clear n home (Function.update cell x none) k g ∧
      Holed n home (Function.update (Function.update cell x none) g (some k)) x 1 := by
  have hxg : g ≠ x := fun e => by rw [← e, h.gap] at hk; cases hk
  have hclear : ∀ q < n, dist n (home k) q < dist n (home k) g → q ≠ x ∧ q ≠ g ∧ cell q ≠ none := by
    intro q hq hlq
    have hqg : q ≠ g := fun e => by rw [e] at hlq; omega
    have hqx : q ≠ x := fun e => by rw [e] at hlq; omega
    exact ⟨hqx, hqg, h.reach x hx k hk q hq (by omega) hqg⟩
  refine ⟨?_, Nat.one_pos, ?_, ?_, ?_, ?_⟩
  · intro q hq hlq
    obtain ⟨hqx, -, hs⟩ := hclear q hq hlq
    rw [Function.update_of_ne hqx]
    obtain ⟨k', hk'⟩ := Option.ne_none_iff_exists'.mp hs
    refine ⟨k', hk', fun e => hqx ?_⟩
    rw [e] at hk'
    exact h.distinct q hq x hx k hk' hk
  · have := Classical.decEq K
    refine (h.distinct.remove x).insert fun q hq hqk => ?_
    have hqx : q ≠ x := fun e => by rw [e, Function.update_self] at hqk; cases hqk
    rw [Function.update_of_ne hqx] at hqk
    exact hqx (h.distinct q hq x hx k hqk hk)
  · rw [Function.update_of_ne hxg.symm, Function.update_self]
  · intro p hp k' hp' q hq hlq hqx
    by_cases hqg : q = g
    · subst hqg; simp
    rw [Function.update_of_ne hqg, Function.update_of_ne hqx]
    by_cases hpg : p = g
    · subst hpg
      rw [Function.update_self, Option.some.injEq] at hp'
      subst hp'
      exact (hclear q hq hlq).2.2
    · rw [Function.update_of_ne hpg] at hp'
      have hpx : p ≠ x := fun e => by rw [e, Function.update_self] at hp'; cases hp'
      rw [Function.update_of_ne hpx] at hp'
      exact h.reach p hp k' hp' q hq hlq hqg
  · intro p hp k' hp' hlp
    have hpx : p = x := eq_of_dist_eq hx hp hx (by rw [dist_self]; omega)
    rw [hpx, Function.update_of_ne hxg.symm, Function.update_self] at hp'
    cases hp'

omit hhome in
/-- A sum over the slots, when one of them is written. -/
theorem sum_update (f : Nat → Option K → Nat) {p : Nat} (hp : p < n) (o : Option K) :
    ∑ q ∈ Finset.range n, f q (Function.update cell p o q) + f p (cell p) =
      ∑ q ∈ Finset.range n, f q (cell q) + f p o := by
  rw [← Finset.add_sum_erase _ _ (Finset.mem_range.mpr hp),
    ← Finset.add_sum_erase (Finset.range n) (fun q => f q (cell q)) (Finset.mem_range.mpr hp)]
  have : ∑ q ∈ (Finset.range n).erase p, f q (Function.update cell p o q) =
      ∑ q ∈ (Finset.range n).erase p, f q (cell q) :=
    Finset.sum_congr rfl fun q hq => by rw [Function.update_of_ne (Finset.ne_of_mem_erase hq)]
  rw [this, Function.update_self]
  omega

omit hhome in
theorem displacement_update {p : Nat} (hp : p < n) (o : Option K) :
    displacement n home (Function.update cell p o) + away n home p (cell p) =
      displacement n home cell + away n home p o :=
  sum_update (away n home) hp o

omit hhome in
theorem weight_remove {p : Nat} {k : K} (hp : p < n) (hk : cell p = some k) :
    weight n home (Function.update cell p none) + (dist n (home k) p + 1) = weight n home cell := by
  have h : weight n home (Function.update cell p none) + load n home p (cell p) =
      weight n home cell + load n home p none := sum_update (load n home) hp none
  rw [hk] at h
  exact h

omit hhome in
theorem weight_insert {p : Nat} (hp : p < n) (hfree : cell p = none) (k : K) :
    weight n home (Function.update cell p (some k)) = weight n home cell + (dist n (home k) p + 1) := by
  have h : weight n home (Function.update cell p (some k)) + load n home p (cell p) =
      weight n home cell + load n home p (some k) := sum_update (load n home) hp (some k)
  rw [hfree] at h
  exact h

omit hhome in
theorem weight_le (hhome : ∀ k, home k < n) : weight n home cell ≤ n * n := by
  calc weight n home cell ≤ ∑ _p ∈ Finset.range n, n := by
        refine Finset.sum_le_sum fun p hp => ?_
        unfold load
        cases cell p with
        | none => exact Nat.zero_le _
        | some k => exact dist_lt (hhome k) (Finset.mem_range.mp hp)
    _ = n * n := by simp

omit hhome in
theorem displacement_move {g x : Nat} {k : K} (hg : g < n) (hx : x < n) (hgap : cell g = none)
    (hk : cell x = some k) (hl : dist n (home k) g < dist n (home k) x) :
    displacement n home (Function.update (Function.update cell x none) g (some k)) <
      displacement n home cell := by
  have hgx : g ≠ x := fun e => by rw [← e, hgap] at hk; cases hk
  have h₁ : displacement n home (Function.update cell x none) + away n home x (cell x) =
      displacement n home cell + away n home x none := displacement_update hx none
  have h₂ : displacement n home (Function.update (Function.update cell x none) g (some k)) +
      away n home g (Function.update cell x none g) =
      displacement n home (Function.update cell x none) + away n home g (some k) :=
    displacement_update hg (some k)
  rw [Function.update_of_ne hgx, hgap] at h₂
  rw [hk] at h₁
  simp only [away, Option.map_some, Option.map_none, Option.getD_some, Option.getD_none] at h₁ h₂
  omega

omit hhome in
theorem displacement_le (hhome : ∀ k, home k < n) : displacement n home cell ≤ n * n := by
  calc displacement n home cell ≤ ∑ _p ∈ Finset.range n, n := by
        refine Finset.sum_le_sum fun p hp => ?_
        unfold away
        cases cell p with
        | none => exact Nat.zero_le _
        | some k => exact Nat.le_of_lt (dist_lt (hhome k) (Finset.mem_range.mp hp))
    _ = n * n := by simp

omit hhome in
/-- The key behind the hole whose probe does not cross the hole: put back, it
lands where it was. -/
theorem Holed.stay {g d x : Nat} {k : K} (h : Holed n home cell g d) (hg : g < n) (hx : x < n)
    (hk : cell x = some k) (hd : dist n g x = d) (hl : ¬ dist n (home k) g < dist n (home k) x) :
    Clear n home (Function.update cell x none) k x ∧ Holed n home cell g (d + 1) := by
  constructor
  · intro q hq hlq
    have hqx : q ≠ x := fun e => by rw [e] at hlq; omega
    have hqg : q ≠ g := fun e => by rw [e] at hlq; omega
    rw [Function.update_of_ne hqx]
    obtain ⟨k', hk'⟩ := Option.ne_none_iff_exists'.mp (h.reach x hx k hk q hq hlq hqg)
    refine ⟨k', hk', fun e => hqx ?_⟩
    rw [e] at hk'
    exact h.distinct q hq x hx k hk' hk
  · refine ⟨by omega, h.distinct, h.gap, h.reach, fun p hp k' hp' hlp => ?_⟩
    rcases Nat.lt_or_ge (dist n g p) d with hlt | hge
    · exact h.done p hp k' hp' hlt
    · have hpx : p = x := eq_of_dist_eq hg hp hx (by omega)
      subst hpx
      rw [hk, Option.some.injEq] at hp'
      subst hp'
      omega

/-- The walk behind the hole has met a free slot: every probe is whole. -/
theorem Holed.close {g d x : Nat} (h : Holed n home cell g d) (hg : g < n) (hx : x < n)
    (hd : x = g ∧ d = n ∨ dist n g x = d) (hfree : cell x = none) : Reach n home cell := by
  intro p hp k hk q hq hl
  by_cases hqg : q = g
  · subst hqg
    exfalso
    rcases hd with ⟨-, rfl⟩ | hd
    · have := h.done p hp k hk (dist_lt hq hp)
      omega
    rcases Nat.lt_trichotomy (dist n q p) d with hlt | he | hgt
    · have := h.done p hp k hk hlt
      omega
    · rw [eq_of_dist_eq hq hp hx (by omega), hfree] at hk; cases hk
    -- the free slot lies between the hole and `p`, on the way from `home k`
    · have hp' := dist_add (hhome k) hq hp (by omega)
      have hx' : dist n (home k) x = dist n (home k) q + dist n q x :=
        dist_between (hhome k) hq hp (by omega) (by omega)
      have hxq : x ≠ q := fun e => by rw [e, dist_self] at hd; have := h.pos; omega
      exact h.reach p hp k hk x hx (by omega) hxq hfree
  · exact h.reach p hp k hk q hq hl hqg

end

end Probing
