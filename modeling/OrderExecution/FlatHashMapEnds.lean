import OrderExecution.FlatHashMapSound
import Mathlib.Logic.Function.Iterate

/-!
# `FlatHashMap::erase` ends on every table

The table may be full, its probes broken and its keys doubled. A round of the
re-insertion loop lightens the table, or leaves every key in its slot and goes
one slot on towards a free one.
-/

namespace OrderExecution
namespace FlatHashMap

open Probing

variable {V : Type} [Zero V] {CAP : Nat} {hash : Bytes → Nat}

section
variable (hash)

/-- The body of the loop: the entry at `next` is taken out and inserted again. -/
def rehashRound (t : FlatHashMap V CAP × Nat) : FlatHashMap V CAP × Nat :=
  let s := t.1.slot t.2
  let vacated := { t.1.setSlot t.2 { s with key := .empty, occupied := false } with size := t.1.size - 1 }
  ((vacated.update hash s.value s.key.bytes fun _ => s.value).1, (t.2 + 1) % CAP)

/-- The table and `next` where the loop begins, the entry of `pos` being erased. -/
def rehashStart (m : FlatHashMap V CAP) (pos : Nat) : FlatHashMap V CAP × Nat :=
  ({ m.setSlot pos ⟨.empty, 0, false⟩ with size := m.size - 1 }, (pos + 1) % CAP)

end

/-- The condition of the loop. -/
def Continues (t : FlatHashMap V CAP × Nat) : Prop := (t.1.slot t.2).occupied = true

theorem rehash_of_iterate (n : Nat) : ∀ (t : FlatHashMap V CAP × Nat) (fuel : Nat), n ≤ fuel →
    (∀ i < n, Continues ((rehashRound hash)^[i] t)) → ¬ Continues ((rehashRound hash)^[n] t) →
    t.1.rehash hash fuel t.2 = ((rehashRound hash)^[n] t).1 := by
  induction n with
  | zero =>
    intro t fuel _ _ hn
    cases fuel with
    | zero => rfl
    | succ fuel => exact if_neg hn
  | succ n ih =>
    intro t fuel hf hi hn
    obtain ⟨fuel, rfl⟩ : ∃ f, fuel = f + 1 := ⟨fuel - 1, by omega⟩
    have h0 : Continues t := hi 0 (by omega)
    have hround : t.1.rehash hash (fuel + 1) t.2 =
        (rehashRound hash t).1.rehash hash fuel (rehashRound hash t).2 := if_pos h0
    rw [hround]
    exact ih (rehashRound hash t) fuel (by omega) (fun i h => hi (i + 1) (by omega)) hn

/-- A round leaves every key in its slot, or vacates `x` and lightens the table. -/
theorem rehashRound_cell (hash : Bytes → Nat) (hcap : 0 < CAP) {m : FlatHashMap V CAP} {x : Nat} {k : Bytes}
    (hx : x < CAP) (hk : m.cell x = some k) :
    (rehashRound hash (m, x)).1.cell = m.cell ∨
      (rehashRound hash (m, x)).1.cell x = none ∧
        weight CAP (home hash CAP) (rehashRound hash (m, x)).1.cell < weight CAP (home hash CAP) m.cell := by
  obtain ⟨-, hkey⟩ := cell_eq_some.mp hk
  let s := m.slot x
  let v : FlatHashMap V CAP :=
    { m.setSlot x { s with key := .empty, occupied := false } with size := m.size - 1 }
  have hv : v.cell = Function.update m.cell x none := by
    simp only [v, cell_size, cell_setSlot hx]; simp [entryOf]
  have hround : (rehashRound hash (m, x)).1 = (v.update hash s.value s.key.bytes fun _ => s.value).1 := rfl
  have hremove : weight CAP (home hash CAP) (Function.update m.cell x none) +
      (dist CAP (home hash CAP k) x + 1) = weight CAP (home hash CAP) m.cell := weight_remove hx hk
  have hs := probe_stops hash hcap v s.key.bytes
  rw [hround]
  cases hpr : v.probe hash s.key.bytes with
  | full =>
    -- the slot `x` is free
    rw [hpr] at hs
    obtain ⟨k', hk', -⟩ := hs x hx
    rw [hv, Function.update_self] at hk'
    cases hk'
  | free y =>
    rw [hpr] at hs
    obtain ⟨hy, hfree, hclear⟩ := hs
    have hcell : (v.update hash s.value s.key.bytes fun _ => s.value).1.cell =
        Function.update (Function.update m.cell x none) y (some k) := by
      rw [update_free hash hy hpr, cell_size, cell_setSlot hy, hv, CStr.copy_bytes_self]
      simp [entryOf, s, hkey]
    rw [hcell]
    by_cases hyx : y = x
    · subst hyx
      exact .inl (by rw [Function.update_idem, ← hk, Function.update_eq_self])
    · refine .inr ⟨by rw [Function.update_of_ne (Ne.symm hyx), Function.update_self], ?_⟩
      rw [hv] at hfree hclear
      have hinsert : weight CAP (home hash CAP) (Function.update (Function.update m.cell x none) y (some k)) =
          weight CAP (home hash CAP) (Function.update m.cell x none) + (dist CAP (home hash CAP k) y + 1) :=
        weight_insert hy hfree k
      -- the probe stopped before the free slot `x`
      have hnear : dist CAP (home hash CAP k) y < dist CAP (home hash CAP k) x := by
        rw [show s.key.bytes = k from hkey] at hclear
        rcases Nat.lt_trichotomy (dist CAP (home hash CAP k) y) (dist CAP (home hash CAP k) x) with h | h | h
        · exact h
        · exact absurd (eq_of_dist_eq (home_lt hash hcap k) hy hx h) hyx
        · obtain ⟨k', hk', -⟩ := hclear x hx h
          rw [Function.update_self] at hk'
          cases hk'
      omega
  | found y =>
    rw [hpr] at hs
    obtain ⟨hy, hfound, -⟩ := hs
    have hcell : (v.update hash s.value s.key.bytes fun _ => s.value).1.cell = v.cell := by
      obtain ⟨ho, hkey'⟩ := cell_eq_some.mp hfound
      rw [update_found hash hpr, cell_setSlot hy, Function.update_eq_self_iff, hfound]
      simp [entryOf, ho, hkey']
    rw [hcell, hv]
    exact .inr ⟨Function.update_self .., by omega⟩

/-- From a table with a free slot, `d` slots on, the loop comes to an end. -/
theorem rehash_ends (hcap : 0 < CAP) (r : Nat) : ∀ (t : FlatHashMap V CAP × Nat) (d : Nat), t.2 < CAP →
    d < CAP → t.1.cell ((t.2 + d) % CAP) = none → weight CAP (home hash CAP) t.1.cell * CAP + d ≤ r →
    ∃ n ≤ r, (∀ i < n, Continues ((rehashRound hash)^[i] t)) ∧ ¬ Continues ((rehashRound hash)^[n] t) := by
  induction r with
  | zero =>
    intro t d ht _ hfree hr
    obtain rfl : d = 0 := by omega
    rw [Nat.add_zero, Nat.mod_eq_of_lt ht] at hfree
    exact ⟨0, Nat.le_refl _, fun i hi => absurd hi (Nat.not_lt_zero i), by
      simpa [Continues] using cell_eq_none.mp hfree⟩
  | succ r ih =>
    intro t d ht hd hfree hr
    by_cases hc : Continues t
    · obtain ⟨m, x⟩ := t
      have hx : x < CAP := ht
      have hk : m.cell x = some (m.slot x).key.bytes := cell_eq_some.mpr ⟨hc, rfl⟩
      have hnext : (x + 1) % CAP < CAP := Nat.mod_lt _ hcap
      have step : ∃ d', d' < CAP ∧
          (rehashRound hash (m, x)).1.cell (((x + 1) % CAP + d') % CAP) = none ∧
          weight CAP (home hash CAP) (rehashRound hash (m, x)).1.cell * CAP + d' ≤ r := by
        rcases rehashRound_cell hash hcap hx hk with hsame | ⟨hgap, hless⟩
        · -- the free slot is one slot nearer
          obtain ⟨d, rfl⟩ : ∃ e, d = e + 1 := by
            cases d with
            | zero => rw [Nat.add_zero, Nat.mod_eq_of_lt hx, hk] at hfree; cases hfree
            | succ e => exact ⟨e, rfl⟩
          refine ⟨d, by omega, ?_, ?_⟩
          · rw [hsame, Nat.mod_add_mod, Nat.add_assoc, Nat.add_comm 1 d]
            exact hfree
          · rw [hsame]
            simp only at hr
            omega
        · -- the vacated slot is the farthest
          refine ⟨CAP - 1, by omega, ?_, ?_⟩
          · rw [Nat.mod_add_mod, show x + 1 + (CAP - 1) = x + CAP by omega, Nat.add_mod_right,
              Nat.mod_eq_of_lt hx]
            exact hgap
          · have := Nat.mul_le_mul_right CAP (Nat.succ_le_of_lt hless)
            rw [Nat.succ_mul] at this
            simp only at hr
            omega
      obtain ⟨d', hd', hfree', hr'⟩ := step
      obtain ⟨n, hn, hi, hstop⟩ := ih (rehashRound hash (m, x)) d' hnext hd' hfree' hr'
      refine ⟨n + 1, by omega, fun i h => ?_, hstop⟩
      cases i with
      | zero => exact hc
      | succ i => exact hi i (by omega)
    · exact ⟨0, Nat.zero_le _, fun i hi => absurd hi (Nat.not_lt_zero i), hc⟩

/-- `erase` returns on every table: its loop comes to an unoccupied slot, and
`rehashFuel` covers its rounds. -/
theorem erase_terminates (hcap : 0 < CAP) (hash : Bytes → Nat) (m : FlatHashMap V CAP) (key : Bytes) :
    (∀ pos, m.probe hash key = .found pos → ∃ n ≤ rehashFuel CAP,
      (∀ i < n, Continues ((rehashRound hash)^[i] (m.rehashStart pos))) ∧
      ¬ Continues ((rehashRound hash)^[n] (m.rehashStart pos)) ∧
      m.erase hash key = (((rehashRound hash)^[n] (m.rehashStart pos)).1, true)) ∧
    ((∀ pos, m.probe hash key ≠ .found pos) → m.erase hash key = (m, false)) := by
  refine ⟨fun pos hpos => ?_, fun h => ?_⟩
  · have hs := probe_stops hash hcap m key
    rw [hpos] at hs
    obtain ⟨hp, -, -⟩ := hs
    have hgap : (m.rehashStart pos).1.cell pos = none := by
      simp only [rehashStart, cell_size, cell_setSlot hp]; simp [entryOf]
    have hwhere : ((m.rehashStart pos).2 + (CAP - 1)) % CAP = pos := by
      show ((pos + 1) % CAP + (CAP - 1)) % CAP = pos
      rw [Nat.mod_add_mod, show pos + 1 + (CAP - 1) = pos + CAP by omega, Nat.add_mod_right, Nat.mod_eq_of_lt hp]
    have hfuel : weight CAP (home hash CAP) (m.rehashStart pos).1.cell * CAP + (CAP - 1) ≤ rehashFuel CAP := by
      have hle : weight CAP (home hash CAP) (m.rehashStart pos).1.cell ≤ CAP * CAP := weight_le (home_lt hash hcap)
      have := Nat.mul_le_mul_right CAP hle
      unfold rehashFuel
      omega
    obtain ⟨n, hn, hi, hstop⟩ := rehash_ends hcap (rehashFuel CAP) (m.rehashStart pos) (CAP - 1)
      (Nat.mod_lt _ hcap) (by omega) (by rw [hwhere]; exact hgap) hfuel
    refine ⟨n, hn, hi, hstop, ?_⟩
    rw [← rehash_of_iterate n _ _ hn hi hstop]
    simp only [erase, hpos, rehashStart]
  · unfold erase
    cases hpr : m.probe hash key with
    | found pos => exact absurd hpr (h pos)
    | free _ => rfl
    | full => rfl

end FlatHashMap

namespace Sample

open FlatHashMap

/-- Every slot is taken, and by one key. -/
def crowded : FlatHashMap ℚ 3 := ⟨Vector.replicate 3 ⟨.copy 31 (lit "ETH"), 1, true⟩, 3⟩

theorem erase_terminates_crowded : ∃ n ≤ rehashFuel 3,
    (∀ i < n, Continues ((rehashRound hashKey)^[i] (crowded.rehashStart 2))) ∧
    ¬ Continues ((rehashRound hashKey)^[n] (crowded.rehashStart 2)) ∧
    crowded.erase hashKey (lit "ETH") = (((rehashRound hashKey)^[n] (crowded.rehashStart 2)).1, true) :=
  (erase_terminates (by decide) hashKey crowded (lit "ETH")).1 2 (by decide +kernel)

end Sample

end OrderExecution
