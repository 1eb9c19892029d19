import Mathlib.Data.List.Basic

/-!
# Positions on a ring

Positions count without end, and `p % n` is the slot of `p` in a ring of `n`.
Within a round every slot has one position. What happened at the positions so
far is a list that grows at its end.
-/

namespace Ring

variable {n m p q : Nat}

/-- Less than a round apart, two positions of one slot are one. -/
theorem eq_of_mod_eq (h : p % n = q % n) (hle : q ≤ p) (hlt : p < q + n) : p = q := by
  have hmod := Nat.sub_mod_eq_zero_of_mod_eq h
  rw [Nat.mod_eq_of_lt (by omega)] at hmod
  omega

/-- In the round from `m`, a slot has one position. -/
theorem eq_of_round (h : p % n = q % n) (hp : m ≤ p) (hq : m ≤ q) (hp' : p < m + n) (hq' : q < m + n) : p = q := by
  rcases Nat.le_total p q with hle | hle
  · exact (eq_of_mod_eq h.symm hle (by omega)).symm
  · exact eq_of_mod_eq h hle (by omega)

/-- The position in the round from `m` of the slot of a later one. -/
theorem exists_round (hn : 0 < n) (h : m ≤ p) : ∃ q, q % n = p % n ∧ m ≤ q ∧ q < m + n := by
  refine ⟨m + (p - m) % n, ?_, Nat.le_add_right .., ?_⟩
  · rw [Nat.add_mod_mod, Nat.add_sub_cancel' h]
  · exact Nat.add_lt_add_left (Nat.mod_lt _ hn) m

variable {α : Type} {l l' : List α} {a : α}

theorem getElem?_concat_of_some (h : l[p]? = some a) (b : α) : (l ++ [b])[p]? = some a := by
  rw [List.getElem?_append_left (List.getElem?_eq_some_iff.mp h).1]
  exact h

/-- A prefix and the item after it. -/
theorem prefix_concat_of_some (h : l <+: l') (ha : l'[l.length]? = some a) : l ++ [a] <+: l' := by
  obtain ⟨rest, rfl⟩ := h
  cases rest with
  | nil => simp at ha
  | cons b rest =>
    simp only [List.getElem?_append_right (Nat.le_refl _), Nat.sub_self, List.getElem?_cons_zero,
      Option.some.injEq] at ha
    exact ⟨rest, by rw [ha]; simp⟩

end Ring
