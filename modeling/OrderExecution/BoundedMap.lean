import Mathlib.Data.Finmap

/-!
# Bounded finite maps

A finite map with room for `cap` keys: a key that is not there is refused once
`cap` others are.
-/

namespace BoundedMap

inductive Op (α β : Type) where
  | set (key : α) (value : β)
  | erase (key : α)
  | clear

section
variable {α β : Type} [DecidableEq α]

/-- One call, and what `erase` answers: whether the key was there. -/
def call (cap : Nat) (M : Finmap fun _ : α => β) : Op α β → (Finmap fun _ : α => β) × Option Bool
  | .set k v => (if k ∈ M ∨ M.keys.card < cap then M.insert k v else M, none)
  | .erase k => (M.erase k, some (k ∈ M))
  | .clear => (∅, none)

theorem mem_iff_lookup_ne {M : Finmap fun _ : α => β} {k : α} : k ∈ M ↔ M.lookup k ≠ none := by
  rw [ne_eq, Finmap.lookup_eq_none, not_not]

theorem coe_eq_entries {γ : Type} {M : Finmap fun _ : α => β} {f : α → γ} (hf : Function.Injective f)
    {l : List (γ × β)} (hl : l.Nodup) (hkey : ∀ e ∈ l, ∃ k, f k = e.1)
    (hmem : ∀ k v, (f k, v) ∈ l ↔ M.lookup k = some v) :
    (l : Multiset (γ × β)) = M.entries.map fun e => (f e.1, e.2) := by
  have hinj : Function.Injective fun e : Sigma fun _ : α => β => (f e.1, e.2) := by
    rintro ⟨k, v⟩ ⟨k', v'⟩ he
    obtain ⟨h₁, h₂⟩ := Prod.mk.inj he
    obtain rfl := hf h₁
    obtain rfl : v = v' := h₂
    rfl
  refine (Multiset.Nodup.ext (Multiset.coe_nodup.mpr hl) ((Finmap.nodup_entries M).map hinj)).mpr ?_
  rintro ⟨x, v⟩
  rw [Multiset.mem_coe, Multiset.mem_map]
  constructor
  · intro h
    obtain ⟨k, rfl⟩ := hkey _ h
    exact ⟨⟨k, v⟩, Finmap.mem_lookup_iff.mp ((hmem k v).mp h), rfl⟩
  · rintro ⟨⟨k, w⟩, hk, he⟩
    obtain ⟨rfl, rfl⟩ := Prod.mk.inj he
    exact (hmem k w).mpr (Finmap.mem_lookup_iff.mpr hk)

end

end BoundedMap
