import OrderExecution.FlatHashMap
import OrderExecution.Probing
import Mathlib.Algebra.BigOperators.Group.List.Basic
import Mathlib.Tactic.Linarith

/-!
# `FlatHashMap` is a bounded finite map

`Wf` is the probing invariant: distinct keys, each reached by its probe. Under
it `find` reads the entry list, `update` changes or adds one entry while there
is room, and `erase` removes one and keeps all others, also when every slot is
occupied and the re-insertion loop circles the array.
-/

namespace OrderExecution

namespace FlatHashMap

open Probing

theorem filterMap_set_perm {α β : Type} (f : α → Option β) (a : α) :
    ∀ (l : List α) (i : Nat) (h : i < l.length),
      ((l.set i a).filterMap f ++ (f l[i]).toList).Perm (l.filterMap f ++ (f a).toList)
  | [], i, h => absurd h (Nat.not_lt_zero i)
  | b :: l, 0, _ => by
    simp only [List.set_cons_zero, List.getElem_cons_zero, List.filterMap_cons]
    cases f a with
    | none =>
      cases f b with
      | none => exact List.Perm.refl _
      | some y => simp
    | some x =>
      cases f b with
      | none => simpa using (List.perm_append_singleton x (l.filterMap f)).symm
      | some y =>
        simp only [Option.toList_some, List.cons_append]
        exact ((List.perm_append_singleton y _).cons x).trans
          ((List.Perm.swap _ _ _).trans ((List.perm_append_singleton x _).symm.cons y))
  | b :: l, i + 1, h => by
    have ih := filterMap_set_perm f a l i (by simpa using h)
    simp only [List.set_cons_succ, List.getElem_cons_succ, List.filterMap_cons]
    cases f b with
    | none => exact ih
    | some y => exact ih.cons y

variable {V : Type} [Zero V] {CAP : Nat}

/-- The key in slot `p`, if it is occupied. -/
def cell (m : FlatHashMap V CAP) (p : Nat) : Option Bytes := (entryOf (m.slot p)).map Prod.fst

/-! ## Slots -/

theorem slot_setSlot_self {m : FlatHashMap V CAP} {p : Nat} (hp : p < CAP) (s : Slot V) :
    (m.setSlot p s).slot p = s := by
  simp [slot, setSlot, hp]

theorem slot_setSlot_ne {m : FlatHashMap V CAP} {p q : Nat} (hq : q ≠ p) (s : Slot V) :
    (m.setSlot p s).slot q = m.slot q := by
  simp [slot, setSlot, Vector.getElem?_setIfInBounds_ne, hq.symm]

@[simp] theorem slot_size (m : FlatHashMap V CAP) (n p : Nat) :
    ({ m with size := n } : FlatHashMap V CAP).slot p = m.slot p := rfl

@[simp] theorem cell_size (m : FlatHashMap V CAP) (n : Nat) :
    ({ m with size := n } : FlatHashMap V CAP).cell = m.cell := rfl

omit [Zero V] in
@[simp] theorem entries_size (m : FlatHashMap V CAP) (n : Nat) :
    ({ m with size := n } : FlatHashMap V CAP).entries = m.entries := rfl

omit [Zero V] in
@[simp] theorem size_setSlot (m : FlatHashMap V CAP) (p : Nat) (s : Slot V) :
    (m.setSlot p s).size = m.size := rfl

theorem cell_setSlot {m : FlatHashMap V CAP} {p : Nat} (hp : p < CAP) (s : Slot V) :
    (m.setSlot p s).cell = Function.update m.cell p ((entryOf s).map Prod.fst) := by
  funext q
  unfold cell
  by_cases h : q = p
  · subst h; rw [slot_setSlot_self hp, Function.update_self]
  · rw [slot_setSlot_ne h, Function.update_of_ne h]

theorem cell_eq_none {m : FlatHashMap V CAP} {p : Nat} : m.cell p = none ↔ (m.slot p).occupied = false := by
  unfold cell entryOf; split <;> simp_all

theorem cell_eq_some {m : FlatHashMap V CAP} {p : Nat} {k : Bytes} :
    m.cell p = some k ↔ (m.slot p).occupied = true ∧ (m.slot p).key.bytes = k := by
  unfold cell entryOf; split <;> simp_all

theorem entries_setSlot {m : FlatHashMap V CAP} {p : Nat} (hp : p < CAP) (s : Slot V) :
    ((m.setSlot p s).entries ++ (entryOf (m.slot p)).toList).Perm
      (m.entries ++ (entryOf s).toList) := by
  have hl : p < m.slots.toList.length := by simpa using hp
  have := filterMap_set_perm entryOf s m.slots.toList p hl
  have hs : m.slot p = m.slots.toList[p] := by simp [slot, hp]
  rw [hs]
  simpa only [entries, setSlot, Vector.toList_setIfInBounds] using this

theorem entries_put {m : FlatHashMap V CAP} {p : Nat} (hp : p < CAP) (hfree : m.cell p = none)
    {s : Slot V} {e : Bytes × V} (hs : entryOf s = some e) :
    (m.setSlot p s).entries.Perm (e :: m.entries) := by
  have := entries_setSlot (m := m) hp s
  rw [cell, Option.map_eq_none_iff] at hfree
  rw [hfree, hs, Option.toList_none, List.append_nil] at this
  exact this.trans (List.perm_append_singleton ..)

theorem entries_take {m : FlatHashMap V CAP} {p : Nat} (hp : p < CAP) {e : Bytes × V}
    (he : entryOf (m.slot p) = some e) {s : Slot V} (hs : entryOf s = none) :
    m.entries.Perm (e :: (m.setSlot p s).entries) := by
  have := entries_setSlot (m := m) hp s
  rw [he, hs, Option.toList_none, List.append_nil] at this
  exact this.symm.trans (List.perm_append_singleton ..)

theorem entries_replace {m : FlatHashMap V CAP} {p : Nat} (hp : p < CAP) {e f : Bytes × V}
    (he : entryOf (m.slot p) = some e) {s : Slot V} (hs : entryOf s = some f)
    {rest : List (Bytes × V)} (hr : m.entries.Perm (e :: rest)) :
    (m.setSlot p s).entries.Perm (f :: rest) := by
  have := entries_setSlot (m := m) hp s
  rw [he, hs] at this
  have := ((List.perm_append_singleton ..).symm.trans this).trans
    ((hr.append_right _).trans (List.perm_append_singleton ..))
  exact (this.trans (List.Perm.swap ..)).cons_inv

theorem slot_mem_toList {m : FlatHashMap V CAP} {p : Nat} (hp : p < CAP) : m.slot p ∈ m.slots.toList := by
  have : m.slots.toList[p]? = some (m.slot p) := by simp [slot, hp]
  exact List.mem_of_getElem? this

theorem mem_entries {m : FlatHashMap V CAP} {k : Bytes} {v : V} :
    (k, v) ∈ m.entries ↔ ∃ p < CAP, m.cell p = some k ∧ (m.slot p).value = v := by
  simp only [entries, List.mem_filterMap]
  constructor
  · rintro ⟨s, hs, h⟩
    obtain ⟨p, hp, rfl⟩ := List.getElem_of_mem hs
    have hp' : p < CAP := by simpa using hp
    have he : m.slots.toList[p] = m.slot p := by simp [slot, hp']
    rw [he] at h
    refine ⟨p, hp', ?_⟩
    unfold entryOf at h
    split at h
    · next ho =>
      simp only [Option.some.injEq, Prod.mk.injEq] at h
      exact ⟨cell_eq_some.mpr ⟨ho, h.1⟩, h.2⟩
    · cases h
  · rintro ⟨p, hp, hc, hv⟩
    refine ⟨m.slot p, slot_mem_toList hp, ?_⟩
    rw [cell_eq_some] at hc
    simp [entryOf, hc.1, hc.2, hv]

/-! ## The probing loop -/

variable (hash : Bytes → Nat)

/-- The slot a probe starts at. -/
def home (CAP : Nat) (key : Bytes) : Nat := hash key % CAP

theorem home_lt (hcap : 0 < CAP) (key : Bytes) : home hash CAP key < CAP := Nat.mod_lt _ hcap

/-- What the slot a probe stops at tells. -/
def Stops (m : FlatHashMap V CAP) (key : Bytes) : Probe → Prop
  | .free p => p < CAP ∧ m.cell p = none ∧ Clear CAP (home hash CAP) m.cell key p
  | .found p => p < CAP ∧ m.cell p = some key ∧ Clear CAP (home hash CAP) m.cell key p
  | .full => ∀ q < CAP, ∃ k', m.cell q = some k' ∧ k' ≠ key

theorem probeFrom_stops (hcap : 0 < CAP) (m : FlatHashMap V CAP) (key : Bytes) :
    ∀ r i, i + r = CAP →
      (∀ q < CAP, dist CAP (home hash CAP key) q < i → ∃ k', m.cell q = some k' ∧ k' ≠ key) →
      Stops hash m key (m.probeFrom key (home hash CAP key) i r)
  | 0, i, hi, hpass => fun q hq => hpass q hq (by have := dist_lt (home_lt hash hcap key) hq; omega)
  | r + 1, i, hi, hpass => by
    have hh := home_lt hash hcap key
    have hpos : (home hash CAP key + i) % CAP < CAP := Nat.mod_lt _ hcap
    have hdist := dist_add_mod hh (show i < CAP by omega)
    have hclear : Clear CAP (home hash CAP) m.cell key ((home hash CAP key + i) % CAP) :=
      fun q hq hl => hpass q hq (by rw [hdist] at hl; exact hl)
    unfold probeFrom
    cases ho : (m.slot ((home hash CAP key + i) % CAP)).occupied with
    | false => simpa [Stops, ho, cell_eq_none] using ⟨hpos, hclear⟩
    | true =>
      by_cases hk : (m.slot ((home hash CAP key + i) % CAP)).key.bytes = key
      · simpa [Stops, ho, hk, cell_eq_some] using ⟨hpos, hclear⟩
      · simp only [ho, Bool.not_true, Bool.false_eq_true, ite_false, hk]
        refine probeFrom_stops hcap m key r (i + 1) (by omega) fun q hq hl => ?_
        rcases Nat.lt_or_ge (dist CAP (home hash CAP key) q) i with hlt | hge
        · exact hpass q hq hlt
        · have : q = (home hash CAP key + i) % CAP := eq_of_dist_eq hh hq hpos (by omega)
          exact ⟨_, cell_eq_some.mpr ⟨this ▸ ho, rfl⟩, this ▸ hk⟩

theorem probe_stops (hcap : 0 < CAP) (m : FlatHashMap V CAP) (key : Bytes) :
    Stops hash m key (m.probe hash key) :=
  probeFrom_stops hash hcap m key CAP 0 (by omega) fun _ _ h => absurd h (Nat.not_lt_zero _)

section
variable {hash}

theorem probe_eq_free (hcap : 0 < CAP) {m : FlatHashMap V CAP} {key : Bytes} {p : Nat} (hp : p < CAP)
    (hfree : m.cell p = none) (hc : Clear CAP (home hash CAP) m.cell key p) :
    m.probe hash key = .free p := by
  have hh := home_lt hash hcap key
  have hs := probe_stops hash hcap m key
  cases hpr : m.probe hash key with
  | full =>
    rw [hpr] at hs
    obtain ⟨k', hk', -⟩ := hs p hp
    rw [hfree] at hk'; cases hk'
  | free x =>
    rw [hpr] at hs
    obtain ⟨hx, hxf, hxc⟩ := hs
    rcases Nat.lt_trichotomy (dist CAP (home hash CAP key) x) (dist CAP (home hash CAP key) p) with h | h | h
    · obtain ⟨k', hk', -⟩ := hc x hx h
      rw [hxf] at hk'; cases hk'
    · rw [eq_of_dist_eq hh hx hp h]
    · obtain ⟨k', hk', -⟩ := hxc p hp h
      rw [hfree] at hk'; cases hk'
  | found x =>
    rw [hpr] at hs
    obtain ⟨hx, hxf, hxc⟩ := hs
    rcases Nat.lt_trichotomy (dist CAP (home hash CAP key) x) (dist CAP (home hash CAP key) p) with h | h | h
    · obtain ⟨k', hk', hne⟩ := hc x hx h
      rw [hxf, Option.some.injEq] at hk'
      exact absurd hk'.symm hne
    · rw [eq_of_dist_eq hh hx hp h, hfree] at hxf; cases hxf
    · obtain ⟨k', hk', -⟩ := hxc p hp h
      rw [hfree] at hk'; cases hk'

end

/-! ## Writing through a probe that stops at a free slot -/

theorem update_free {m : FlatHashMap V CAP} {key : Bytes} {p : Nat} (hp : p < CAP)
    (h : m.probe hash key = .free p) (dummy : V) (f : V → V) :
    m.update hash dummy key f =
      ({ m.setSlot p ⟨.copy 31 key, f (m.slot p).value, true⟩ with size := m.size + 1 }, dummy) := by
  simp only [update, getOrInsert, h, slot_size, slot_setSlot_self hp]
  simp [setSlot]

theorem update_found {m : FlatHashMap V CAP} {key : Bytes} {p : Nat}
    (h : m.probe hash key = .found p) (dummy : V) (f : V → V) :
    m.update hash dummy key f = (m.setSlot p { m.slot p with value := f (m.slot p).value }, dummy) := by
  simp only [update, getOrInsert, h]

theorem update_full {m : FlatHashMap V CAP} {key : Bytes} (h : m.probe hash key = .full)
    (dummy : V) (f : V → V) : m.update hash dummy key f = (m, f dummy) := by
  simp only [update, getOrInsert, h]

/-! ## The re-insertion loop of `erase` -/

/-- One round of the loop: the entry of slot `x` is taken out and put into the
free slot `y` where its probe stops. -/
theorem rehash_round {m : FlatHashMap V CAP} {x y : Nat} {k : Bytes} (hcap : 0 < CAP)
    (hx : x < CAP) (hy : y < CAP) (hk : m.cell x = some k) (hsize : 0 < m.size)
    (hfree : Function.update m.cell x none y = none)
    (hc : Clear CAP (home hash CAP) (Function.update m.cell x none) k y) :
    ∃ m' : FlatHashMap V CAP,
      (∀ fuel, m.rehash hash (fuel + 1) x = m'.rehash hash fuel ((x + 1) % CAP)) ∧
      m'.cell = Function.update (Function.update m.cell x none) y (some k) ∧
      m'.entries.Perm m.entries ∧ m'.size = m.size := by
  obtain ⟨ho, hkey⟩ := cell_eq_some.mp hk
  let s := m.slot x
  let v : FlatHashMap V CAP :=
    { m.setSlot x { s with key := .empty, occupied := false } with size := m.size - 1 }
  have hv : v.cell = Function.update m.cell x none := by
    simp only [v, cell_size, cell_setSlot hx]; simp [entryOf]
  have hpr : v.probe hash s.key.bytes = .free y := by
    rw [show s.key.bytes = k from hkey]
    exact probe_eq_free hcap hy (hv ▸ hfree) (hv ▸ hc)
  have hcopy : CStr.copy 31 s.key.bytes = s.key := CStr.copy_bytes_self _
  refine ⟨(v.update hash s.value s.key.bytes fun _ => s.value).1, ?_, ?_, ?_, ?_⟩
  · intro fuel
    simp only [rehash, ho, ite_true, v, s]
  · rw [update_free hash hy hpr, cell_size, cell_setSlot hy, hv, hcopy]
    simp [entryOf, s, hkey]
  · rw [update_free hash hy hpr, entries_size, hcopy]
    have hs : entryOf s = some (s.key.bytes, s.value) := by simp [entryOf, s, ho]
    have hput := entries_put (m := v) hy (hv ▸ hfree) (s := ⟨s.key, s.value, true⟩)
      (e := (s.key.bytes, s.value)) (by simp [entryOf])
    have htake := entries_take hx hs (s := { s with key := .empty, occupied := false }) (by simp [entryOf])
    exact hput.trans htake.symm
  · rw [update_free hash hy hpr]
    show v.size + 1 = m.size
    simp only [v]
    omega

/-- The loop closes the hole and then ends: every probe is whole again and no
entry is lost, also when the table was full and the loop has to circle it. -/
theorem rehash_sound (hcap : 0 < CAP) :
    ∀ (fuel : Nat) (m : FlatHashMap V CAP) (g d x : Nat), Holed CAP (home hash CAP) m.cell g d →
      g < CAP → x < CAP → (x = g ∧ d = CAP ∨ dist CAP g x = d ∧ d < CAP) →
      (∀ p < CAP, m.cell p ≠ none → 0 < m.size) →
      displacement CAP (home hash CAP) m.cell * CAP + (CAP - d) ≤ fuel →
      Reach CAP (home hash CAP) (m.rehash hash fuel x).cell ∧
        Distinct CAP (m.rehash hash fuel x).cell ∧ (m.rehash hash fuel x).entries.Perm m.entries ∧
        (m.rehash hash fuel x).size = m.size ∧ ∀ more, m.rehash hash (fuel + more) x = m.rehash hash fuel x
  | 0, m, g, d, x, h, hg, hx, hd, _, hf => by
    -- the bound leaves no fuel only once the walk is back at the hole
    have hxg : x = g ∧ d = CAP := by
      rcases hd with hd | hd
      · exact hd
      · omega
    have hfree : m.cell x = none := hxg.1 ▸ h.gap
    refine ⟨?_, h.distinct, List.Perm.refl _, rfl, fun more => ?_⟩
    · exact h.close (home_lt hash hcap) hg hx (.inl hxg) hfree
    · cases more with
      | zero => rfl
      | succ n =>
        rw [Nat.zero_add]
        simp only [rehash, cell_eq_none.mp hfree, Bool.false_eq_true, ite_false]
  | fuel + 1, m, g, d, x, h, hg, hx, hd, hs, hf => by
    cases hk : m.cell x with
    | none =>
      -- the loop stops at the first free slot
      have ho : (m.slot x).occupied = false := cell_eq_none.mp hk
      have hstop : ∀ n, m.rehash hash (n + 1) x = m := fun n => by
        simp only [rehash, ho, Bool.false_eq_true, ite_false]
      rw [hstop]
      refine ⟨h.close (home_lt hash hcap) hg hx ?_ hk, h.distinct, List.Perm.refl _, rfl, fun more => ?_⟩
      · exact hd.imp id And.left
      · rw [Nat.add_right_comm, hstop]
    | some k =>
      have hxg : x ≠ g := fun e => by rw [e, h.gap] at hk; cases hk
      obtain ⟨hdist, hdlt⟩ : dist CAP g x = d ∧ d < CAP := hd.resolve_left fun e => hxg e.1
      have hsz := hs x hx (by simp [hk])
      have hnext : (x + 1) % CAP < CAP := Nat.mod_lt _ hcap
      by_cases hl : dist CAP (home hash CAP k) g < dist CAP (home hash CAP k) x
      · -- the entry moves into the hole; its old slot is the new hole
        obtain ⟨hc, hh⟩ := h.move hg hx hk hl
        have hfree : Function.update m.cell x none g = none := by
          rw [Function.update_of_ne hxg.symm]; exact h.gap
        obtain ⟨m', hr, hcell, hperm, hsize⟩ := rehash_round hash hcap hx hg hk hsz hfree hc
        have hdisp : displacement CAP (home hash CAP) _ < displacement CAP (home hash CAP) m.cell :=
          displacement_move hg hx h.gap hk hl
        rw [hr fuel]
        have ih := rehash_sound hcap fuel m' x 1 ((x + 1) % CAP) (hcell ▸ hh) hx hnext ?_ ?_ ?_
        · refine ⟨ih.1, ih.2.1, ih.2.2.1.trans hperm, ih.2.2.2.1.trans hsize, fun more => ?_⟩
          rw [Nat.add_right_comm, hr, ih.2.2.2.2]
        · have hone := add_mod_ring hx (i := 1)
          by_cases h1 : CAP = 1
          · exact absurd (show x = g by omega) hxg
          · exact .inr ⟨dist_add_mod hx (by omega), by omega⟩
        · intro p _ _; rw [hsize]; exact hsz
        · rw [hcell]
          have := Nat.mul_le_mul_right CAP (Nat.succ_le_of_lt hdisp)
          rw [Nat.succ_mul] at this
          omega
      · -- the entry returns to its slot
        obtain ⟨hc, hh⟩ := h.stay hg hx hk hdist hl
        obtain ⟨m', hr, hcell, hperm, hsize⟩ :=
          rehash_round hash hcap hx hx hk hsz (Function.update_self ..) hc
        have hcell' : m'.cell = m.cell := by
          rw [hcell, Function.update_idem, ← hk, Function.update_eq_self]
        rw [hr fuel]
        have ih := rehash_sound hcap fuel m' g (d + 1) ((x + 1) % CAP) (hcell' ▸ hh) hg hnext ?_ ?_ ?_
        · refine ⟨ih.1, ih.2.1, ih.2.2.1.trans hperm, ih.2.2.2.1.trans hsize, fun more => ?_⟩
          rw [Nat.add_right_comm, hr, ih.2.2.2.2]
        · have hx' : x = (g + d) % CAP := by rw [← hdist, add_dist_mod hg hx]
          have hx'' : (x + 1) % CAP = (g + (d + 1)) % CAP := by
            rw [hx', Nat.mod_add_mod, Nat.add_assoc]
          rcases Nat.lt_or_ge (d + 1) CAP with hlt | hge
          · exact .inr ⟨by rw [hx'', dist_add_mod hg hlt], hlt⟩
          · have : d + 1 = CAP := by omega
            exact .inl ⟨by rw [hx'', this, Nat.add_mod_right, Nat.mod_eq_of_lt hg], this⟩
        · intro p _ _; rw [hsize]; exact hsz
        · rw [hcell']; omega

/-! ## The invariant and the operations -/

structure Wf (m : FlatHashMap V CAP) : Prop where
  cap : 0 < CAP
  distinct : Distinct CAP m.cell
  reach : Reach CAP (home hash CAP) m.cell
  size_eq : m.size = m.entries.length

theorem slot_empty (p : Nat) : (empty : FlatHashMap V CAP).slot p = freshSlot := by
  simp only [slot, empty, Vector.getElem?_replicate]
  split <;> rfl

theorem cell_empty (p : Nat) : (empty : FlatHashMap V CAP).cell p = none := by
  rw [cell_eq_none, slot_empty]; rfl

theorem entries_empty : (empty : FlatHashMap V CAP).entries = [] := by
  rw [List.eq_nil_iff_forall_not_mem]
  rintro ⟨k, v⟩ h
  obtain ⟨p, -, hc, -⟩ := mem_entries.mp h
  rw [cell_empty] at hc; cases hc

theorem wf_empty (hcap : 0 < CAP) : Wf hash (empty : FlatHashMap V CAP) where
  cap := hcap
  distinct := fun p _ _ _ _ h => by rw [cell_empty] at h; cases h
  reach := fun p _ _ h => by rw [cell_empty] at h; cases h
  size_eq := by rw [entries_empty]; rfl

variable {hash} {m : FlatHashMap V CAP}

theorem probe_found_iff (hw : Wf hash m) {k : Bytes} {p : Nat} :
    m.probe hash k = .found p ↔ p < CAP ∧ m.cell p = some k := by
  have hs := probe_stops hash hw.cap m k
  constructor
  · intro h; rw [h] at hs; exact ⟨hs.1, hs.2.1⟩
  · rintro ⟨hp, hc⟩
    cases hpr : m.probe hash k with
    | full =>
      rw [hpr] at hs
      obtain ⟨k', hk', hne⟩ := hs p hp
      rw [hc, Option.some.injEq] at hk'
      exact absurd hk'.symm hne
    | free x =>
      rw [hpr] at hs
      exact (hs.2.2.ne_of_reach (home_lt hash hw.cap) hw.reach hp hc hs.1 hs.2.1).elim
    | found x =>
      rw [hpr] at hs
      rw [hw.distinct x hs.1 p hp k hs.2.1 hc]

theorem find_eq_some (hw : Wf hash m) {k : Bytes} {v : V} :
    m.find hash k = some v ↔ (k, v) ∈ m.entries := by
  rw [mem_entries]
  unfold find
  constructor
  · intro h
    cases hpr : m.probe hash k with
    | found p =>
      rw [hpr, Option.some.injEq] at h
      obtain ⟨hp, hc⟩ := (probe_found_iff hw).mp hpr
      exact ⟨p, hp, hc, h⟩
    | free p => rw [hpr] at h; cases h
    | full => rw [hpr] at h; cases h
  · rintro ⟨p, hp, hc, rfl⟩
    rw [(probe_found_iff hw).mpr ⟨hp, hc⟩]

theorem find_eq_none (hw : Wf hash m) {k : Bytes} :
    m.find hash k = none ↔ ∀ v, (k, v) ∉ m.entries := by
  rw [Option.eq_none_iff_forall_ne_some]
  exact forall_congr' fun v => not_congr (find_eq_some hw)

theorem size_le (hw : Wf hash m) : m.size ≤ CAP := by
  rw [hw.size_eq]
  refine (List.length_filterMap_le _ _).trans ?_
  simp

theorem getElem_toList {p : Nat} (h : p < m.slots.toList.length) : m.slots.toList[p] = m.slot p := by
  have hp : p < CAP := by simpa using h
  simp [slot, hp]

theorem size_eq_cap_iff (hw : Wf hash m) : m.size = CAP ↔ ∀ p < CAP, m.cell p ≠ none := by
  have hl : m.slots.toList.length = CAP := by simp
  have hfull : m.size = CAP ↔ ∀ s ∈ m.slots.toList, (entryOf s).isSome := by
    rw [hw.size_eq, entries, ← List.filterMap_length_eq_length, hl]
  rw [hfull]
  constructor
  · intro h p hp hc
    have := h (m.slot p) (slot_mem_toList hp)
    rw [cell, Option.map_eq_none_iff] at hc
    rw [hc] at this; cases this
  · intro h s hs
    obtain ⟨p, hp, rfl⟩ := List.getElem_of_mem hs
    have := h p (by simpa using hp)
    rw [cell, ne_eq, Option.map_eq_none_iff] at this
    rw [getElem_toList hp]
    exact Option.isSome_iff_ne_none.mpr this

theorem entries_keys_nodup (hw : Wf hash m) : (m.entries.map Prod.fst).Nodup := by
  rw [entries, List.map_filterMap, List.Nodup, List.pairwise_filterMap, List.pairwise_iff_getElem]
  intro p q hp hq hpq k hk k' hk' he
  rw [getElem_toList hp] at hk
  rw [getElem_toList hq] at hk'
  have := hw.distinct p (by simpa using hp) q (by simpa using hq) k hk (he ▸ hk')
  omega

/-- What `m[key] = v` and `m[key] += x` do: change the entry of the key, or add
one that starts from the stale value of a free slot, or, in a full table
without the key, nothing. -/
inductive Updates (hash : Bytes → Nat) (m m' : FlatHashMap V CAP) (key : Bytes) (f : V → V) : Prop
  | changed (v : V) (rest : List (Bytes × V)) : m.entries.Perm ((key, v) :: rest) →
      m'.entries.Perm ((key, f v) :: rest) → Updates hash m m' key f
  | added (p : Nat) : p < CAP → m.cell p = none → m.find hash key = none → m.size < CAP →
      m'.entries.Perm ((key, f (m.slot p).value) :: m.entries) → Updates hash m m' key f
  | lost : m.find hash key = none → m.size = CAP → m' = m → Updates hash m m' key f

theorem find_none_of_cells (hw : Wf hash m) {key : Bytes} (h : ∀ q < CAP, m.cell q ≠ some key) :
    m.find hash key = none := by
  rw [find_eq_none hw]
  intro v hv
  obtain ⟨q, hq, hc, -⟩ := mem_entries.mp hv
  exact h q hq hc

theorem Wf.free_absent (hw : Wf hash m) {key : Bytes} {p : Nat} (hp : p < CAP)
    (hfree : m.cell p = none) (hc : Clear CAP (home hash CAP) m.cell key p) :
    ∀ q < CAP, m.cell q ≠ some key := fun _ hq h =>
  hc.ne_of_reach (home_lt hash hw.cap) hw.reach hq h hp hfree

theorem update_spec (hw : Wf hash m) {key : Bytes} (hk : Fits 31 key) (dummy : V) (f : V → V) :
    Wf hash (m.update hash dummy key f).1 ∧ Updates hash m (m.update hash dummy key f).1 key f := by
  have hs := probe_stops hash hw.cap m key
  cases hpr : m.probe hash key with
  | full =>
    rw [hpr] at hs
    rw [update_full hash hpr]
    refine ⟨hw, .lost (find_none_of_cells hw fun q hq hc => ?_) ?_ rfl⟩
    · obtain ⟨k', hk', hne⟩ := hs q hq
      rw [hc, Option.some.injEq] at hk'
      exact hne hk'.symm
    · rw [size_eq_cap_iff hw]
      intro p hp hc
      obtain ⟨k', hk', -⟩ := hs p hp
      rw [hc] at hk'; cases hk'
  | found p =>
    rw [hpr] at hs
    obtain ⟨hp, hc, -⟩ := hs
    obtain ⟨ho, hkey⟩ := cell_eq_some.mp hc
    rw [update_found hash hpr]
    have hcell : (m.setSlot p { m.slot p with value := f (m.slot p).value }).cell = m.cell := by
      rw [cell_setSlot hp]
      simp only [entryOf, ho, ite_true, Option.map_some, hkey]
      rw [← hc, Function.update_eq_self]
    obtain ⟨rest, hrest⟩ : ∃ rest, m.entries.Perm ((key, (m.slot p).value) :: rest) := by
      obtain ⟨a, b, hab⟩ := List.append_of_mem (mem_entries.mpr ⟨p, hp, hc, rfl⟩)
      exact ⟨a ++ b, hab ▸ List.perm_middle⟩
    have hput := entries_replace hp (s := { m.slot p with value := f (m.slot p).value })
      (f := (key, f (m.slot p).value)) (by simp [entryOf, ho, hkey]) (by simp [entryOf, ho, hkey]) hrest
    refine ⟨⟨hw.cap, hcell ▸ hw.distinct, hcell ▸ hw.reach, ?_⟩, .changed _ rest hrest hput⟩
    rw [size_setSlot, hw.size_eq, hrest.length_eq, hput.length_eq]
    rfl
  | free p =>
    rw [hpr] at hs
    obtain ⟨hp, hfree, hc⟩ := hs
    have habs := hw.free_absent hp hfree hc
    have hcopy : (CStr.copy 31 key).bytes = key := CStr.copy_bytes hk
    rw [update_free hash hp hpr]
    have hcell : (m.setSlot p ⟨.copy 31 key, f (m.slot p).value, true⟩).cell =
        Function.update m.cell p (some key) := by
      rw [cell_setSlot hp]; simp [entryOf, hcopy]
    have hput := entries_put hp hfree (s := ⟨.copy 31 key, f (m.slot p).value, true⟩)
      (e := (key, f (m.slot p).value)) (by simp [entryOf, hcopy])
    refine ⟨⟨hw.cap, ?_, ?_, ?_⟩, .added p hp hfree (find_none_of_cells hw habs) ?_ hput⟩
    · rw [cell_size, hcell]; exact hw.distinct.insert habs
    · rw [cell_size, hcell]; exact hw.reach.insert hc
    · rw [entries_size, hput.length_eq, hw.size_eq]; rfl
    · refine lt_of_le_of_ne (size_le hw) fun h => ?_
      exact (size_eq_cap_iff hw).mp h p hp hfree

/-- What `erase` does: nothing without the key, and with it the one entry of the
key is taken out and every other entry stays. -/
inductive Erases (hash : Bytes → Nat) (m : FlatHashMap V CAP) (key : Bytes) :
    FlatHashMap V CAP × Bool → Prop
  | absent : m.find hash key = none → Erases hash m key (m, false)
  | erased (m' : FlatHashMap V CAP) (v : V) : m.entries.Perm ((key, v) :: m'.entries) →
      Erases hash m key (m', true)

/-- `erase` whose loop has other fuel. -/
def eraseWith (hash : Bytes → Nat) (fuel : Nat) (m : FlatHashMap V CAP) (key : Bytes) : FlatHashMap V CAP × Bool :=
  match m.probe hash key with
  | .found pos =>
    (({ m.setSlot pos ⟨.empty, 0, false⟩ with size := m.size - 1 } : FlatHashMap V CAP).rehash hash fuel
      ((pos + 1) % CAP), true)
  | _ => (m, false)

theorem erase_full_spec (hw : Wf hash m) (key : Bytes) :
    Wf hash (m.erase hash key).1 ∧ Erases hash m key (m.erase hash key) ∧
      ∀ more, m.eraseWith hash (rehashFuel CAP + more) key = m.erase hash key := by
  have hs := probe_stops hash hw.cap m key
  cases hpr : m.probe hash key with
  | full =>
    rw [hpr] at hs
    simp only [erase, eraseWith, hpr]
    refine ⟨hw, .absent (find_none_of_cells hw fun q hq hc => ?_), fun _ => trivial⟩
    obtain ⟨k', hk', hne⟩ := hs q hq
    rw [hc, Option.some.injEq] at hk'
    exact hne hk'.symm
  | free p =>
    rw [hpr] at hs
    simp only [erase, eraseWith, hpr]
    exact ⟨hw, .absent (find_none_of_cells hw (hw.free_absent hs.1 hs.2.1 hs.2.2)), fun _ => trivial⟩
  | found p =>
    rw [hpr] at hs
    obtain ⟨hp, hc, -⟩ := hs
    simp only [erase, eraseWith, hpr]
    -- the table with the hole, where the loop begins
    let m₁ : FlatHashMap V CAP := { m.setSlot p ⟨.empty, 0, false⟩ with size := m.size - 1 }
    have hcell : m₁.cell = Function.update m.cell p none := by
      simp only [m₁, cell_size, cell_setSlot hp]; simp [entryOf]
    obtain ⟨ho, hkey⟩ := cell_eq_some.mp hc
    have htake : m.entries.Perm ((key, (m.slot p).value) :: m₁.entries) :=
      entries_take hp (by simp [entryOf, ho, hkey]) (by simp [entryOf])
    have hsize : m₁.size = m₁.entries.length := by
      have := htake.length_eq
      rw [← hw.size_eq, List.length_cons] at this
      simp only [m₁] at *
      omega
    have hholed : Holed CAP (home hash CAP) m₁.cell p 1 := hcell ▸ hw.reach.hole hw.distinct hp
    have hnext : (p + 1) % CAP < CAP := Nat.mod_lt _ hw.cap
    have hstart : (p + 1) % CAP = p ∧ 1 = CAP ∨ dist CAP p ((p + 1) % CAP) = 1 ∧ 1 < CAP := by
      by_cases h1 : CAP = 1
      · exact .inl ⟨by omega, h1.symm⟩
      · have := hw.cap
        exact .inr ⟨dist_add_mod hp (by omega), by omega⟩
    have htaken : ∀ q < CAP, m₁.cell q ≠ none → 0 < m₁.size := by
      intro q hq hqc
      rw [hsize]
      obtain ⟨k, hk⟩ := Option.ne_none_iff_exists'.mp hqc
      exact List.length_pos_of_mem (mem_entries.mpr ⟨q, hq, hk, rfl⟩)
    have hfuel : displacement CAP (home hash CAP) m₁.cell * CAP + (CAP - 1) ≤ rehashFuel CAP := by
      have : displacement CAP (home hash CAP) m₁.cell ≤ CAP * CAP := displacement_le (home_lt hash hw.cap)
      have := Nat.mul_le_mul_right CAP this
      unfold rehashFuel
      omega
    obtain ⟨hr, hd, hperm, hsz, hends⟩ :=
      rehash_sound hash hw.cap (rehashFuel CAP) m₁ p 1 _ hholed hp hnext hstart htaken hfuel
    refine ⟨⟨hw.cap, hd, hr, ?_⟩, .erased _ _ (htake.trans (hperm.symm.cons _)), fun more => ?_⟩
    · rw [hsz, hsize, hperm.length_eq]
    · rw [hends]

theorem erase_spec (hw : Wf hash m) (key : Bytes) :
    Wf hash (m.erase hash key).1 ∧ Erases hash m key (m.erase hash key) :=
  ⟨(erase_full_spec hw key).1, (erase_full_spec hw key).2.1⟩

theorem erase_ends (hw : Wf hash m) (key : Bytes) (more : Nat) :
    m.eraseWith hash (rehashFuel CAP + more) key = m.erase hash key :=
  (erase_full_spec hw key).2.2 more

/-! ## Reading after writing -/

theorem find_some_of_perm (hw : Wf hash m) {key : Bytes} {v : V} {rest : List (Bytes × V)}
    (h : m.entries.Perm ((key, v) :: rest)) : m.find hash key = some v :=
  (find_eq_some hw).mpr (h.mem_iff.mpr (List.mem_cons_self ..))

theorem find_ne_of_perm (hw : Wf hash m) {m' : FlatHashMap V CAP} (hw' : Wf hash m') {key : Bytes}
    {v w : V} {rest : List (Bytes × V)} (h : m.entries.Perm ((key, v) :: rest))
    (h' : m'.entries.Perm ((key, w) :: rest)) {k : Bytes} (hk : k ≠ key) :
    m'.find hash k = m.find hash k := by
  refine Option.ext fun u => ?_
  rw [find_eq_some hw', find_eq_some hw, h.mem_iff, h'.mem_iff]
  simp [hk]

theorem find_ne_of_perm_cons (hw : Wf hash m) {m' : FlatHashMap V CAP} (hw' : Wf hash m')
    {key : Bytes} {v : V} (h : m'.entries.Perm ((key, v) :: m.entries)) {k : Bytes} (hk : k ≠ key) :
    m'.find hash k = m.find hash k := by
  refine Option.ext fun u => ?_
  rw [find_eq_some hw', find_eq_some hw, h.mem_iff]
  simp [hk]

theorem find_update_ne (hw : Wf hash m) {key : Bytes} (hk : Fits 31 key) (dummy : V) (f : V → V)
    {k : Bytes} (hne : k ≠ key) : (m.update hash dummy key f).1.find hash k = m.find hash k := by
  obtain ⟨hw', hu⟩ := update_spec hw hk dummy f
  cases hu with
  | changed v rest h h' => exact find_ne_of_perm hw hw' h h' hne
  | added p _ _ _ _ h => exact find_ne_of_perm_cons hw hw' h hne
  | lost _ _ h => rw [h]

theorem size_update_le (hw : Wf hash m) {key : Bytes} (hk : Fits 31 key) (dummy : V) (f : V → V) :
    (m.update hash dummy key f).1.size ≤ m.size + 1 := by
  obtain ⟨hw', hu⟩ := update_spec hw hk dummy f
  rw [hw'.size_eq, hw.size_eq]
  cases hu with
  | changed v rest h h' => rw [h.length_eq, h'.length_eq]; exact Nat.le_succ _
  | added p _ _ _ _ h => exact h.length_eq.le
  | lost _ _ h => rw [h]; exact Nat.le_succ _

theorem find_erase_ne (hw : Wf hash m) {key k : Bytes} (hne : k ≠ key) :
    (m.erase hash key).1.find hash k = m.find hash k := by
  obtain ⟨hw', he⟩ := erase_spec hw key
  generalize m.erase hash key = r at hw' he
  cases he with
  | absent _ => rfl
  | erased m' v h => exact (find_ne_of_perm_cons hw' hw h hne).symm

theorem find_erase_self (hw : Wf hash m) (key : Bytes) : (m.erase hash key).1.find hash key = none := by
  obtain ⟨hw', he⟩ := erase_spec hw key
  generalize m.erase hash key = r at hw' he
  cases he with
  | absent h => exact h
  | erased m' v h =>
    rw [find_eq_none hw']
    intro w hm
    have := entries_keys_nodup hw
    rw [(h.map Prod.fst).nodup_iff, List.map_cons, List.nodup_cons] at this
    exact this.1 (List.mem_map.mpr ⟨_, hm, rfl⟩)

theorem find_update_self (hw : Wf hash m) {key : Bytes} (hk : Fits 31 key) (dummy : V) (f : V → V)
    (hroom : m.find hash key ≠ none ∨ m.size < CAP) :
    ∃ v, (m.update hash dummy key f).1.find hash key = some (f v) := by
  obtain ⟨hw', hu⟩ := update_spec hw hk dummy f
  cases hu with
  | changed v rest _ h => exact ⟨v, find_some_of_perm hw' h⟩
  | added p _ _ _ _ h => exact ⟨_, find_some_of_perm hw' h⟩
  | lost hn hs _ =>
    rcases hroom with h | h
    · exact absurd hn h
    · omega

/-! ## The entries of other keys -/

/-- The entries that are not under `key`. -/
def others (m : FlatHashMap V CAP) (key : Bytes) : List (Bytes × V) := m.entries.filter (·.1 ≠ key)

omit [Zero V] in
theorem others_cons_self {m' : FlatHashMap V CAP} {key : Bytes} {v : V} {rest : List (Bytes × V)}
    (h : m'.entries.Perm ((key, v) :: rest)) : (m'.others key).Perm (rest.filter (·.1 ≠ key)) := by
  have := h.filter (fun e => decide (e.1 ≠ key))
  simpa [others] using this

theorem others_update (hw : Wf hash m) {key : Bytes} (hk : Fits 31 key) (dummy : V) (f : V → V) :
    ((m.update hash dummy key f).1.others key).Perm (m.others key) := by
  have hu := (update_spec hw hk dummy f).2
  cases hu with
  | changed v rest h h' => exact (others_cons_self h').trans (others_cons_self h).symm
  | added p _ _ _ _ h => exact others_cons_self h
  | lost _ _ h => rw [others, h, others]

theorem others_of_absent (hw : Wf hash m) {key : Bytes} (h : m.find hash key = none) :
    m.others key = m.entries := by
  apply List.filter_eq_self.mpr
  intro e he
  have hne : e.1 ≠ key := fun heq => (find_eq_none hw).mp h e.2 (heq ▸ he)
  simpa using hne

omit [Zero V] in
theorem others_comm (m : FlatHashMap V CAP) (k₁ k₂ : Bytes) :
    (m.others k₁).filter (·.1 ≠ k₂) = (m.others k₂).filter (·.1 ≠ k₁) :=
  List.filter_comm ..

/-- `erase` leaves the entries of the other keys, in some order. -/
theorem entries_erase (hw : Wf hash m) (key : Bytes) : (m.erase hash key).1.entries.Perm (m.others key) := by
  obtain ⟨hw', he⟩ := erase_spec hw key
  have habs := others_of_absent hw' (find_erase_self hw key)
  generalize m.erase hash key = r at hw' he habs
  cases he with
  | absent _ => rw [← habs]
  | erased m' v h =>
    rw [← habs]
    exact (others_cons_self h).symm

theorem find_eq_of_perm (hw : Wf hash m) {m' : FlatHashMap V CAP} (hw' : Wf hash m')
    (h : m'.entries.Perm m.entries) (key : Bytes) : m'.find hash key = m.find hash key := by
  apply Option.ext
  intro v
  rw [find_eq_some hw', find_eq_some hw, h.mem_iff]

/-- What `operator[]` of an absent key reads: the value that the free slot holds. -/
def leftover (hash : Bytes → Nat) (m : FlatHashMap V CAP) (key : Bytes) : V :=
  match m.probe hash key with
  | .free pos => (m.slot pos).value
  | _ => 0

/-- A new key is added with `f` of what its slot holds. -/
theorem entries_update_absent (hw : Wf hash m) {key : Bytes} (hk : Fits 31 key) (dummy : V) (f : V → V)
    (hnone : m.find hash key = none) (hroom : m.size < CAP) :
    (m.update hash dummy key f).1.entries.Perm ((key, f (m.leftover hash key)) :: m.entries) := by
  have hs := probe_stops hash hw.cap m key
  cases hpr : m.probe hash key with
  | free p =>
    rw [hpr] at hs
    rw [update_free hash hs.1 hpr, leftover, hpr, entries_size]
    apply entries_put hs.1 hs.2.1
    simp [entryOf, CStr.copy_bytes hk]
  | found p => rw [find, hpr] at hnone; cases hnone
  | full =>
    have hu := (update_spec hw hk dummy f).2
    rw [update_full hash hpr] at hu
    cases hu with
    | changed v rest h _ => rw [find_some_of_perm hw h] at hnone; cases hnone
    | added p _ _ _ _ h => exact absurd h.length_eq (by simp)
    | lost _ hs' _ => exact absurd hs' hroom.ne

/-! ## Values of free slots -/

/-- Every slot, taken or free, holds a value with `P`. -/
def AllValues (P : V → Prop) (m : FlatHashMap V CAP) : Prop := ∀ p < CAP, P (m.slot p).value

/-- No stale value is left in a free slot. -/
def Fresh (m : FlatHashMap V CAP) : Prop := ∀ p < CAP, m.cell p = none → (m.slot p).value = 0

variable {P : V → Prop}

theorem AllValues.set (h : AllValues P m) (p : Nat) {s : Slot V} (hs : P s.value) :
    AllValues P (m.setSlot p s) := by
  intro q hq
  by_cases hqp : q = p
  · subst hqp; rw [slot_setSlot_self hq]; exact hs
  · rw [slot_setSlot_ne hqp]; exact h q hq

theorem AllValues.at (h : AllValues P m) (h0 : P 0) (p : Nat) : P (m.slot p).value := by
  rcases Nat.lt_or_ge p CAP with hp | hp
  · exact h p hp
  · have : m.slot p = freshSlot := by simp [slot, hp]
    rw [this]; exact h0

theorem AllValues.getOrInsert (h : AllValues P m) (h0 : P 0) (key : Bytes) :
    AllValues P (m.getOrInsert hash key).1 := by
  unfold FlatHashMap.getOrInsert
  cases m.probe hash key with
  | free p => exact h.set p (h.at h0 p)
  | found p => exact h
  | full => exact h

theorem AllValues.update (h : AllValues P m) (h0 : P 0) {key : Bytes} (dummy : V) {f : V → V}
    (hf : ∀ v, P v → P (f v)) : AllValues P (m.update hash dummy key f).1 := by
  have hg : AllValues P (m.getOrInsert hash key).1 := h.getOrInsert h0 key
  unfold FlatHashMap.update
  split
  · next m' p he =>
    rw [he] at hg
    exact hg.set p (hf _ (hg.at h0 p))
  · next m' he =>
    rw [he] at hg
    exact hg

theorem AllValues.rehash (h0 : P 0) : ∀ (fuel : Nat) (m : FlatHashMap V CAP) (x : Nat),
    AllValues P m → AllValues P (m.rehash hash fuel x)
  | 0, _, _, h => h
  | fuel + 1, m, x, h => by
    unfold FlatHashMap.rehash
    simp only
    split
    · have hx := h.at h0 x
      refine AllValues.rehash h0 fuel _ _ (AllValues.update ?_ h0 _ fun _ _ => hx)
      exact h.set x hx
    · exact h

theorem AllValues.erase (h : AllValues P m) (h0 : P 0) (key : Bytes) :
    AllValues P (m.erase hash key).1 := by
  unfold FlatHashMap.erase
  cases m.probe hash key with
  | found p => exact AllValues.rehash h0 _ _ _ (h.set p h0)
  | free p => exact h
  | full => exact h

theorem AllValues.empty (h0 : P 0) : AllValues P (FlatHashMap.empty : FlatHashMap V CAP) :=
  fun p _ => by rw [slot_empty]; exact h0

theorem fresh_empty : Fresh (empty : FlatHashMap V CAP) := fun p _ _ => by rw [slot_empty]; rfl

theorem Fresh.leftover (hw : Wf hash m) (h : Fresh m) (key : Bytes) : m.leftover hash key = 0 := by
  have hs := probe_stops hash hw.cap m key
  unfold FlatHashMap.leftover
  split
  · next p hpr =>
    rw [hpr] at hs
    exact h p hs.1 hs.2.1
  · rfl

theorem Fresh.update (hw : Wf hash m) (h : Fresh m) (key : Bytes) (dummy : V) (f : V → V) :
    Fresh (m.update hash dummy key f).1 := by
  have hs := probe_stops hash hw.cap m key
  cases hpr : m.probe hash key with
  | full => rw [update_full hash hpr]; exact h
  | free p =>
    rw [hpr] at hs
    rw [update_free hash hs.1 hpr]
    intro q hq hc
    rw [cell_size, cell_eq_none] at hc
    by_cases hqp : q = p
    · subst hqp; rw [slot_setSlot_self hq] at hc; cases hc
    · rw [slot_setSlot_ne hqp] at hc
      rw [slot_size, slot_setSlot_ne hqp]
      exact h q hq (cell_eq_none.mpr hc)
  | found p =>
    rw [hpr] at hs
    rw [update_found hash hpr]
    intro q hq hc
    rw [cell_eq_none] at hc
    by_cases hqp : q = p
    · subst hqp
      rw [slot_setSlot_self hq] at hc
      rw [(cell_eq_some.mp hs.2.1).1] at hc; cases hc
    · rw [slot_setSlot_ne hqp] at hc ⊢
      exact h q hq (cell_eq_none.mpr hc)

theorem find_update_fresh (hw : Wf hash m) (hfr : Fresh m) {key : Bytes} (hk : Fits 31 key)
    (dummy : V) (f : V → V) (hroom : m.find hash key ≠ none ∨ m.size < CAP) :
    (m.update hash dummy key f).1.find hash key = some (f ((m.find hash key).getD 0)) := by
  have hs := probe_stops hash hw.cap m key
  have hw' := (update_spec hw hk dummy f).1
  have hu := (update_spec hw hk dummy f).2
  cases hpr : m.probe hash key with
  | found p =>
    cases hu with
    | changed v rest h h' =>
      rw [find_some_of_perm hw' h', find_some_of_perm hw h]; rfl
    | added _ _ _ h => rw [find, hpr] at h; cases h
    | lost h => rw [find, hpr] at h; cases h
  | free p =>
    rw [hpr] at hs
    have hf : m.find hash key = none := by rw [find, hpr]
    have hroom' : m.size < CAP := hroom.resolve_left fun h => h hf
    rw [hf, Option.getD_none, ← hfr.leftover hw key]
    exact find_some_of_perm hw' (entries_update_absent hw hk dummy f hf hroom')
  | full =>
    have hf : m.find hash key = none := by rw [find, hpr]
    cases hu with
    | changed v rest h _ => rw [find_some_of_perm hw h] at hf; cases hf
    | added p hp _ _ hlt h =>
      rw [update_full hash hpr] at h
      have := h.length_eq
      simp at this
    | lost _ hs' => exact absurd hs' (by rcases hroom with h | h <;> [exact absurd hf h; omega])

/-! ## Sums -/

theorem total_eq_sum (m : FlatHashMap ℚ CAP) : m.total = (m.entries.map Prod.snd).sum := by
  have key : ∀ (l : List (Bytes × ℚ)) (a : ℚ), l.foldl (fun acc e => acc + e.2) a = a + (l.map Prod.snd).sum := by
    intro l
    induction l with
    | nil => intro a; simp
    | cons e l ih => intro a; rw [List.foldl_cons, ih, List.map_cons, List.sum_cons, add_assoc]
  rw [total, key, zero_add]

theorem total_of_perm {m : FlatHashMap ℚ CAP} {l : List (Bytes × ℚ)} (h : m.entries.Perm l) :
    m.total = (l.map Prod.snd).sum := by
  rw [total_eq_sum, (h.map Prod.snd).sum_eq]

theorem total_empty : (empty : FlatHashMap ℚ CAP).total = 0 := by
  rw [total_eq_sum, entries_empty]; rfl

/-- Amounts listed under different keys are together at most the sum of
nonnegative entries that are each at least the amount under its key. -/
theorem sum_le_sum_of_entries : ∀ (l es : List (Bytes × ℚ)), (l.map Prod.fst).Nodup →
    (∀ e ∈ es, 0 ≤ e.2) → (∀ e ∈ l, ∃ v, (e.1, v) ∈ es ∧ e.2 ≤ v) →
      (l.map Prod.snd).sum ≤ (es.map Prod.snd).sum
  | [], es, _, hnn, _ => by
    refine List.sum_nonneg fun v hv => ?_
    obtain ⟨e, he, rfl⟩ := List.mem_map.mp hv
    exact hnn e he
  | a :: l, es, hnd, hnn, hl => by
    obtain ⟨v, hv, hle⟩ := hl a (List.mem_cons_self ..)
    obtain ⟨es₁, es₂, rfl⟩ := List.append_of_mem hv
    rw [List.map_cons, List.nodup_cons] at hnd
    have ih := sum_le_sum_of_entries l (es₁ ++ es₂) hnd.2
      (fun e he => hnn e (by rw [List.mem_append] at he; simp only [List.mem_append, List.mem_cons]; tauto))
      fun e he => by
        obtain ⟨w, hw, hle'⟩ := hl e (List.mem_cons_of_mem _ he)
        have hne : e.1 ≠ a.1 := fun h => hnd.1 (h ▸ List.mem_map_of_mem he)
        refine ⟨w, ?_, hle'⟩
        simp only [List.mem_append, List.mem_cons, Prod.mk.injEq] at hw ⊢
        tauto
    simp only [List.map_append, List.map_cons, List.sum_append, List.sum_cons] at ih ⊢
    linarith

theorem sum_le_total {m : FlatHashMap ℚ CAP} (hw : Wf hash m) (hnn : AllValues (0 ≤ ·) m)
    {l : List (Bytes × ℚ)} (hnd : (l.map Prod.fst).Nodup)
    (hl : ∀ e ∈ l, ∃ v, m.find hash e.1 = some v ∧ e.2 ≤ v) : (l.map Prod.snd).sum ≤ m.total := by
  rw [total_eq_sum]
  refine sum_le_sum_of_entries l m.entries hnd ?_ fun e he => ?_
  · rintro ⟨k, v⟩ he
    obtain ⟨p, hp, -, rfl⟩ := mem_entries.mp he
    exact hnn p hp
  · obtain ⟨v, hv, hle⟩ := hl e he
    exact ⟨v, (find_eq_some hw).mp hv, hle⟩

theorem total_cons {m m' : FlatHashMap ℚ CAP} {k : Bytes} {v : ℚ}
    (h : m'.entries.Perm ((k, v) :: m.entries)) : m'.total = v + m.total := by
  rw [total_of_perm h, List.map_cons, List.sum_cons, ← total_eq_sum]

theorem total_erase {m : FlatHashMap ℚ CAP} (hw : Wf hash m) (key : Bytes) :
    (m.erase hash key).1.total = m.total - (m.find hash key).getD 0 := by
  obtain ⟨hw', he⟩ := erase_spec hw key
  generalize m.erase hash key = r at hw' he
  cases he with
  | absent h => rw [h, Option.getD_none, sub_zero]
  | erased m' v h => rw [find_some_of_perm hw h, total_cons h, Option.getD_some, add_sub_cancel_left]

end FlatHashMap

end OrderExecution
