import OrderExecution.BoundedMap
import OrderExecution.FlatHashMapSound
import OrderExecution.Machine

/-!
# `FlatHashMap` refines a bounded finite map

After any calls of `m[k] = v`, `erase` and `clear` the table reads, counts and
lists the keys and values of the bounded map that had the same calls.
-/

namespace OrderExecution

namespace FlatHashMap

variable {V : Type} [Zero V] {CAP : Nat}

/-- A call on a table and the static `dummy`. -/
def call (hash : Bytes → Nat) (s : FlatHashMap V CAP × V) :
    BoundedMap.Op (CStr 31) V → (FlatHashMap V CAP × V) × Option Bool
  | .set k v => (s.1.update hash s.2 k.bytes fun _ => v, none)
  | .erase k => (((s.1.erase hash k.bytes).1, s.2), some (s.1.erase hash k.bytes).2)
  | .clear => ((s.1.clear, s.2), none)

structure Refines (hash : Bytes → Nat) (m : FlatHashMap V CAP) (M : Finmap fun _ : CStr 31 => V) : Prop where
  find : ∀ k : CStr 31, m.find hash k.bytes = M.lookup k
  size : m.size = M.keys.card
  forEach : (m.entries : Multiset (Bytes × V)) = M.entries.map fun e => (e.1.bytes, e.2)

section
variable {hash : Bytes → Nat} {m : FlatHashMap V CAP} {M : Finmap fun _ : CStr 31 => V}

theorem slot_clear (m : FlatHashMap V CAP) (p : Nat) : m.clear.slot p = freshSlot := by
  unfold slot clear
  by_cases hp : p < CAP
  · simp [hp, freshSlot]
  · simp [hp]

theorem cell_clear (m : FlatHashMap V CAP) (p : Nat) : m.clear.cell p = none := by
  rw [cell_eq_none, slot_clear]; rfl

theorem entries_clear (m : FlatHashMap V CAP) : m.clear.entries = [] := by
  rw [List.eq_nil_iff_forall_not_mem]
  rintro ⟨k, v⟩ h
  obtain ⟨p, -, hc, -⟩ := mem_entries.mp h
  rw [cell_clear] at hc; cases hc

theorem wf_clear (hcap : 0 < CAP) (m : FlatHashMap V CAP) : Wf hash m.clear where
  cap := hcap
  distinct := fun p _ _ _ _ h => by rw [cell_clear] at h; cases h
  reach := fun p _ _ h => by rw [cell_clear] at h; cases h
  size_eq := by rw [entries_clear]; rfl

theorem refines_of_find (hw : Wf hash m) (hfind : ∀ k : CStr 31, m.find hash k.bytes = M.lookup k) :
    Refines hash m M := by
  have hentries : (m.entries : Multiset (Bytes × V)) = M.entries.map fun e => (e.1.bytes, e.2) := by
    refine BoundedMap.coe_eq_entries (fun a b => CStr.ext) ((entries_keys_nodup hw).of_map _) ?_ ?_
    · rintro ⟨k, v⟩ he
      obtain ⟨p, -, hc, -⟩ := mem_entries.mp he
      exact ⟨(m.slot p).key, (cell_eq_some.mp hc).2⟩
    · intro k v
      rw [← find_eq_some hw, hfind]
  refine ⟨hfind, ?_, hentries⟩
  have := congrArg Multiset.card hentries
  rw [Multiset.coe_card, Multiset.card_map, ← hw.size_eq] at this
  rw [this, Finmap.keys, Finset.card_mk, Multiset.keys, Multiset.card_map]

/-- The simulation: one call of the table and of the map. -/
theorem call_related (s : FlatHashMap V CAP × V) (op : BoundedMap.Op (CStr 31) V)
    (h : Wf hash s.1 ∧ ∀ k : CStr 31, s.1.find hash k.bytes = M.lookup k) :
    (Wf hash (call hash s op).1.1 ∧
      ∀ k : CStr 31, (call hash s op).1.1.find hash k.bytes = (BoundedMap.call CAP M op).1.lookup k) ∧
      (call hash s op).2 = (BoundedMap.call CAP M op).2 := by
  obtain ⟨hw, hfind⟩ := h
  have hsize : s.1.size = M.keys.card := (refines_of_find hw hfind).size
  cases op with
  | set k v =>
    obtain ⟨hw', hu⟩ := update_spec hw k.fits s.2 fun _ => v
    refine ⟨⟨hw', fun k' => ?_⟩, rfl⟩
    have hroom : k ∈ M ∨ M.keys.card < CAP ↔ s.1.find hash k.bytes ≠ none ∨ s.1.size < CAP := by
      rw [BoundedMap.mem_iff_lookup_ne, hfind, hsize]
    unfold call BoundedMap.call
    simp only
    by_cases hr : k ∈ M ∨ M.keys.card < CAP
    · rw [if_pos hr]
      by_cases hk : k' = k
      · subst hk
        obtain ⟨-, hself⟩ := find_update_self hw k'.fits s.2 (fun _ => v) (hroom.mp hr)
        rw [hself, Finmap.lookup_insert]
      · rw [find_update_ne hw k.fits s.2 _ fun he => hk (CStr.ext he), Finmap.lookup_insert_of_ne _ hk, hfind]
    · rw [if_neg hr]
      rw [hroom, not_or, not_not] at hr
      cases hu with
      | changed w rest hp _ => rw [find_some_of_perm hw hp] at hr; cases hr.1
      | added p _ _ _ hlt _ => exact absurd hlt hr.2
      | lost _ _ he => rw [he, hfind]
  | erase k =>
    obtain ⟨hw', he⟩ := erase_spec hw k.bytes
    refine ⟨⟨hw', fun k' => ?_⟩, congrArg some ?_⟩
    · unfold call BoundedMap.call
      simp only
      by_cases hk : k' = k
      · subst hk
        rw [find_erase_self hw, Finmap.lookup_erase]
      · rw [find_erase_ne hw fun he => hk (CStr.ext he), Finmap.lookup_erase_ne hk, hfind]
    · have hmem : k ∈ M ↔ s.1.find hash k.bytes ≠ none := by rw [BoundedMap.mem_iff_lookup_ne, hfind]
      generalize s.1.erase hash k.bytes = r at he
      cases he with
      | absent hn => simp [hmem, hn]
      | erased m' w hp => simp [hmem, find_some_of_perm hw hp]
  | clear =>
    refine ⟨⟨wf_clear hw.cap s.1, fun k => ?_⟩, rfl⟩
    unfold call BoundedMap.call
    rw [Finmap.lookup_empty, find_eq_none (wf_clear hw.cap s.1), entries_clear]
    exact fun v => List.not_mem_nil

end

end FlatHashMap

open FlatHashMap Machine

/-- After any calls the table is the bounded map that had the same calls, `erase`
has answered the same, and its loop ends. -/
theorem flatHashMap_refines {V : Type} [Zero V] {CAP : Nat} (hcap : 0 < CAP) (hash : Bytes → Nat) (dummy : V)
    (ops : List (BoundedMap.Op (CStr 31) V)) :
    Refines hash (runCalls (call hash) ((FlatHashMap.empty : FlatHashMap V CAP), dummy) ops).1.1
        (runCalls (BoundedMap.call CAP) ∅ ops).1 ∧
      (runCalls (call hash) ((FlatHashMap.empty : FlatHashMap V CAP), dummy) ops).2 =
        (runCalls (BoundedMap.call CAP) ∅ ops).2 ∧
      ∀ key more, (runCalls (call hash) ((FlatHashMap.empty : FlatHashMap V CAP), dummy) ops).1.1.eraseWith hash
          (rehashFuel CAP + more) key =
        (runCalls (call hash) ((FlatHashMap.empty : FlatHashMap V CAP), dummy) ops).1.1.erase hash key := by
  have hempty : ∀ k : CStr 31, (FlatHashMap.empty : FlatHashMap V CAP).find hash k.bytes =
      (∅ : Finmap fun _ : CStr 31 => V).lookup k := by
    intro k
    rw [Finmap.lookup_empty, find_eq_none (wf_empty hash hcap), entries_empty]
    exact fun v => List.not_mem_nil
  obtain ⟨⟨hw, hfind⟩, hanswers⟩ := runCalls_related (g := BoundedMap.call CAP)
    (fun s M op h => call_related (M := M) s op h) (s := (FlatHashMap.empty, dummy)) (t := ∅)
    ⟨wf_empty hash hcap, hempty⟩ ops
  exact ⟨refines_of_find hw hfind, hanswers, fun key more => erase_ends hw key more⟩

/-- Calls on a table of two slots with one home: it fills up, refuses a key, and
closes the hole of an erased one. -/
def Sample.tableOps : List (BoundedMap.Op (CStr 31) ℚ) :=
  [.set (.copy 31 (lit "a")) 1, .set (.copy 31 (lit "b")) 2, .set (.copy 31 (lit "c")) 3,
   .erase (.copy 31 (lit "a")), .erase (.copy 31 (lit "c"))]

theorem flatHashMap_refines_full : 0 < 2 ∧ Refines (fun _ => 0)
    (runCalls (call fun _ => 0) ((FlatHashMap.empty : FlatHashMap ℚ 2), 0) Sample.tableOps).1.1
    (runCalls (BoundedMap.call 2) ∅ Sample.tableOps).1 :=
  ⟨by decide, (flatHashMap_refines (by decide) (fun _ => 0) 0 Sample.tableOps).1⟩

end OrderExecution
