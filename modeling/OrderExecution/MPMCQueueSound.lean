import OrderExecution.MPMCQueue
import OrderExecution.Machine
import OrderExecution.Ring
import Mathlib.Data.Finset.Card
import Mathlib.Data.List.Forall2

/-!
# `MPMCQueue` is a queue

A cell is at rest, or one thread has claimed it. The sequence number of a cell
at rest, the two positions and the claims in progress determine each other, so
a sequence number that a thread has read still holds when its claim succeeds.
-/

namespace OrderExecution

open Machine

namespace IsCapacity

variable {CAP : Nat}

theorem two_le (h : IsCapacity CAP) : 2 ≤ CAP := by
  obtain ⟨k, hk, -, rfl⟩ := h.exponent
  calc 2 = 2 ^ 1 := rfl
    _ ≤ 2 ^ k := Nat.pow_le_pow_right (by decide) hk

theorem le_half (h : IsCapacity CAP) : CAP ≤ 2 ^ 63 := by
  obtain ⟨k, -, hk, rfl⟩ := h.exponent
  exact Nat.pow_le_pow_right (by decide) (by omega)

theorem and_eq_mod (h : IsCapacity CAP) (pos : Nat) : pos &&& (CAP - 1) = pos % CAP := by
  obtain ⟨k, -, -, rfl⟩ := h.exponent
  exact Nat.and_two_pow_sub_one_eq_mod pos k

end IsCapacity

theorem wordDiff_eq_zero {a b : Nat} (ha : a < 2 ^ 64) (hb : b < 2 ^ 64) (h : wordDiff a b = 0) : a = b := by
  have heq : Int.bmod a (2 ^ 64) = Int.bmod b (2 ^ 64) := Int.sub_eq_zero.mp h
  have hmod : (a : Int) % (2 ^ 64 : Nat) = (b : Int) % (2 ^ 64 : Nat) := by
    rw [← Int.bmod_emod, heq, Int.bmod_emod]
  omega

namespace QueuePc

variable {α : Type}

/-- The position of the cell that the thread has claimed. -/
def claimed : QueuePc α → Option Nat
  | .enqWrite _ pos | .enqPublish pos | .deqRead pos _ | .deqRelease pos _ => some pos
  | _ => none

/-- The thread is in an operation and has not claimed a cell yet. -/
def pending : QueuePc α → Bool
  | .enqLoadPos _ | .enqLoadSeq _ _ | .enqCas _ _ | .deqLoadPos | .deqLoadSeq _ | .deqCas _ => true
  | _ => false

end QueuePc

namespace QueueState

variable {α : Type} {CAP : Nat}

section
variable {s s' : QueueState α} {p q : Nat}

theorem cell_congr (hcap : IsCapacity CAP) (h : p % CAP = q % CAP) : s.cell CAP p = s.cell CAP q := by
  unfold cell
  rw [hcap.and_eq_mod, hcap.and_eq_mod, h]

theorem threads_goto_self (s : QueueState α) (t : Nat) (pc : QueuePc α) : (s.goto t pc).threads t = pc := by
  simp [goto]

theorem threads_goto_ne {x t : Nat} (h : x ≠ t) (pc : QueuePc α) : (s.goto t pc).threads x = s.threads x := by
  simp [goto, h]

theorem cell_setCell_self (c : Cell α) : (s.setCell CAP p c).cell CAP p = c := by
  simp [cell, setCell]

theorem cell_setCell_ne (hcap : IsCapacity CAP) (h : q % CAP ≠ p % CAP) (c : Cell α) :
    (s.setCell CAP p c).cell CAP q = s.cell CAP q := by
  simp only [cell, setCell, hcap.and_eq_mod]
  rw [Function.update_of_ne h]

end

/-! ## The invariant -/

section
variable (CAP)

/-- A producer has claimed the cell: the position is between those of the queue. -/
structure Filling (s : QueueState α) (pos : Nat) : Prop where
  ge : s.dequeuePos ≤ pos
  lt : pos < s.enqueuePos
  sequence : (s.cell CAP pos).sequence = pos

/-- A consumer has claimed the cell: the position is behind those of the queue,
by less than a round. -/
structure Draining (s : QueueState α) (pos : Nat) : Prop where
  lt : pos < s.dequeuePos
  ge : s.enqueuePos ≤ pos + CAP
  sequence : (s.cell CAP pos).sequence = pos + 1

def Holds (s : QueueState α) : QueuePc α → Prop
  | .enqLoadSeq _ pos => pos ≤ s.enqueuePos
  | .enqCas _ pos => pos ≤ s.enqueuePos ∧ pos ≤ (s.cell CAP pos).sequence
  | .enqWrite task pos => s.Filling CAP pos ∧ (s.cell CAP pos).stage = .empty ∧ s.accepted[pos]? = some task
  | .enqPublish pos => s.Filling CAP pos ∧ s.accepted[pos]? = some (s.cell CAP pos).data
  | .deqLoadSeq pos => pos ≤ s.dequeuePos
  | .deqCas pos => pos ≤ s.dequeuePos ∧ pos + 1 ≤ (s.cell CAP pos).sequence
  | .deqRead pos claim => s.Draining CAP pos ∧ (s.cell CAP pos).stage = .published ∧
      s.accepted[pos]? = some (s.cell CAP pos).data ∧ claim = pos
  | .deqRelease pos _ => s.Draining CAP pos ∧ (s.cell CAP pos).stage = .empty
  | _ => True

/-- A cell that no thread has claimed waits for the enqueue at its sequence
number, or for the dequeue before it. -/
inductive AtRest (s : QueueState α) (pos : Nat) : Prop where
  | free : (s.cell CAP pos).stage = .empty → s.enqueuePos ≤ (s.cell CAP pos).sequence →
      (s.cell CAP pos).sequence < s.dequeuePos + CAP → (s.cell CAP pos).sequence % CAP = pos % CAP → AtRest s pos
  | full (p : Nat) : (s.cell CAP pos).stage = .published → (s.cell CAP pos).sequence = p + 1 →
      p % CAP = pos % CAP → s.dequeuePos ≤ p → p < s.enqueuePos →
      s.accepted[p]? = some (s.cell CAP pos).data → AtRest s pos

/-- No more positions have been claimed than operations begun. -/
def Counted (s : QueueState α) : Prop :=
  ∃ P : Finset Nat, (∀ t, t ∈ P ↔ (s.threads t).pending = true) ∧
    s.enqueuePos + s.dequeuePos + P.card ≤ s.operations

structure Inv (s : QueueState α) : Prop where
  order : s.dequeuePos ≤ s.enqueuePos
  room : s.enqueuePos ≤ s.dequeuePos + CAP
  accepted : s.accepted.length = s.enqueuePos
  obtained : s.obtained.length = s.dequeuePos
  matched : ∀ (k : Nat) (o : Option α), s.obtained[k]? = some o → o = none ∨ o = s.accepted[k]?
  apart : ∀ t t' p p', (s.threads t).claimed = some p → (s.threads t').claimed = some p' →
    p % CAP = p' % CAP → t = t'
  thread : ∀ t, s.Holds CAP (s.threads t)
  cell : ∀ pos, (∃ t p, (s.threads t).claimed = some p ∧ p % CAP = pos % CAP) ∨ s.AtRest CAP pos
  counted : s.Counted

end

section
variable {s s' : QueueState α} {t pos : Nat} {pc : QueuePc α}

theorem inv_init (hcap : IsCapacity CAP) (task : α) : Inv CAP (init task) where
  order := Nat.le_refl _
  room := Nat.zero_le _
  accepted := rfl
  obtained := rfl
  matched := fun k o h => by cases h
  apart := fun t t' p p' h => by cases h
  thread := fun t => trivial
  cell := by
    intro pos
    have hlt : pos % CAP < CAP := Nat.mod_lt _ (by have := hcap.two_le; omega)
    refine .inr (.free rfl (Nat.zero_le _) ?_ ?_)
    · simp only [QueueState.cell, init, hcap.and_eq_mod, Nat.zero_add]
      exact hlt
    · simp only [QueueState.cell, init, hcap.and_eq_mod]
      exact Nat.mod_mod _ _
  counted := ⟨∅, fun t => by simp [init, QueuePc.pending], Nat.le_refl _⟩

theorem Counted.positions_le (h : s.Counted) : s.enqueuePos + s.dequeuePos ≤ s.operations := by
  obtain ⟨P, -, hle⟩ := h
  omega

/-- A thread moves on. Each claim and each start is counted once. -/
theorem Counted.move (h : s.Counted) (ht : s'.threads = Function.update s.threads t pc)
    (hle : s'.enqueuePos + s'.dequeuePos + pc.pending.toNat + s.operations ≤
      s.enqueuePos + s.dequeuePos + (s.threads t).pending.toNat + s'.operations) : s'.Counted := by
  obtain ⟨P, hP, hcard⟩ := h
  have herase : (P.erase t).card + (s.threads t).pending.toNat = P.card := by
    by_cases hmem : t ∈ P
    · rw [(hP t).mp hmem, Bool.toNat_true, Finset.card_erase_add_one hmem]
    · have hf : (s.threads t).pending = false := by
        rw [← Bool.not_eq_true, ← hP t]
        exact hmem
      rw [hf, Finset.erase_eq_of_notMem hmem]
      rfl
  have hother : ∀ x, x ≠ t → (x ∈ P.erase t ↔ (s'.threads x).pending = true) := by
    intro x hx
    rw [ht, Function.update_of_ne hx, Finset.mem_erase, hP]
    exact and_iff_right hx
  cases hpc : pc.pending with
  | true =>
    refine ⟨insert t (P.erase t), fun x => ?_, ?_⟩
    · by_cases hx : x = t
      · subst hx
        rw [ht, Function.update_self, hpc]
        simp
      · rw [Finset.mem_insert, or_iff_right hx]
        exact hother x hx
    · rw [Finset.card_insert_of_notMem (Finset.notMem_erase t P)]
      rw [hpc, Bool.toNat_true] at hle
      omega
  | false =>
    refine ⟨P.erase t, fun x => ?_, ?_⟩
    · by_cases hx : x = t
      · subst hx
        rw [ht, Function.update_self, hpc]
        simp
      · exact hother x hx
    · rw [hpc, Bool.toNat_false] at hle
      omega

theorem claimed_update (h : pc.claimed = none) {x p : Nat}
    (hx : (Function.update s.threads t pc x).claimed = some p) : x ≠ t ∧ (s.threads x).claimed = some p := by
  by_cases hxt : x = t
  · rw [hxt, Function.update_self, h] at hx
    cases hx
  · rw [Function.update_of_ne hxt] at hx
    exact ⟨hxt, hx⟩

structure SamePositions (s s' : QueueState α) : Prop where
  enqueuePos : s'.enqueuePos = s.enqueuePos
  dequeuePos : s'.dequeuePos = s.dequeuePos
  accepted : s'.accepted = s.accepted

theorem Filling.frame (h : s.Filling CAP pos) (hs : s.SamePositions s') (hcell : s'.cell CAP pos = s.cell CAP pos) :
    s'.Filling CAP pos where
  ge := hs.dequeuePos ▸ h.ge
  lt := hs.enqueuePos ▸ h.lt
  sequence := hcell ▸ h.sequence

theorem Draining.frame (h : s.Draining CAP pos) (hs : s.SamePositions s')
    (hcell : s'.cell CAP pos = s.cell CAP pos) : s'.Draining CAP pos where
  lt := hs.dequeuePos ▸ h.lt
  ge := hs.enqueuePos ▸ h.ge
  sequence := hcell ▸ h.sequence

/-- The positions of the queue stay, and so does the cell that the thread has claimed. -/
theorem Holds.frame (h : s.Holds CAP pc) (hs : s.SamePositions s')
    (hcell : ∀ p, pc.claimed = some p → s'.cell CAP p = s.cell CAP p)
    (hseq : ∀ p, (s.cell CAP p).sequence ≤ (s'.cell CAP p).sequence) : s'.Holds CAP pc := by
  cases pc with
  | idle | enqLoadPos _ | enqueued _ | deqLoadPos | dequeued _ => trivial
  | enqLoadSeq task p => exact Nat.le_trans h hs.enqueuePos.ge
  | enqCas task p => exact ⟨Nat.le_trans h.1 hs.enqueuePos.ge, h.2.trans (hseq p)⟩
  | deqLoadSeq p => exact Nat.le_trans h hs.dequeuePos.ge
  | deqCas p => exact ⟨Nat.le_trans h.1 hs.dequeuePos.ge, h.2.trans (hseq p)⟩
  | enqWrite task p => exact ⟨h.1.frame hs (hcell p rfl), hcell p rfl ▸ h.2.1, hs.accepted ▸ h.2.2⟩
  | enqPublish p => exact ⟨h.1.frame hs (hcell p rfl), hcell p rfl ▸ hs.accepted ▸ h.2⟩
  | deqRead p claim =>
    exact ⟨h.1.frame hs (hcell p rfl), hcell p rfl ▸ h.2.1, hcell p rfl ▸ hs.accepted ▸ h.2.2.1, h.2.2.2⟩
  | deqRelease p task => exact ⟨h.1.frame hs (hcell p rfl), hcell p rfl ▸ h.2⟩

theorem AtRest.frame (h : s.AtRest CAP pos) (hs : s.SamePositions s') (hcell : s'.cell CAP pos = s.cell CAP pos) :
    s'.AtRest CAP pos := by
  cases h with
  | free h₁ h₂ h₃ h₄ =>
    rw [← hcell] at h₁ h₂ h₃ h₄
    exact .free h₁ (hs.enqueuePos ▸ h₂) (hs.dequeuePos ▸ h₃) h₄
  | full p h₁ h₂ h₃ h₄ h₅ h₆ =>
    rw [← hcell] at h₁ h₂ h₆
    exact .full p h₁ h₂ h₃ (hs.dequeuePos ▸ h₄) (hs.enqueuePos ▸ h₅) (hs.accepted ▸ h₆)

theorem AtRest.congr (hcap : IsCapacity CAP) (h : s.AtRest CAP pos) {q : Nat} (hq : q % CAP = pos % CAP) :
    s.AtRest CAP q := by
  cases h with
  | free h₁ h₂ h₃ h₄ =>
    rw [cell_congr hcap hq.symm] at h₁ h₂ h₃ h₄
    exact .free h₁ h₂ h₃ (h₄.trans hq.symm)
  | full p h₁ h₂ h₃ h₄ h₅ h₆ =>
    rw [cell_congr hcap hq.symm] at h₁ h₂ h₆
    exact .full p h₁ h₂ (h₃.trans hq.symm) h₄ h₅ h₆

/-- A thread without a claim that makes none. -/
theorem Inv.quiet (h : s.Inv CAP) (hold : (s.threads t).claimed = none) (hnew : pc.claimed = none)
    (hpc : s.Holds CAP pc) {n : Nat} (hn : pc.pending.toNat + s.operations ≤ (s.threads t).pending.toNat + n) :
    Inv CAP { s.goto t pc with operations := n } where
  order := h.order
  room := h.room
  accepted := h.accepted
  obtained := h.obtained
  matched := h.matched
  apart := by
    intro x x' p p' hx hx' hp
    exact h.apart x x' p p' (claimed_update hnew hx).2 (claimed_update hnew hx').2 hp
  thread := by
    intro x
    have hframe : ∀ pc', s.Holds CAP pc' → Holds CAP { s.goto t pc with operations := n } pc' := fun pc' hpc' =>
      hpc'.frame ⟨rfl, rfl, rfl⟩ (fun _ _ => rfl) (fun _ => Nat.le_refl _)
    by_cases hx : x = t
    · subst hx
      simp only [threads_goto_self]
      exact hframe pc hpc
    · simp only [threads_goto_ne hx]
      exact hframe _ (h.thread x)
  cell := by
    intro q
    rcases h.cell q with ⟨x, p, hx, hp⟩ | hrest
    · have hxt : x ≠ t := fun e => by rw [e, hold] at hx; cases hx
      refine .inl ⟨x, p, ?_, hp⟩
      simp only [threads_goto_ne hxt]
      exact hx
    · exact .inr (hrest.frame ⟨rfl, rfl, rfl⟩ rfl)
  counted := h.counted.move rfl (by simp only [goto]; omega)

/-- A thread at work on the cell that it has claimed. -/
theorem Inv.work (hcap : IsCapacity CAP) (h : s.Inv CAP) (hold : (s.threads t).claimed = some pos) {c : Cell α}
    (hpc : (s.setCell CAP pos c).Holds CAP pc) (hpending : pc.pending = false)
    (hseq : (s.cell CAP pos).sequence ≤ c.sequence) {obtained : List (Option α)}
    (hlen : obtained.length = s.obtained.length)
    (hmatched : ∀ (k : Nat) (o : Option α), obtained[k]? = some o → o = none ∨ o = s.accepted[k]?)
    (hnew : pc.claimed = some pos ∨ pc.claimed = none ∧ (s.setCell CAP pos c).AtRest CAP pos) :
    Inv CAP { (s.setCell CAP pos c).goto t pc with obtained := obtained } where
  order := h.order
  room := h.room
  accepted := h.accepted
  obtained := hlen.trans h.obtained
  matched := hmatched
  apart := by
    have hback : ∀ x p, (Function.update s.threads t pc x).claimed = some p → (s.threads x).claimed = some p := by
      intro x p hx
      by_cases hxt : x = t
      · rw [hxt, Function.update_self] at hx
        rcases hnew with hsame | ⟨hnone, -⟩
        · rw [hxt, hold, ← hsame, hx]
        · rw [hnone] at hx; cases hx
      · rw [Function.update_of_ne hxt] at hx
        exact hx
    intro x x' p p' hx hx' hp
    exact h.apart x x' p p' (hback x p hx) (hback x' p' hx') hp
  thread := by
    intro x
    by_cases hx : x = t
    · subst hx
      simp only [threads_goto_self]
      exact hpc.frame ⟨rfl, rfl, rfl⟩ (fun _ _ => rfl) (fun _ => Nat.le_refl _)
    · simp only [threads_goto_ne hx]
      refine (h.thread x).frame ⟨rfl, rfl, rfl⟩ (fun p hp => ?_) (fun p => ?_)
      · exact cell_setCell_ne hcap (fun e => hx (h.apart x t p pos hp hold e)) c
      · show (s.cell CAP p).sequence ≤ ((s.setCell CAP pos c).cell CAP p).sequence
        by_cases hp : p % CAP = pos % CAP
        · rw [cell_congr hcap hp, cell_congr hcap hp, cell_setCell_self]
          exact hseq
        · rw [cell_setCell_ne hcap hp]
  cell := by
    intro q
    by_cases hq : q % CAP = pos % CAP
    · rcases hnew with hsame | ⟨hnone, hrest⟩
      · refine .inl ⟨t, pos, ?_, hq.symm⟩
        simp only [threads_goto_self]
        exact hsame
      · exact .inr ((hrest.congr hcap hq).frame ⟨rfl, rfl, rfl⟩ rfl)
    · rcases h.cell q with ⟨x, p, hx, hp⟩ | hrest
      · have hxt : x ≠ t := fun e => hq (by rw [e, hold] at hx; rw [← hp, Option.some.inj hx])
        refine .inl ⟨x, p, ?_, hp⟩
        simp only [threads_goto_ne hxt]
        exact hx
      · exact .inr (hrest.frame ⟨rfl, rfl, rfl⟩ (cell_setCell_ne hcap hq c))
  counted := by
    refine h.counted.move rfl ?_
    rw [hpending]
    simp only [goto, setCell, Bool.toNat_false]
    omega

/-! ## Claims -/

theorem Holds.claimed_cases (h : s.Holds CAP pc) (hc : pc.claimed = some pos) :
    s.Filling CAP pos ∨ s.Draining CAP pos := by
  cases pc with
  | enqWrite task p | enqPublish p =>
    obtain rfl := Option.some.inj hc
    exact .inl h.1
  | deqRead p claim | deqRelease p task =>
    obtain rfl := Option.some.inj hc
    exact .inr h.1
  | _ => cases hc

/-- A sequence number not behind the position to enqueue at: the cell is free,
and its turn has come. -/
theorem Inv.enqueue_turn (hcap : IsCapacity CAP) (h : s.Inv CAP)
    (hseq : s.enqueuePos ≤ (s.cell CAP s.enqueuePos).sequence) :
    (∀ x p, (s.threads x).claimed = some p → p % CAP ≠ s.enqueuePos % CAP) ∧
      (s.cell CAP s.enqueuePos).stage = .empty ∧ (s.cell CAP s.enqueuePos).sequence = s.enqueuePos ∧
      s.enqueuePos < s.dequeuePos + CAP := by
  have htwo := hcap.two_le
  have horder := h.order
  -- one behind is another cell
  have hbehind : ∀ p, p % CAP = s.enqueuePos % CAP → p + 1 ≠ s.enqueuePos := by
    intro p hp he
    have := Ring.eq_of_mod_eq hp.symm (by omega) (by omega)
    omega
  have hfree : ∀ x p, (s.threads x).claimed = some p → p % CAP ≠ s.enqueuePos % CAP := by
    intro x p hx hp
    rw [← cell_congr hcap hp] at hseq
    rcases (h.thread x).claimed_cases hx with hfill | hdrain
    · have := hfill.lt
      have := hfill.sequence
      omega
    · have := hdrain.lt
      have := hdrain.sequence
      exact hbehind p hp (by omega)
  refine ⟨hfree, ?_⟩
  rcases h.cell s.enqueuePos with ⟨x, p, hx, hp⟩ | hrest
  · exact absurd hp (hfree x p hx)
  · cases hrest with
    | free h₁ h₂ h₃ h₄ =>
      have he := Ring.eq_of_mod_eq h₄ h₂ (by omega)
      exact ⟨h₁, he, by omega⟩
    | full p h₁ h₂ h₃ h₄ h₅ h₆ => exact absurd (by omega) (hbehind p h₃)

/-- A sequence number past the position to dequeue at: the cell holds the task
of that position, published. -/
theorem Inv.dequeue_turn (hcap : IsCapacity CAP) (h : s.Inv CAP)
    (hseq : s.dequeuePos + 1 ≤ (s.cell CAP s.dequeuePos).sequence) :
    (∀ x p, (s.threads x).claimed = some p → p % CAP ≠ s.dequeuePos % CAP) ∧
      (s.cell CAP s.dequeuePos).stage = .published ∧
      (s.cell CAP s.dequeuePos).sequence = s.dequeuePos + 1 ∧ s.dequeuePos < s.enqueuePos ∧
      s.accepted[s.dequeuePos]? = some (s.cell CAP s.dequeuePos).data := by
  have horder := h.order
  have hroom := h.room
  have hfree : ∀ x p, (s.threads x).claimed = some p → p % CAP ≠ s.dequeuePos % CAP := by
    intro x p hx hp
    rw [← cell_congr hcap hp] at hseq
    rcases (h.thread x).claimed_cases hx with hfill | hdrain
    · have hlt := hfill.lt
      have := Ring.eq_of_mod_eq hp hfill.ge (by omega)
      have := hfill.sequence
      omega
    · have := hdrain.lt
      have := hdrain.sequence
      omega
  refine ⟨hfree, ?_⟩
  rcases h.cell s.dequeuePos with ⟨x, p, hx, hp⟩ | hrest
  · exact absurd hp (hfree x p hx)
  · cases hrest with
    | free h₁ h₂ h₃ h₄ =>
      have := Ring.eq_of_mod_eq h₄ (by omega) h₃
      omega
    | full p h₁ h₂ h₃ h₄ h₅ h₆ =>
      obtain rfl := Ring.eq_of_mod_eq h₃ h₄ (by omega)
      exact ⟨h₁, h₂, h₅, h₆⟩

def claimEnqueue (s : QueueState α) (task : α) : QueueState α :=
  { s with enqueuePos := s.enqueuePos + 1, accepted := s.accepted ++ [task] }

def claimDequeue (s : QueueState α) : QueueState α :=
  { s with dequeuePos := s.dequeuePos + 1, obtained := s.obtained ++ [none] }

theorem Filling.claimEnqueue (h : s.Filling CAP pos) (task : α) : (s.claimEnqueue task).Filling CAP pos :=
  ⟨h.ge, Nat.lt_succ_of_lt h.lt, h.sequence⟩

theorem Draining.claimEnqueue (h : s.Draining CAP pos) (hne : pos % CAP ≠ s.enqueuePos % CAP) (task : α) :
    (s.claimEnqueue task).Draining CAP pos := by
  have hge : s.enqueuePos ≠ pos + CAP := fun e => hne (by rw [e, Nat.add_mod_right])
  exact ⟨h.lt, Nat.lt_of_le_of_ne h.ge hge, h.sequence⟩

theorem Holds.claimEnqueue (h : s.Holds CAP pc)
    (hne : ∀ p, pc.claimed = some p → p % CAP ≠ s.enqueuePos % CAP) (task : α) :
    (s.claimEnqueue task).Holds CAP pc := by
  cases pc with
  | idle | enqLoadPos _ | enqueued _ | deqLoadPos | dequeued _ => trivial
  | enqLoadSeq _ p => exact Nat.le_succ_of_le h
  | enqCas _ p => exact ⟨Nat.le_succ_of_le h.1, h.2⟩
  | deqLoadSeq p | deqCas p => exact h
  | enqWrite _ p => exact ⟨h.1.claimEnqueue task, h.2.1, Ring.getElem?_concat_of_some h.2.2 task⟩
  | enqPublish p => exact ⟨h.1.claimEnqueue task, Ring.getElem?_concat_of_some h.2 task⟩
  | deqRead p claim =>
    exact ⟨h.1.claimEnqueue (hne p rfl) task, h.2.1, Ring.getElem?_concat_of_some h.2.2.1 task, h.2.2.2⟩
  | deqRelease p _ => exact ⟨h.1.claimEnqueue (hne p rfl) task, h.2⟩

theorem AtRest.claimEnqueue (h : s.AtRest CAP pos) (hne : pos % CAP ≠ s.enqueuePos % CAP) (task : α) :
    (s.claimEnqueue task).AtRest CAP pos := by
  cases h with
  | free h₁ h₂ h₃ h₄ =>
    have hseq : s.enqueuePos ≠ (s.cell CAP pos).sequence := fun e => hne (by rw [e, h₄])
    exact .free h₁ (Nat.lt_of_le_of_ne h₂ hseq) h₃ h₄
  | full p h₁ h₂ h₃ h₄ h₅ h₆ =>
    exact .full p h₁ h₂ h₃ h₄ (Nat.lt_succ_of_lt h₅) (Ring.getElem?_concat_of_some h₆ task)

theorem Filling.claimDequeue (h : s.Filling CAP pos) (hne : pos % CAP ≠ s.dequeuePos % CAP) :
    s.claimDequeue.Filling CAP pos := by
  have hge : s.dequeuePos ≠ pos := fun e => hne (by rw [e])
  exact ⟨Nat.lt_of_le_of_ne h.ge hge, h.lt, h.sequence⟩

theorem Draining.claimDequeue (h : s.Draining CAP pos) : s.claimDequeue.Draining CAP pos :=
  ⟨Nat.lt_succ_of_lt h.lt, h.ge, h.sequence⟩

theorem Holds.claimDequeue (h : s.Holds CAP pc)
    (hne : ∀ p, pc.claimed = some p → p % CAP ≠ s.dequeuePos % CAP) : s.claimDequeue.Holds CAP pc := by
  cases pc with
  | idle | enqLoadPos _ | enqueued _ | deqLoadPos | dequeued _ => trivial
  | enqLoadSeq _ p | enqCas _ p => exact h
  | deqLoadSeq p => exact Nat.le_succ_of_le h
  | deqCas p => exact ⟨Nat.le_succ_of_le h.1, h.2⟩
  | enqWrite _ p | enqPublish p => exact ⟨h.1.claimDequeue (hne p rfl), h.2⟩
  | deqRead p claim | deqRelease p _ => exact ⟨h.1.claimDequeue, h.2⟩

theorem AtRest.claimDequeue (h : s.AtRest CAP pos) (hne : pos % CAP ≠ s.dequeuePos % CAP) :
    s.claimDequeue.AtRest CAP pos := by
  cases h with
  | free h₁ h₂ h₃ h₄ =>
    have hlt : (s.cell CAP pos).sequence < s.dequeuePos + 1 + CAP := by omega
    exact .free h₁ h₂ hlt h₄
  | full p h₁ h₂ h₃ h₄ h₅ h₆ =>
    have hp : s.dequeuePos ≠ p := fun e => hne (by rw [e, h₃])
    exact .full p h₁ h₂ h₃ (Nat.lt_of_le_of_ne h₄ hp) h₅ h₆

/-- The cell that a thread claims is its own. -/
theorem Inv.apart_claim (h : s.Inv CAP)
    (hfree : ∀ x p, (s.threads x).claimed = some p → p % CAP ≠ pos % CAP) (hpc : pc.claimed = some pos)
    (x x' p p' : Nat) (hx : (Function.update s.threads t pc x).claimed = some p)
    (hx' : (Function.update s.threads t pc x').claimed = some p') (hp : p % CAP = p' % CAP) : x = x' := by
  by_cases hxt : x = t
  · by_cases hxt' : x' = t
    · rw [hxt, hxt']
    · rw [hxt, Function.update_self, hpc] at hx
      rw [Function.update_of_ne hxt'] at hx'
      rw [← Option.some.inj hx] at hp
      exact absurd hp.symm (hfree x' p' hx')
  · rw [Function.update_of_ne hxt] at hx
    by_cases hxt' : x' = t
    · rw [hxt', Function.update_self, hpc] at hx'
      rw [← Option.some.inj hx'] at hp
      exact absurd hp (hfree x p hx)
    · rw [Function.update_of_ne hxt'] at hx'
      exact h.apart x x' p p' hx hx' hp

/-- Every other cell is as it was. -/
theorem Inv.cell_claim (h : s.Inv CAP) (hold : (s.threads t).claimed = none) (hpc : pc.claimed = some pos)
    (hrest : ∀ q, q % CAP ≠ pos % CAP → s.AtRest CAP q → s'.AtRest CAP q) (q : Nat) :
    (∃ x p, (Function.update s.threads t pc x).claimed = some p ∧ p % CAP = q % CAP) ∨ s'.AtRest CAP q := by
  by_cases hq : pos % CAP = q % CAP
  · exact .inl ⟨t, pos, by rw [Function.update_self, hpc], hq⟩
  · rcases h.cell q with ⟨x, p, hx, hp⟩ | hr
    · have hxt : x ≠ t := fun e => by rw [e, hold] at hx; cases hx
      exact .inl ⟨x, p, by rw [Function.update_of_ne hxt, hx], hp⟩
    · exact .inr (hrest q (Ne.symm hq) hr)

theorem Inv.claimEnqueue (hcap : IsCapacity CAP) (h : s.Inv CAP) (task : α)
    (hseq : s.enqueuePos ≤ (s.cell CAP s.enqueuePos).sequence) (hold : (s.threads t).claimed = none)
    (hpending : (s.threads t).pending = true) :
    ((s.claimEnqueue task).goto t (.enqWrite task s.enqueuePos)).Inv CAP := by
  obtain ⟨hfree, hstage, hturn, hroom⟩ := h.enqueue_turn hcap hseq
  have horder := h.order
  refine ⟨?_, ?_, ?_, h.obtained, fun k o hk => ?_, ?_, fun x => ?_, ?_, ?_⟩
  · exact Nat.le_succ_of_le h.order
  · exact hroom
  · show (s.accepted ++ [task]).length = s.enqueuePos + 1
    rw [List.length_append, h.accepted]
    rfl
  · have hlt : k < s.accepted.length := by
      have hk' : k < s.obtained.length := (List.getElem?_eq_some_iff.mp hk).1
      rw [h.obtained] at hk'
      rw [h.accepted]
      omega
    show o = none ∨ o = (s.accepted ++ [task])[k]?
    rw [List.getElem?_append_left hlt]
    exact h.matched k o hk
  · exact h.apart_claim hfree rfl
  · by_cases hx : x = t
    · subst hx
      simp only [threads_goto_self]
      refine ⟨⟨h.order, Nat.lt_succ_self _, hturn⟩, hstage, ?_⟩
      show (s.accepted ++ [task])[s.enqueuePos]? = some task
      rw [← h.accepted, List.getElem?_concat_length]
    · simp only [threads_goto_ne hx]
      exact ((h.thread x).claimEnqueue (hfree x) task).frame ⟨rfl, rfl, rfl⟩ (fun _ _ => rfl)
        fun _ => Nat.le_refl _
  · refine h.cell_claim hold rfl fun q hq hrest => ?_
    exact (hrest.claimEnqueue hq task).frame ⟨rfl, rfl, rfl⟩ rfl
  · refine h.counted.move rfl ?_
    rw [hpending]
    simp only [goto, QueueState.claimEnqueue, QueuePc.pending, Bool.toNat_false, Bool.toNat_true]
    omega

theorem Inv.claimDequeue (hcap : IsCapacity CAP) (h : s.Inv CAP)
    (hseq : s.dequeuePos + 1 ≤ (s.cell CAP s.dequeuePos).sequence) (hold : (s.threads t).claimed = none)
    (hpending : (s.threads t).pending = true) :
    (s.claimDequeue.goto t (.deqRead s.dequeuePos s.dequeuePos)).Inv CAP := by
  obtain ⟨hfree, hstage, hturn, hlt, hdata⟩ := h.dequeue_turn hcap hseq
  have hroom := h.room
  refine ⟨hlt, ?_, h.accepted, ?_, fun k o hk => ?_, ?_, fun x => ?_, ?_, ?_⟩
  · show s.enqueuePos ≤ s.dequeuePos + 1 + CAP
    omega
  · show (s.obtained ++ [none]).length = s.dequeuePos + 1
    rw [List.length_append, h.obtained]
    rfl
  · have hk' : (s.obtained ++ [none])[k]? = some o := hk
    rw [List.getElem?_append] at hk'
    split at hk'
    · exact h.matched k o hk'
    · have hmem := List.mem_of_getElem? hk'
      exact .inl (List.mem_singleton.mp hmem)
  · exact h.apart_claim hfree rfl
  · by_cases hx : x = t
    · subst hx
      simp only [threads_goto_self]
      exact ⟨⟨Nat.lt_succ_self _, h.room, hturn⟩, hstage, hdata, rfl⟩
    · simp only [threads_goto_ne hx]
      exact ((h.thread x).claimDequeue (hfree x)).frame ⟨rfl, rfl, rfl⟩ (fun _ _ => rfl) fun _ => Nat.le_refl _
  · refine h.cell_claim hold rfl fun q hq hrest => ?_
    exact (hrest.claimDequeue hq).frame ⟨rfl, rfl, rfl⟩ rfl
  · refine h.counted.move rfl ?_
    rw [hpending]
    simp only [goto, QueueState.claimDequeue, QueuePc.pending, Bool.toNat_false, Bool.toNat_true]
    omega

/-! ## Steps -/

theorem Inv.sequence_lt (hcap : IsCapacity CAP) (h : s.Inv CAP) (hsmall : s.operations < 2 ^ 62) (q : Nat) :
    (s.cell CAP q).sequence < 2 ^ 64 := by
  have hhalf := hcap.le_half
  have hpos := h.counted.positions_le
  have horder := h.order
  rcases h.cell q with ⟨x, p, hx, hp⟩ | hrest
  · rw [← cell_congr hcap hp]
    rcases (h.thread x).claimed_cases hx with hfill | hdrain
    · have := hfill.lt
      rw [hfill.sequence]
      omega
    · have := hdrain.lt
      rw [hdrain.sequence]
      omega
  · cases hrest with
    | free h₁ h₂ h₃ h₄ => omega
    | full p h₁ h₂ h₃ h₄ h₅ h₆ => omega

theorem start_eq (hs : s.start t pc = some s') : (s.threads t).claimed = none ∧ (s.threads t).pending = false ∧
    s' = { s.goto t pc with operations := s.operations + 1 } := by
  unfold start at hs
  cases hpc : s.threads t with
  | idle | enqueued _ | dequeued _ =>
    rw [hpc] at hs
    exact ⟨rfl, rfl, (Option.some.inj hs).symm⟩
  | _ => rw [hpc] at hs; cases hs

theorem Inv.start (h : s.Inv CAP) (hnew : pc.claimed = none) (hpc : s.Holds CAP pc) (hs : s.start t pc = some s') :
    s'.Inv CAP := by
  obtain ⟨hold, hpending, rfl⟩ := start_eq hs
  refine h.quiet hold hnew hpc ?_
  rw [hpending]
  have := Bool.toNat_le pc.pending
  simp only [Bool.toNat_false]
  omega

/-- A thread that reads shared memory, or fails to change it. -/
theorem Inv.look (h : s.Inv CAP) (hold : (s.threads t).pending = true) (hnew : pc.claimed = none)
    (hpc : s.Holds CAP pc) : (s.goto t pc).Inv CAP := by
  have hnone : (s.threads t).claimed = none := by
    cases hx : s.threads t <;> rw [hx] at hold <;> first | rfl | cases hold
  refine h.quiet hnone hnew hpc ?_
  rw [hold]
  have := Bool.toNat_le pc.pending
  simp only [Bool.toNat_true]
  omega

theorem Inv.write (hcap : IsCapacity CAP) (h : s.Inv CAP) {task : α} (hpc : s.threads t = .enqWrite task pos) :
    ((s.setCell CAP pos { s.cell CAP pos with data := task, stage := .written }).goto t (.enqPublish pos)).Inv
      CAP := by
  have hT := h.thread t
  rw [hpc] at hT
  obtain ⟨hfill, -, htask⟩ := hT
  have hnew : (s.setCell CAP pos { s.cell CAP pos with data := task, stage := .written }).Holds CAP
      (.enqPublish pos) := by
    refine ⟨⟨hfill.ge, hfill.lt, ?_⟩, ?_⟩ <;> rw [cell_setCell_self]
    · exact hfill.sequence
    · exact htask
  exact h.work hcap (by rw [hpc]; rfl) hnew rfl (Nat.le_refl _) rfl h.matched (.inl rfl)

theorem Inv.publish (hcap : IsCapacity CAP) (h : s.Inv CAP) (hpc : s.threads t = .enqPublish pos) :
    ((s.setCell CAP pos { s.cell CAP pos with sequence := pos + 1, stage := .published }).goto t
      (.enqueued true)).Inv CAP := by
  have hT := h.thread t
  rw [hpc] at hT
  obtain ⟨hfill, htask⟩ := hT
  have hseq := hfill.sequence
  have hrest : (s.setCell CAP pos { s.cell CAP pos with sequence := pos + 1, stage := .published }).AtRest
      CAP pos := by
    refine .full pos ?_ ?_ rfl hfill.ge hfill.lt ?_ <;> rw [cell_setCell_self]
    exact htask
  exact h.work hcap (by rw [hpc]; rfl) (show Holds CAP _ (.enqueued true) from trivial) rfl
    (by simp only; omega) rfl h.matched (.inr ⟨rfl, hrest⟩)

theorem Inv.read (hcap : IsCapacity CAP) (h : s.Inv CAP) {claim : Nat} (hpc : s.threads t = .deqRead pos claim) :
    Inv CAP { (s.setCell CAP pos { s.cell CAP pos with stage := .empty }).goto t
        (.deqRelease pos (s.cell CAP pos).data) with
      obtained := s.obtained.set claim (some (s.cell CAP pos).data) } := by
  have hT := h.thread t
  rw [hpc] at hT
  obtain ⟨hdrain, -, hdata, rfl⟩ := hT
  have hnew : (s.setCell CAP claim { s.cell CAP claim with stage := .empty }).Holds CAP
      (.deqRelease claim (s.cell CAP claim).data) := by
    refine ⟨⟨hdrain.lt, hdrain.ge, ?_⟩, ?_⟩ <;> rw [cell_setCell_self]
    exact hdrain.sequence
  refine h.work hcap (by rw [hpc]; rfl) hnew rfl (Nat.le_refl _) (List.length_set ..) (fun k o hk => ?_) (.inl rfl)
  rw [List.getElem?_set] at hk
  split at hk
  · next he =>
    subst he
    split at hk
    · exact .inr (by rw [hdata, Option.some.inj hk])
    · cases hk
  · exact h.matched k o hk

theorem Inv.release (hcap : IsCapacity CAP) (h : s.Inv CAP) {task : α} (hpc : s.threads t = .deqRelease pos task) :
    ((s.setCell CAP pos { s.cell CAP pos with sequence := pos + CAP }).goto t (.dequeued (some task))).Inv CAP := by
  have hT := h.thread t
  rw [hpc] at hT
  obtain ⟨hdrain, hstage⟩ := hT
  have hlt := hdrain.lt
  have hseq := hdrain.sequence
  have htwo := hcap.two_le
  have hrest : (s.setCell CAP pos { s.cell CAP pos with sequence := pos + CAP }).AtRest CAP pos := by
    refine .free ?_ ?_ ?_ ?_ <;> rw [cell_setCell_self]
    · exact hstage
    · exact hdrain.ge
    · show pos + CAP < s.dequeuePos + CAP
      omega
    · exact Nat.add_mod_right pos CAP
  exact h.work hcap (by rw [hpc]; rfl) (show Holds CAP _ (.dequeued (some task)) from trivial) rfl
    (by simp only; omega) rfl h.matched (.inr ⟨rfl, hrest⟩)

theorem Inv.stepThread (hcap : IsCapacity CAP) (h : s.Inv CAP) (hsmall : s.operations < 2 ^ 62) {spurious : Bool}
    (hs : s.stepThread CAP t spurious = some s') : s'.Inv CAP := by
  have hpos := h.counted.positions_le
  have horder := h.order
  have hhalf := hcap.le_half
  have hT := h.thread t
  unfold QueueState.stepThread at hs
  cases hpc : s.threads t with
  | idle | enqueued _ | dequeued _ => rw [hpc] at hs; cases hs
  | enqLoadPos task =>
    rw [hpc] at hs
    obtain rfl := Option.some.inj hs
    exact h.look (by rw [hpc]; rfl) rfl (Nat.le_refl _)
  | enqLoadSeq task pos =>
    rw [hpc] at hs hT
    simp only at hs
    have hle : pos ≤ s.enqueuePos := hT
    split at hs
    · next hd =>
      obtain rfl := Option.some.inj hs
      have he := wordDiff_eq_zero (h.sequence_lt hcap hsmall pos) (by omega) hd
      exact h.look (by rw [hpc]; rfl) rfl ⟨hle, he.ge⟩
    · split at hs <;> obtain rfl := Option.some.inj hs <;> exact h.look (by rw [hpc]; rfl) rfl trivial
  | enqCas task pos =>
    rw [hpc] at hs hT
    simp only at hs
    obtain ⟨-, hseq⟩ : pos ≤ s.enqueuePos ∧ pos ≤ (s.cell CAP pos).sequence := hT
    split at hs
    · next hd =>
      obtain ⟨rfl, -⟩ := hd
      obtain rfl := Option.some.inj hs
      rw [Nat.mod_eq_of_lt (by omega)]
      exact h.claimEnqueue hcap task hseq (by rw [hpc]; rfl) (by rw [hpc]; rfl)
    · obtain rfl := Option.some.inj hs
      exact h.look (by rw [hpc]; rfl) rfl (Nat.le_refl _)
  | enqWrite task pos =>
    rw [hpc] at hs
    obtain rfl := Option.some.inj hs
    exact h.write hcap hpc
  | enqPublish pos =>
    rw [hpc] at hs hT
    have hlt := hT.1.lt
    obtain rfl := Option.some.inj hs
    rw [Nat.mod_eq_of_lt (by omega)]
    exact h.publish hcap hpc
  | deqLoadPos =>
    rw [hpc] at hs
    obtain rfl := Option.some.inj hs
    exact h.look (by rw [hpc]; rfl) rfl (Nat.le_refl _)
  | deqLoadSeq pos =>
    rw [hpc] at hs hT
    simp only at hs
    have hle : pos ≤ s.dequeuePos := hT
    split at hs
    · next hd =>
      obtain rfl := Option.some.inj hs
      rw [Nat.mod_eq_of_lt (by omega)] at hd
      have he := wordDiff_eq_zero (h.sequence_lt hcap hsmall pos) (by omega) hd
      exact h.look (by rw [hpc]; rfl) rfl ⟨hle, he.ge⟩
    · split at hs <;> obtain rfl := Option.some.inj hs <;> exact h.look (by rw [hpc]; rfl) rfl trivial
  | deqCas pos =>
    rw [hpc] at hs hT
    simp only at hs
    obtain ⟨-, hseq⟩ : pos ≤ s.dequeuePos ∧ pos + 1 ≤ (s.cell CAP pos).sequence := hT
    split at hs
    · next hd =>
      obtain ⟨rfl, -⟩ := hd
      obtain rfl := Option.some.inj hs
      rw [Nat.mod_eq_of_lt (by omega), h.obtained]
      exact h.claimDequeue hcap hseq (by rw [hpc]; rfl) (by rw [hpc]; rfl)
    · obtain rfl := Option.some.inj hs
      exact h.look (by rw [hpc]; rfl) rfl (Nat.le_refl _)
  | deqRead pos claim =>
    rw [hpc] at hs
    obtain rfl := Option.some.inj hs
    exact h.read hcap hpc
  | deqRelease pos task =>
    rw [hpc] at hs hT
    have hlt := hT.1.lt
    obtain rfl := Option.some.inj hs
    rw [Nat.mod_eq_of_lt (by omega)]
    exact h.release hcap hpc

theorem stepThread_operations {spurious : Bool} (hs : s.stepThread CAP t spurious = some s') :
    s'.operations = s.operations := by
  unfold QueueState.stepThread at hs
  cases hpc : s.threads t with
  | idle | enqueued _ | dequeued _ => rw [hpc] at hs; cases hs
  | enqLoadPos _ | deqLoadPos | enqWrite _ _ | enqPublish _ | deqRead _ _ | deqRelease _ _ =>
    rw [hpc] at hs
    rw [← Option.some.inj hs]
    rfl
  | enqLoadSeq _ _ | deqLoadSeq _ =>
    rw [hpc] at hs
    simp only at hs
    split at hs
    · rw [← Option.some.inj hs]; rfl
    · split at hs <;> rw [← Option.some.inj hs] <;> rfl
  | enqCas _ _ | deqCas _ =>
    rw [hpc] at hs
    simp only at hs
    split at hs <;> rw [← Option.some.inj hs] <;> rfl

theorem step_operations {e : QueueEvent α} (hs : s.step CAP e = some s') : s.operations ≤ s'.operations := by
  cases e with
  | enqueue t task | dequeue t =>
    obtain ⟨-, -, rfl⟩ := start_eq hs
    exact Nat.le_succ _
  | step t spurious => exact (stepThread_operations hs).ge

theorem Inv.step (hcap : IsCapacity CAP) {e : QueueEvent α} (h : s.Inv CAP) (hs : s.step CAP e = some s')
    (hsmall : s.operations < 2 ^ 62) : s'.Inv CAP := by
  cases e with
  | enqueue t task => exact h.start rfl (show s.Holds CAP (.enqLoadPos task) from trivial) hs
  | dequeue t => exact h.start rfl (show s.Holds CAP .deqLoadPos from trivial) hs
  | step t spurious => exact h.stepThread hcap hsmall hs

/-- Up to `2 ^ 62` operations, which no sequence number outgrows. -/
theorem run_inv (hcap : IsCapacity CAP) {es : List (QueueEvent α)} {task : α}
    (hr : run (step CAP) (init task) es = some s) (hsmall : s.operations < 2 ^ 62) : s.Inv CAP := by
  have hstep : ∀ (s : QueueState α) e s', (s.operations < 2 ^ 62 → s.Inv CAP) → s.step CAP e = some s' →
      s'.operations < 2 ^ 62 → s'.Inv CAP := by
    intro s e s' hI hs hlt
    have hle := step_operations hs
    exact (hI (by omega)).step hcap hs (by omega)
  exact inv_run hstep (fun _ => inv_init hcap task) hr hsmall

/-- A cell is written when nothing in it is still to be read, and read when its
task is published. By dequeue claim, the obtained tasks are the first of the
accepted ones, but for the claims that have not read yet. -/
structure Safe (CAP : Nat) (s : QueueState α) : Prop where
  write : ∀ t task pos, s.threads t = .enqWrite task pos → (s.cell CAP pos).stage = .empty
  read : ∀ t pos claim, s.threads t = .deqRead pos claim → (s.cell CAP pos).stage = .published
  fifo : ∃ tasks, tasks <+: s.accepted ∧ List.Forall₂ (fun o a => o = none ∨ o = some a) s.obtained tasks
  all_read : ∀ tasks, s.obtained = tasks.map some → tasks <+: s.accepted

theorem Inv.fifo (h : s.Inv CAP) :
    List.Forall₂ (fun o a => o = none ∨ o = some a) s.obtained (s.accepted.take s.dequeuePos) := by
  rw [List.forall₂_iff_get]
  have hlen : (s.accepted.take s.dequeuePos).length = s.dequeuePos := by
    rw [List.length_take, h.accepted]
    exact Nat.min_eq_left h.order
  refine ⟨h.obtained.trans hlen.symm, fun i h₁ h₂ => ?_⟩
  have hi : s.accepted[i]? = some ((s.accepted.take s.dequeuePos).get ⟨i, h₂⟩) := by
    rw [hlen] at h₂
    simp [h.accepted, h₂.trans_le h.order]
  rw [← hi]
  exact h.matched i _ (List.getElem?_eq_getElem h₁)

theorem prefix_of_matched {tasks l : List α}
    (h : List.Forall₂ (fun o a => o = none ∨ o = some a) (tasks.map some) l) : tasks = l := by
  rw [List.forall₂_map_left_iff] at h
  refine List.forall₂_eq_eq_eq ▸ h.imp fun a b hab => ?_
  rcases hab with hn | hs
  · cases hn
  · exact Option.some.inj hs

theorem Inv.safe (h : s.Inv CAP) : s.Safe CAP where
  write := by
    intro t task pos ht
    have hT := h.thread t
    rw [ht] at hT
    exact hT.2.1
  read := by
    intro t pos claim ht
    have hT := h.thread t
    rw [ht] at hT
    exact hT.2.1
  fifo := ⟨_, List.take_prefix _ _, h.fifo⟩
  all_read := by
    intro tasks ht
    have hfifo := h.fifo
    rw [ht] at hfifo
    rw [prefix_of_matched hfifo]
    exact List.take_prefix _ _

/-- A run of any number of producers and consumers, below `2 ^ 62` operations. -/
theorem queue_fifo (hcap : IsCapacity CAP) (task : α) (es : List (QueueEvent α)) (s : QueueState α)
    (hr : run (step CAP) (init task) es = some s) (hsmall : s.operations < 2 ^ 62) : s.Safe CAP :=
  (run_inv hcap hr hsmall).safe

end

end QueueState

namespace Sample

open QueueState

/-- Thread 0 enqueues 7, and thread 1 dequeues it. -/
def handedOver : List (QueueEvent Nat) :=
  [.enqueue 0 7, .dequeue 1] ++ List.replicate 5 (.step 0 false) ++ List.replicate 5 (.step 1 false)

def handedOverState : QueueState Nat := (run (step 2) (init 0) handedOver).getD (init 0)

theorem run_handedOver : run (step 2) (init 0) handedOver = some handedOverState := by
  have hsome : (run (step 2) (init 0) handedOver).isSome = true := by decide +kernel
  obtain ⟨s, hs⟩ := Option.isSome_iff_exists.mp hsome
  rw [handedOverState, hs]
  rfl

theorem queue_fifo_handedOver : handedOverState.Safe 2 :=
  queue_fifo ⟨1, by decide, by decide, rfl⟩ 0 handedOver handedOverState run_handedOver (by decide +kernel)

example : handedOverState.obtained = [some 7] := by decide

end Sample

end OrderExecution
