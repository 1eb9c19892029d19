import OrderExecution.MPMCQueueSound

/-!
# What an access of `MPMCQueue` does

An operation that fails has found the queue full, or empty, but for operations
of other threads that are still in progress.
-/

namespace OrderExecution

open Machine

namespace QueuePc

variable {α : Type}

/-- The thread is in `enqueue`. -/
def enqueuing : QueuePc α → Bool
  | .enqLoadPos _ | .enqLoadSeq _ _ | .enqCas _ _ | .enqWrite _ _ | .enqPublish _ => true
  | _ => false

/-- The thread is in `dequeue`. -/
def dequeuing : QueuePc α → Bool
  | .deqLoadPos | .deqLoadSeq _ | .deqCas _ | .deqRead _ _ | .deqRelease _ _ => true
  | _ => false

end QueuePc

namespace QueueState

variable {α : Type} (CAP : Nat)

/-- The next access of thread `t`, with what it found. -/
inductive Access (s : QueueState α) (t : Nat) : QueueState α → Prop
  /-- Shared memory stays as it is, and the operation goes on. -/
  | look {pc} : (s.threads t).pending = true → pc.pending = true → pc.enqueuing = (s.threads t).enqueuing →
      pc.dequeuing = (s.threads t).dequeuing → Access s t (s.goto t pc)
  | refuse {task pos} : s.threads t = .enqLoadSeq task pos → wordDiff (s.cell CAP pos).sequence pos < 0 →
      Access s t (s.goto t (.enqueued false))
  | findEmpty {pos} : s.threads t = .deqLoadSeq pos →
      wordDiff (s.cell CAP pos).sequence ((pos + 1) % 2 ^ 64) < 0 → Access s t (s.goto t (.dequeued none))
  | claimEnqueue {task} : s.threads t = .enqCas task s.enqueuePos → Access s t
      { s.goto t (.enqWrite task s.enqueuePos) with
        enqueuePos := (s.enqueuePos + 1) % 2 ^ 64, accepted := s.accepted ++ [task] }
  /-- The data or the sequence number of the cell that the thread has claimed. -/
  | fill {pos c pc} : (s.threads t).claimed = some pos → (s.threads t).enqueuing = true →
      pc = .enqPublish pos ∨ pc = .enqueued true → Access s t ((s.setCell CAP pos c).goto t pc)
  | claimDequeue : s.threads t = .deqCas s.dequeuePos → Access s t
      { s.goto t (.deqRead s.dequeuePos s.obtained.length) with
        dequeuePos := (s.dequeuePos + 1) % 2 ^ 64, obtained := s.obtained ++ [none] }
  | read {pos claim c} : s.threads t = .deqRead pos claim → Access s t
      { (s.setCell CAP pos c).goto t (.deqRelease pos (s.cell CAP pos).data) with
        obtained := s.obtained.set claim (some (s.cell CAP pos).data) }
  | release {pos task c} : s.threads t = .deqRelease pos task → Access s t
      ((s.setCell CAP pos c).goto t (.dequeued (some task)))

section
variable {CAP} {s s' : QueueState α} {t x pos : Nat} {spurious : Bool}

theorem access_of_stepThread (h : s.stepThread CAP t spurious = some s') : s.Access CAP t s' := by
  unfold stepThread at h
  cases hpc : s.threads t with
  | idle | enqueued _ | dequeued _ => rw [hpc] at h; cases h
  | enqLoadPos _ | deqLoadPos =>
    rw [hpc] at h
    obtain rfl := Option.some.inj h
    exact .look (by rw [hpc]; rfl) rfl (by rw [hpc]; rfl) (by rw [hpc]; rfl)
  | enqLoadSeq task pos =>
    rw [hpc] at h
    simp only at h
    split at h
    · obtain rfl := Option.some.inj h
      exact .look (by rw [hpc]; rfl) rfl (by rw [hpc]; rfl) (by rw [hpc]; rfl)
    · split at h
      · next hneg =>
        obtain rfl := Option.some.inj h
        exact .refuse hpc hneg
      · obtain rfl := Option.some.inj h
        exact .look (by rw [hpc]; rfl) rfl (by rw [hpc]; rfl) (by rw [hpc]; rfl)
  | deqLoadSeq pos =>
    rw [hpc] at h
    simp only at h
    split at h
    · obtain rfl := Option.some.inj h
      exact .look (by rw [hpc]; rfl) rfl (by rw [hpc]; rfl) (by rw [hpc]; rfl)
    · split at h
      · next hneg =>
        obtain rfl := Option.some.inj h
        exact .findEmpty hpc hneg
      · obtain rfl := Option.some.inj h
        exact .look (by rw [hpc]; rfl) rfl (by rw [hpc]; rfl) (by rw [hpc]; rfl)
  | enqCas task pos =>
    rw [hpc] at h
    simp only at h
    split at h
    · next hcas =>
      obtain ⟨rfl, -⟩ := hcas
      obtain rfl := Option.some.inj h
      exact .claimEnqueue hpc
    · obtain rfl := Option.some.inj h
      exact .look (by rw [hpc]; rfl) rfl (by rw [hpc]; rfl) (by rw [hpc]; rfl)
  | deqCas pos =>
    rw [hpc] at h
    simp only at h
    split at h
    · next hcas =>
      obtain ⟨rfl, -⟩ := hcas
      obtain rfl := Option.some.inj h
      exact .claimDequeue hpc
    · obtain rfl := Option.some.inj h
      exact .look (by rw [hpc]; rfl) rfl (by rw [hpc]; rfl) (by rw [hpc]; rfl)
  | enqWrite task pos =>
    rw [hpc] at h
    obtain rfl := Option.some.inj h
    exact .fill (by rw [hpc]; rfl) (by rw [hpc]; rfl) (.inl rfl)
  | enqPublish pos =>
    rw [hpc] at h
    obtain rfl := Option.some.inj h
    exact .fill (by rw [hpc]; rfl) (by rw [hpc]; rfl) (.inr rfl)
  | deqRead pos claim =>
    rw [hpc] at h
    obtain rfl := Option.some.inj h
    exact .read hpc
  | deqRelease pos task =>
    rw [hpc] at h
    obtain rfl := Option.some.inj h
    exact .release hpc

theorem Access.others (h : s.Access CAP t s') (hx : x ≠ t) : s'.threads x = s.threads x := by
  cases h with
  | look | refuse | findEmpty | claimEnqueue | fill | claimDequeue | read | release =>
    simp [goto, setCell, hx]

/-! ## Operations that fail -/

theorem bmod_word {a : Nat} (h : a < 2 ^ 63) : Int.bmod a (2 ^ 64) = a := by
  apply Int.bmod_eq_of_le <;> omega

theorem wordDiff_neg {a b : Nat} (ha : a < 2 ^ 63) (hb : b < 2 ^ 63) (h : wordDiff a b < 0) : a < b := by
  unfold wordDiff at h
  rw [bmod_word ha, bmod_word hb] at h
  omega

/-- The task accepted `CAP` positions before the next one is in its cell, or on
its way out. -/
def Full (CAP : Nat) (s : QueueState α) : Prop :=
  ∃ p, p + CAP = s.enqueuePos ∧
    (s.dequeuePos = p ∨ ∃ x, s.threads x = .deqRead p p ∨ ∃ task, s.threads x = .deqRelease p task)

/-- Every accepted task is claimed by a consumer, or the first that is not is
still being written. -/
def Drained (s : QueueState α) : Prop :=
  s.dequeuePos = s.enqueuePos ∨ ∃ x, (s.threads x).claimed = some s.dequeuePos ∧ (s.threads x).enqueuing = true

theorem Inv.sequence_lt_half (hcap : CAP ≤ 2 ^ 62) (h : s.Inv CAP) (hsmall : s.operations < 2 ^ 62) (q : Nat)
    (hp : IsCapacity CAP) : (s.cell CAP q).sequence < 2 ^ 63 := by
  have hpos := h.counted.positions_le
  have horder := h.order
  rcases h.cell q with ⟨x, p, hx, hmod⟩ | hrest
  · rw [← cell_congr hp hmod]
    rcases (h.thread x).claimed_cases hx with hfill | hdrain
    · have := hfill.lt
      rw [hfill.sequence]
      omega
    · have := hdrain.lt
      rw [hdrain.sequence]
      omega
  · cases hrest with
    | free h₁ h₂ h₃ h₄ => omega
    | full p h₁ h₂ h₃ h₄ h₅ h₆ => omega

/-- The two kinds of claims, with what the threads are doing. -/
theorem Inv.claim_kind (h : s.Inv CAP) {p : Nat} (hx : (s.threads x).claimed = some p) :
    s.Filling CAP p ∧ (s.threads x).enqueuing = true ∨
      s.Draining CAP p ∧ (s.threads x = .deqRead p p ∨ ∃ task, s.threads x = .deqRelease p task) := by
  have hT := h.thread x
  cases hpc : s.threads x with
  | enqWrite task q | enqPublish q =>
    rw [hpc] at hx hT
    obtain rfl := Option.some.inj hx
    exact .inl ⟨hT.1, rfl⟩
  | deqRead q claim =>
    rw [hpc] at hx hT
    obtain rfl := Option.some.inj hx
    obtain ⟨hdrain, -, -, rfl⟩ := hT
    exact .inr ⟨hdrain, .inl rfl⟩
  | deqRelease q task =>
    rw [hpc] at hx hT
    obtain rfl := Option.some.inj hx
    exact .inr ⟨hT.1, .inr ⟨task, rfl⟩⟩
  | _ => rw [hpc] at hx; cases hx

theorem Inv.full_of_behind (hp : IsCapacity CAP) (h : s.Inv CAP) (hle : pos ≤ s.enqueuePos)
    (hseq : (s.cell CAP pos).sequence < pos) : s.Full CAP := by
  have horder := h.order
  have hroom := h.room
  -- a position of the same cell, before `pos`, is a round before it
  have hround : ∀ p, p % CAP = pos % CAP → p < pos → p + CAP ≤ pos := by
    intro p hmod hlt
    by_contra hnot
    have := Ring.eq_of_mod_eq hmod.symm hlt.le (by omega)
    omega
  rcases h.cell pos with ⟨x, p, hx, hmod⟩ | hrest
  · rw [← cell_congr hp hmod] at hseq
    rcases h.claim_kind hx with ⟨hfill, -⟩ | ⟨hdrain, hpc⟩
    · have hge := hfill.ge
      have := hround p hmod (by rw [hfill.sequence] at hseq; exact hseq)
      exact ⟨p, by omega, .inl (by omega)⟩
    · have hge := hdrain.ge
      have := hround p hmod (by rw [hdrain.sequence] at hseq; omega)
      exact ⟨p, by omega, .inr ⟨x, hpc⟩⟩
  · cases hrest with
    | free h₁ h₂ h₃ h₄ => omega
    | full p h₁ h₂ h₃ h₄ h₅ h₆ =>
      have := hround p h₃ (by omega)
      exact ⟨p, by omega, .inl (by omega)⟩

theorem Inv.drained_of_behind (hp : IsCapacity CAP) (h : s.Inv CAP) (hle : pos ≤ s.dequeuePos)
    (hseq : (s.cell CAP pos).sequence < pos + 1) : s.Drained := by
  have horder := h.order
  have hroom := h.room
  rcases h.cell pos with ⟨x, p, hx, hmod⟩ | hrest
  · rw [← cell_congr hp hmod] at hseq
    rcases h.claim_kind hx with ⟨hfill, henq⟩ | ⟨hdrain, -⟩
    · have hge := hfill.ge
      rw [hfill.sequence] at hseq
      obtain rfl : p = s.dequeuePos := by omega
      exact .inr ⟨x, hx, henq⟩
    · have hge := hdrain.ge
      rw [hdrain.sequence] at hseq
      by_contra hnot
      have hlt : pos < p + CAP := by
        by_contra hfar
        exact hnot (.inl (by omega))
      have := Ring.eq_of_mod_eq hmod.symm (by omega) hlt
      omega
  · cases hrest with
    | free h₁ h₂ h₃ h₄ => exact .inl (by omega)
    | full p h₁ h₂ h₃ h₄ h₅ h₆ => omega

theorem Inv.full_of_refuse (hp : IsCapacity CAP) (hcap : CAP ≤ 2 ^ 62) (h : s.Inv CAP)
    (hsmall : s.operations < 2 ^ 62) {task : α} (ht : s.threads t = .enqLoadSeq task pos)
    (hneg : wordDiff (s.cell CAP pos).sequence pos < 0) : s.Full CAP := by
  have hT := h.thread t
  rw [ht] at hT
  have hle : pos ≤ s.enqueuePos := hT
  have hpos := h.counted.positions_le
  exact h.full_of_behind hp hle (wordDiff_neg (h.sequence_lt_half hcap hsmall pos hp) (by omega) hneg)

theorem Inv.drained_of_findEmpty (hp : IsCapacity CAP) (hcap : CAP ≤ 2 ^ 62) (h : s.Inv CAP)
    (hsmall : s.operations < 2 ^ 62) (ht : s.threads t = .deqLoadSeq pos)
    (hneg : wordDiff (s.cell CAP pos).sequence ((pos + 1) % 2 ^ 64) < 0) : s.Drained := by
  have hT := h.thread t
  rw [ht] at hT
  have hle : pos ≤ s.dequeuePos := hT
  have hpos := h.counted.positions_le
  rw [Nat.mod_eq_of_lt (by omega)] at hneg
  exact h.drained_of_behind hp hle (wordDiff_neg (h.sequence_lt_half hcap hsmall pos hp) (by omega) hneg)

/-- In every run, an access with which `enqueue` returns false finds the queue
full, and one with which `dequeue` returns false finds it drained. -/
theorem fails_only_when (hp : IsCapacity CAP) (hcap : CAP ≤ 2 ^ 62) (task : α) (es : List (QueueEvent α))
    (hr : run (step CAP) (init task) es = some s) (hsmall : s.operations < 2 ^ 62)
    (hs : s.step CAP (.step t spurious) = some s') :
    (s'.threads t = .enqueued false → s.Full CAP) ∧ (s'.threads t = .dequeued none → s.Drained) := by
  have h : s.Inv CAP := run_inv hp hr hsmall
  cases access_of_stepThread hs with
  | look _ hpc _ _ =>
    rw [threads_goto_self]
    constructor <;> intro he <;> rw [he] at hpc <;> cases hpc
  | refuse ht hneg =>
    rw [threads_goto_self]
    exact ⟨fun _ => h.full_of_refuse hp hcap hsmall ht hneg, fun he => (by cases he)⟩
  | findEmpty ht hneg =>
    rw [threads_goto_self]
    exact ⟨fun he => (by cases he), fun _ => h.drained_of_findEmpty hp hcap hsmall ht hneg⟩
  | fill _ _ hpc =>
    rw [threads_goto_self]
    constructor <;> intro he <;> rw [he] at hpc <;> rcases hpc with hpc | hpc <;> cases hpc
  | claimEnqueue _ | claimDequeue _ | read _ | release _ =>
    constructor <;> intro he <;> simp [goto] at he

end

end QueueState

namespace Sample

open QueueState

/-- Two tasks fill a queue of two cells. -/
def filled : List (QueueEvent Nat) :=
  [.enqueue 0 7] ++ List.replicate 5 (.step 0 false) ++ [.enqueue 0 8] ++ List.replicate 5 (.step 0 false) ++
    [.enqueue 1 9, .step 1 false]

def filledState : QueueState Nat := (run (step 2) (init 0) filled).getD (init 0)

theorem run_filled : run (step 2) (init 0) filled = some filledState := by
  have hsome : (run (step 2) (init 0) filled).isSome = true := by decide +kernel
  obtain ⟨s, hs⟩ := Option.isSome_iff_exists.mp hsome
  rw [filledState, hs]
  rfl

theorem fails_only_when_filled : filledState.Full 2 := by
  obtain ⟨s, hs⟩ := Option.isSome_iff_exists.mp
    (show (filledState.step 2 (.step 1 false)).isSome = true by decide +kernel)
  have ht : s.threads 1 = .enqueued false := by
    have hget : s = (filledState.step 2 (.step 1 false)).getD filledState := by rw [hs]; rfl
    rw [hget]
    rfl
  exact (fails_only_when ⟨1, by decide, by decide, rfl⟩ (by decide) 0 filled run_filled (by decide +kernel) hs).1 ht

end Sample

end OrderExecution
