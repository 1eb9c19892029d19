import OrderExecution.ThreadPool
import OrderExecution.QueueAccesses
import Mathlib.Algebra.BigOperators.Group.Finset.Basic
import Mathlib.Algebra.Order.Group.Multiset
import Mathlib.Data.List.ReduceOption

/-!
# `ThreadPool` runs what it accepts

Each accepted task is run once at most, and once the destructor has joined the
workers, every accepted task has been run. A worker that finds the queue empty
leaves a task behind only while another worker is in a task that submits it.
-/

namespace OrderExecution

open Machine

namespace QueuePc

variable {α : Type}

/-- The task that a `dequeue` of the thread has read and not handed on. -/
def out : QueuePc α → Multiset α
  | .deqRelease _ task | .dequeued (some task) => {task}
  | _ => 0

theorem busy_of_enqueuing {pc : QueuePc α} (h : pc.enqueuing = true) : pc.busy = true := by
  cases pc <;> first | rfl | cases h

theorem not_dequeuing_of_enqueuing {pc : QueuePc α} (h : pc.enqueuing = true) :
    pc.dequeuing = false ∧ ∀ r, pc ≠ .dequeued r := by
  cases pc with
  | enqLoadPos _ | enqLoadSeq _ _ | enqCas _ _ | enqWrite _ _ | enqPublish _ => exact ⟨rfl, fun r e => by cases e⟩
  | _ => cases h

theorem busy_of_pending {pc : QueuePc α} (h : pc.pending = true) : pc.busy = true := by
  cases pc <;> first | rfl | cases h

end QueuePc

namespace QueueState

variable {α : Type} {CAP : Nat}

/-- The tasks that were obtained. -/
def got (s : QueueState α) : Multiset α := s.obtained.reduceOption

/-- The claims that have obtained no task are those of the threads before their
read. -/
structure Reads (s : QueueState α) : Prop where
  unread : ∀ t pos claim, s.threads t = .deqRead pos claim → s.obtained[claim]? = some none
  reading : ∀ k : Nat, s.obtained[k]? = some none → ∃ t pos, s.threads t = .deqRead pos k

section
variable {s s' : QueueState α} {t k : Nat} {pc : QueuePc α}

theorem reduceOption_set {l : List (Option α)} (h : l[k]? = some none) (a : α) :
    ((l.set k (some a)).reduceOption : Multiset α) = a ::ₘ l.reduceOption := by
  induction l generalizing k with
  | nil => cases h
  | cons o l ih =>
    cases k with
    | zero =>
      obtain rfl : o = none := Option.some.inj h
      rfl
    | succ k =>
      have hl : l[k]? = some none := h
      rw [List.set_cons_succ]
      cases o with
      | none =>
        rw [List.reduceOption_cons_of_none, List.reduceOption_cons_of_none]
        exact ih hl
      | some b =>
        rw [List.reduceOption_cons_of_some, List.reduceOption_cons_of_some, ← Multiset.cons_coe, ih hl,
          Multiset.cons_swap, Multiset.cons_coe]

/-- The thread moves to another place, with no claim to read before or after. -/
theorem Reads.goto (h : s.Reads) (hold : ∀ pos claim, s.threads t ≠ .deqRead pos claim)
    (hnew : ∀ pos claim, pc ≠ .deqRead pos claim) (ht : s'.threads = Function.update s.threads t pc)
    (ho : s'.obtained = s.obtained) : s'.Reads where
  unread x pos claim hx := by
    rw [ht] at hx
    rw [ho]
    by_cases hxt : x = t
    · rw [hxt, Function.update_self] at hx
      exact absurd hx (hnew pos claim)
    · rw [Function.update_of_ne hxt] at hx
      exact h.unread x pos claim hx
  reading k hk := by
    rw [ho] at hk
    obtain ⟨x, pos, hx⟩ := h.reading k hk
    have hxt : x ≠ t := fun e => hold pos k (e ▸ hx)
    exact ⟨x, pos, by rw [ht, Function.update_of_ne hxt, hx]⟩

theorem Reads.access (h : s.Reads) (hi : s.Inv CAP) (ha : s.Access CAP t s') : s'.Reads := by
  cases ha with
  | look hold hpc _ _ =>
    refine h.goto (fun pos claim e => ?_) (fun pos claim e => ?_) rfl rfl
    · rw [e] at hold; cases hold
    · rw [e] at hpc; cases hpc
  | refuse ht _ | findEmpty ht _ =>
    refine h.goto (fun pos claim e => ?_) (fun pos claim e => by cases e) rfl rfl
    rw [ht] at e; cases e
  | claimEnqueue ht =>
    refine h.goto (fun pos claim e => ?_) (fun pos claim e => by cases e) rfl rfl
    rw [ht] at e; cases e
  | fill _ henq hpc =>
    refine h.goto (fun pos claim e => ?_) (fun pos claim e => ?_) rfl rfl
    · rw [e] at henq; cases henq
    · rw [e] at hpc; rcases hpc with hpc | hpc <;> cases hpc
  | release ht =>
    refine h.goto (fun pos claim e => ?_) (fun pos claim e => by cases e) rfl rfl
    rw [ht] at e; cases e
  | claimDequeue ht =>
    refine ⟨fun x pos claim hx => ?_, fun k hk => ?_⟩
    · by_cases hxt : x = t
      · simp only [QueueState.goto, hxt, Function.update_self, QueuePc.deqRead.injEq] at hx
        rw [← hx.2]
        simp
      · simp only [QueueState.goto, Function.update_of_ne hxt] at hx
        exact Ring.getElem?_concat_of_some (h.unread x pos claim hx) none
    · by_cases hlt : k < s.obtained.length
      · rw [List.getElem?_append_left hlt] at hk
        obtain ⟨x, pos, hx⟩ := h.reading k hk
        have hxt : x ≠ t := fun e => by rw [e, ht] at hx; cases hx
        exact ⟨x, pos, by simp only [QueueState.goto, Function.update_of_ne hxt]; exact hx⟩
      · obtain ⟨hk', -⟩ := List.getElem?_eq_some_iff.mp hk
        simp only [List.length_append, List.length_singleton] at hk'
        obtain rfl : k = s.obtained.length := by omega
        exact ⟨t, s.dequeuePos, by simp [QueueState.goto]⟩
  | @read pos claim c ht =>
    refine ⟨fun x pos' claim' hx => ?_, fun k hk => ?_⟩
    · have hxt : x ≠ t := fun e => by simp [QueueState.goto, setCell, e] at hx
      simp only [QueueState.goto, setCell, Function.update_of_ne hxt] at hx
      have hne : claim ≠ claim' := by
        -- two claims of one number are of one cell
        intro e
        have hT := hi.thread t
        have hX := hi.thread x
        rw [ht] at hT
        rw [hx] at hX
        obtain ⟨-, -, -, rfl⟩ := hT
        obtain ⟨-, -, -, rfl⟩ := hX
        exact hxt (hi.apart x t _ _ (by rw [hx]; rfl) (by rw [ht]; rfl) (by rw [e]))
      rw [List.getElem?_set_ne hne]
      exact h.unread x pos' claim' hx
    · by_cases hkc : claim = k
      · rw [hkc, List.getElem?_set] at hk
        simp only [ite_true] at hk
        split at hk <;> cases hk
      · rw [List.getElem?_set_ne hkc] at hk
        obtain ⟨x, pos', hx⟩ := h.reading k hk
        have hxt : x ≠ t := fun e => by
          rw [e, ht, QueuePc.deqRead.injEq] at hx
          exact hkc hx.2
        exact ⟨x, pos', by simp only [QueueState.goto, setCell, Function.update_of_ne hxt]; exact hx⟩

/-- What an access obtains is what its thread then holds. -/
theorem Access.got (ha : s.Access CAP t s') (h : s.Reads) :
    s'.got + (s.threads t).out = s.got + (s'.threads t).out := by
  have hself : ∀ {pc : QueuePc α}, (Function.update s.threads t pc) t = pc := fun {pc} => Function.update_self ..
  have hpending : ∀ {pc : QueuePc α}, pc.pending = true → pc.out = 0 := by
    intro pc hpc
    cases pc <;> first | rfl | cases hpc
  cases ha with
  | look hold hpc _ _ =>
    simp only [QueueState.goto, hself]
    rw [hpending hold, hpending hpc]
    rfl
  | refuse ht _ | findEmpty ht _ =>
    simp only [QueueState.goto, hself, ht]
    rfl
  | claimEnqueue ht =>
    simp only [QueueState.goto, hself, ht]
    rfl
  | fill _ henq hpc =>
    have hold : (s.threads t).out = 0 := by
      cases hx : s.threads t <;> rw [hx] at henq <;> first | rfl | cases henq
    simp only [QueueState.goto, setCell, hself, hold]
    rcases hpc with rfl | rfl <;> rfl
  | claimDequeue ht =>
    simp only [QueueState.goto, hself, ht, QueueState.got, List.reduceOption_append]
    rw [show [(none : Option α)].reduceOption = [] from rfl, List.append_nil]
    rfl
  | @read pos claim c ht =>
    have hset := reduceOption_set (h.unread t pos claim ht) (s.cell CAP pos).data
    simp only [QueueState.goto, setCell, hself, ht, QueueState.got, hset, QueuePc.out, add_zero]
    rw [← Multiset.singleton_add, add_comm]
  | release ht =>
    simp only [QueueState.goto, setCell, hself, ht]
    rfl

theorem Access.busy (ha : s.Access CAP t s') : (s.threads t).busy = true := by
  cases ha with
  | look hold _ _ _ => exact QueuePc.busy_of_pending hold
  | refuse ht _ | findEmpty ht _ => rw [ht]; rfl
  | claimEnqueue ht => rw [ht]; rfl
  | fill _ henq _ => exact QueuePc.busy_of_enqueuing henq
  | claimDequeue ht => rw [ht]; rfl
  | read ht | release ht => rw [ht]; rfl

/-- A `dequeue` goes on or returns; an `enqueue` becomes no `dequeue`. -/
theorem Access.dequeuing (ha : s.Access CAP t s') :
    if (s.threads t).dequeuing then (s'.threads t).dequeuing = true ∨ ∃ r, s'.threads t = .dequeued r
    else (s'.threads t).dequeuing = false ∧ ∀ r, s'.threads t ≠ .dequeued r := by
  have hself : ∀ {pc : QueuePc α}, (Function.update s.threads t pc) t = pc := fun {pc} => Function.update_self ..
  cases ha with
  | @look pc hold hpc _ hdeq =>
    simp only [QueueState.goto, hself, hdeq]
    split
    · next h => exact .inl h
    · next h => exact ⟨Bool.eq_false_iff.mpr h, fun r e => by rw [e] at hpc; cases hpc⟩
  | refuse ht _ =>
    simp only [QueueState.goto, hself, ht]
    exact ⟨rfl, fun r e => by cases e⟩
  | findEmpty ht _ =>
    simp only [QueueState.goto, hself, ht]
    exact .inr ⟨_, rfl⟩
  | claimEnqueue ht =>
    simp only [QueueState.goto, hself, ht]
    exact ⟨rfl, fun r e => by cases e⟩
  | fill _ henq hpc =>
    simp only [QueueState.goto, setCell, hself, (QueuePc.not_dequeuing_of_enqueuing henq).1]
    rcases hpc with rfl | rfl <;> exact ⟨rfl, fun r e => by cases e⟩
  | claimDequeue ht =>
    simp only [QueueState.goto, hself, ht]
    exact .inl rfl
  | read ht =>
    simp only [QueueState.goto, setCell, hself, ht]
    exact .inl rfl
  | release ht =>
    simp only [QueueState.goto, setCell, hself, ht]
    exact .inr ⟨_, rfl⟩

end

end QueueState

namespace WorkerPc

variable {α : Type}

/-- What a worker does in the queue, by where it is. -/
def Fits : WorkerPc α → QueuePc α → Prop
  | .poll, pc | .done, pc => pc.busy = false
  | .take _, pc => pc.dequeuing = true ∨ ∃ r, pc = .dequeued r
  | .run _ _, pc => pc.dequeuing = false

/-- The task that a worker has obtained and not run to its end. -/
def held : WorkerPc α → QueuePc α → Multiset α
  | .take _, pc => pc.out
  | .run _ task, _ => {task}
  | .poll, _ | .done, _ => 0

/-- The worker has not seen `running_` reset. -/
def isEarly : WorkerPc α → Bool
  | .poll => true
  | .take last | .run last _ => !last
  | .done => false

end WorkerPc

namespace PoolState

variable {α : Type} {n CAP : Nat}

def held (s : PoolState α) (t : Nat) : Multiset α := (s.workers t).held (s.queue.threads t)

/-- The tasks that the workers have obtained and not run to their end. -/
def inHand (n : Nat) (s : PoolState α) : Multiset α := ∑ t ∈ Finset.range n, s.held t

structure Inv (n CAP : Nat) (s : PoolState α) : Prop where
  queue : s.queue.Inv CAP
  reads : s.queue.Reads
  fits : ∀ t < n, (s.workers t).Fits (s.queue.threads t)
  outside : ∀ t, n ≤ t → (s.queue.threads t).dequeuing = false
  counted : s.queue.got = s.ran + s.inHand n

section
variable {s s' : PoolState α} {q : QueueState α} {t : Nat} {w : WorkerPc α}

theorem inHand_move (ht : t < n) (h : ∀ x, x ≠ t → s'.held x = s.held x) :
    s'.inHand n + s.held t = s.inHand n + s'.held t := by
  have hmem : t ∈ Finset.range n := Finset.mem_range.mpr ht
  have hrest : ∑ x ∈ (Finset.range n).erase t, s'.held x = ∑ x ∈ (Finset.range n).erase t, s.held x :=
    Finset.sum_congr rfl fun x hx => h x (Finset.ne_of_mem_erase hx)
  rw [inHand, inHand, ← Finset.add_sum_erase _ s'.held hmem, ← Finset.add_sum_erase _ s.held hmem, hrest]
  ac_rfl

/-- One thread moves; a task that it hands over was obtained or held before. -/
theorem Inv.change (h : s.Inv n CAP) (hq : s'.queue.Inv CAP) (hreads : s'.queue.Reads)
    (hthreads : ∀ x, x ≠ t → s'.queue.threads x = s.queue.threads x)
    (hworkers : ∀ x, x ≠ t → s'.workers x = s.workers x)
    (hfits : t < n → (s'.workers t).Fits (s'.queue.threads t))
    (hout : n ≤ t → (s'.queue.threads t).dequeuing = false ∧ s'.queue.got = s.queue.got ∧ s'.ran = s.ran)
    (hcount : t < n → s'.queue.got + (s.ran + s.held t) = s.queue.got + (s'.ran + s'.held t)) : s'.Inv n CAP where
  queue := hq
  reads := hreads
  fits x hx := by
    by_cases hxt : x = t
    · exact hxt ▸ hfits (hxt ▸ hx)
    · rw [hthreads x hxt, hworkers x hxt]
      exact h.fits x hx
  outside x hx := by
    by_cases hxt : x = t
    · exact hxt ▸ (hout (hxt ▸ hx)).1
    · rw [hthreads x hxt]
      exact h.outside x hx
  counted := by
    have hheld : ∀ x, x ≠ t → s'.held x = s.held x := by
      intro x hx
      rw [held, held, hthreads x hx, hworkers x hx]
    by_cases ht : t < n
    · have hmove := inHand_move ht hheld
      have hsum := hcount ht
      rw [h.counted] at hsum
      refine add_right_cancel (b := (s.ran : Multiset α) + s.held t) ?_
      calc s'.queue.got + (s.ran + s.held t)
        _ = s.ran + s'.ran + (s.inHand n + s'.held t) := by rw [hsum]; ac_rfl
        _ = s'.ran + s'.inHand n + (s.ran + s.held t) := by rw [← hmove]; ac_rfl
    · obtain ⟨-, hgot, hran⟩ := hout (Nat.not_lt.mp ht)
      have hsame : s'.inHand n = s.inHand n := by
        refine Finset.sum_congr rfl fun x hx => hheld x ?_
        have := Finset.mem_range.mp hx
        omega
      rw [hgot, hran, hsame]
      exact h.counted

theorem Inv.access (hcap : IsCapacity CAP) (h : s.Inv n CAP) {spurious : Bool}
    (hs : s.queue.stepThread CAP t spurious = some q) (hsmall : s.queue.operations < 2 ^ 62) :
    (s.setQueue q).Inv n CAP := by
  have ha := QueueState.access_of_stepThread hs
  have hbusy := ha.busy
  have hgot := ha.got h.reads
  have hdeq := ha.dequeuing
  -- outside a `dequeue`, an access obtains nothing
  have hnone : (s.queue.threads t).dequeuing = false → (q.threads t).dequeuing = false ∧ q.got = s.queue.got := by
    intro hd
    rw [hd] at hdeq
    have hout : ∀ {pc : QueuePc α}, pc.dequeuing = false → (∀ r, pc ≠ .dequeued r) → pc.out = 0 := by
      intro pc hd hr
      cases pc with
      | deqRelease _ _ => cases hd
      | dequeued r => exact absurd rfl (hr r)
      | _ => rfl
    have hold : (s.queue.threads t).out = 0 := hout hd fun r e => by rw [e] at hbusy; cases hbusy
    rw [hold, hout hdeq.1 hdeq.2, add_zero, add_zero] at hgot
    exact ⟨hdeq.1, hgot⟩
  refine h.change (t := t) (h.queue.stepThread hcap hsmall hs) (h.reads.access h.queue ha) (fun x => ha.others)
    (fun _ _ => rfl) (fun ht => ?_) (fun ht => ?_) (fun ht => ?_)
  · have hfits := h.fits t ht
    simp only [setQueue]
    cases hw : s.workers t with
    | poll | done =>
      rw [hw] at hfits
      exact absurd (hfits.symm.trans hbusy) Bool.false_ne_true
    | take last =>
      rw [hw] at hfits
      rcases hfits with hd | ⟨r, hr⟩
      · rw [hd] at hdeq
        exact hdeq
      · rw [hr] at hbusy
        cases hbusy
    | run last task =>
      rw [hw] at hfits
      exact (hnone hfits).1
  · obtain ⟨hd, hg⟩ := hnone (h.outside t ht)
    exact ⟨hd, hg, rfl⟩
  · have hfits := h.fits t ht
    simp only [setQueue, held]
    cases hw : s.workers t with
    | poll | done =>
      rw [hw] at hfits
      exact absurd (hfits.symm.trans hbusy) Bool.false_ne_true
    | take last =>
      simp only [WorkerPc.held]
      rw [add_left_comm, hgot]
      ac_rfl
    | run last task =>
      rw [hw] at hfits
      rw [(hnone hfits).2]
      rfl

/-- A thread begins an operation of the queue. -/
theorem starts {pc : QueuePc α} (hs : s.queue.start t pc = some q) (hnew : pc.pending = true) :
    (s.queue.threads t).busy = false ∧ q.threads = Function.update s.queue.threads t pc ∧ q.got = s.queue.got ∧
      (s.queue.Reads → q.Reads) := by
  have hidle : (s.queue.threads t).busy = false := by
    unfold QueueState.start at hs
    cases hpc : s.queue.threads t <;> rw [hpc] at hs <;> first | rfl | cases hs
  obtain ⟨-, -, rfl⟩ := QueueState.start_eq hs
  refine ⟨hidle, rfl, rfl, fun h => h.goto (fun pos claim e => ?_) (fun pos claim e => ?_) rfl rfl⟩
  · rw [e] at hidle
    cases hidle
  · rw [e] at hnew
    cases hnew

theorem Inv.submit (h : s.Inv n CAP) {task : α} (hin : t < n → (s.workers t).isRun = true)
    (hs : s.queue.start t (.enqLoadPos task) = some q) : (s.setQueue q).Inv n CAP := by
  obtain ⟨-, hthreads, hgot, hreads⟩ := starts hs rfl
  have hself : q.threads t = .enqLoadPos task := by rw [hthreads, Function.update_self]
  have hqueue : q.Inv CAP := h.queue.start rfl (show s.queue.Holds CAP (.enqLoadPos task) from trivial) hs
  refine h.change (t := t) hqueue (hreads h.reads) (fun x hx => ?_) (fun _ _ => rfl) (fun ht => ?_) (fun _ => ?_)
    (fun ht => ?_)
  · simp only [setQueue, hthreads, Function.update_of_ne hx]
  · have hrun := hin ht
    simp only [setQueue, hself]
    cases hw : s.workers t with
    | run last task' => exact rfl
    | _ => rw [hw] at hrun; cases hrun
  · refine ⟨?_, hgot, rfl⟩
    simp only [setQueue, hself]
    rfl
  · have hrun := hin ht
    simp only [setQueue, held, hgot]
    cases hw : s.workers t with
    | run last task' => rfl
    | _ => rw [hw] at hrun; cases hrun

/-- A worker that holds no task begins a `dequeue`. -/
theorem Inv.beginTake (h : s.Inv n CAP) (ht : t < n) {last : Bool} {ran : List α}
    (hran : (ran : Multiset α) = s.ran + s.held t) {u : PoolState α} (hu : u = { s with ran := ran })
    (hs : u.beginTake CAP t last = some s') : s'.Inv n CAP := by
  subst hu
  obtain ⟨q, hq, rfl⟩ := Option.map_eq_some_iff.mp hs
  obtain ⟨-, hthreads, hgot, hreads⟩ := starts (s := s) hq rfl
  have hself : q.threads t = .deqLoadPos := by rw [hthreads, Function.update_self]
  have hqueue : q.Inv CAP := h.queue.start rfl (show s.queue.Holds CAP .deqLoadPos from trivial) hq
  refine h.change (t := t) hqueue (hreads h.reads) (fun x hx => ?_) (fun x hx => ?_) (fun _ => ?_) (fun hn => ?_)
    (fun _ => ?_)
  · simp only [setQueue, goto, hthreads, Function.update_of_ne hx]
  · simp only [setQueue, goto, Function.update_of_ne hx]
  · simp only [setQueue, goto, Function.update_self, hself]
    exact .inl rfl
  · omega
  · simp only [setQueue, goto, held, Function.update_self, hself, hgot, WorkerPc.held, QueuePc.out]
    rw [hran, add_zero]
    rfl

/-- A worker moves on outside the queue, and hands no task over. -/
theorem Inv.goto (h : s.Inv n CAP) (ht : t < n) {ran : List α} (hfits : w.Fits (s.queue.threads t))
    (hran : (ran : Multiset α) + w.held (s.queue.threads t) = s.ran + s.held t) {u : PoolState α}
    (hu : u = { s with ran := ran }) : (u.goto t w).Inv n CAP := by
  subst hu
  refine h.change (t := t) h.queue h.reads (fun _ _ => rfl) (fun x hx => ?_) (fun _ => ?_) (fun hn => ?_)
    (fun _ => ?_)
  · simp only [PoolState.goto, Function.update_of_ne hx]
  · simp only [PoolState.goto, Function.update_self]
    exact hfits
  · omega
  · simp only [PoolState.goto, held, Function.update_self]
    rw [hran]
    rfl

theorem Inv.work (h : s.Inv n CAP) (ht : t < n) (hs : s.work CAP t = some s') : s'.Inv n CAP := by
  have hfits := h.fits t ht
  unfold PoolState.work at hs
  cases hw : s.workers t with
  | poll =>
    rw [hw] at hs
    refine h.beginTake ht ?_ rfl hs
    simp only [held, hw, WorkerPc.held, add_zero]
  | take last =>
    rw [hw] at hs hfits
    cases hpc : s.queue.threads t with
    | dequeued r =>
      rw [hpc] at hs
      have hheld : s.held t = (QueuePc.dequeued r).out := by rw [held, hw, hpc]; rfl
      cases r with
      | none =>
        obtain rfl := Option.some.inj hs
        refine h.goto ht ?_ ?_ rfl
        · rw [hpc]
          cases last <;> rfl
        · rw [hheld]
          cases last <;> rfl
      | some task =>
        obtain rfl := Option.some.inj hs
        refine h.goto ht ?_ ?_ rfl
        · rw [hpc]
          rfl
        · rw [hheld]
          rfl
    | _ => rw [hpc] at hs; cases hs
  | run last task =>
    rw [hw] at hs
    have hran : ((s.ran ++ [task] : List α) : Multiset α) = s.ran + s.held t := by
      rw [held, hw, ← Multiset.coe_add]
      rfl
    simp only at hs
    split at hs
    · cases hs
    · next hbusy =>
      split at hs
      · exact h.beginTake ht hran rfl hs
      · obtain rfl := Option.some.inj hs
        refine h.goto (w := .poll) ht (Bool.eq_false_iff.mpr hbusy) ?_ rfl
        simp only [WorkerPc.held, add_zero]
        exact hran
  | done => rw [hw] at hs; cases hs

theorem Inv.step (hcap : IsCapacity CAP) (h : s.Inv n CAP) {e : PoolEvent α} (hs : s.step n CAP e = some s')
    (hsmall : s.queue.operations < 2 ^ 62) : s'.Inv n CAP := by
  cases e with
  | submit t task =>
    simp only [PoolState.step] at hs
    split at hs
    · cases hs
    · next hin =>
      obtain ⟨q, hq, rfl⟩ := Option.map_eq_some_iff.mp hs
      refine h.submit (fun ht => ?_) hq
      rw [← Bool.not_eq_false]
      exact fun hrun => hin ⟨ht, hrun⟩
  | access t spurious =>
    obtain ⟨q, hq, rfl⟩ := Option.map_eq_some_iff.mp hs
    exact h.access hcap hq hsmall
  | work t =>
    simp only [PoolState.step] at hs
    split at hs
    · next ht => exact h.work ht hs
    · cases hs
  | stop =>
    obtain rfl := Option.some.inj hs
    exact ⟨h.queue, h.reads, h.fits, h.outside, h.counted⟩

theorem inv_init (n : Nat) (hcap : IsCapacity CAP) (task : α) : Inv n CAP (init task) where
  queue := QueueState.inv_init hcap task
  reads := ⟨fun t pos claim ht => (by cases ht), fun k hk => (by cases hk)⟩
  fits t _ := rfl
  outside t _ := rfl
  counted := by
    have hnone : (init task).inHand n = 0 := Finset.sum_eq_zero fun t _ => rfl
    rw [hnone]
    rfl

theorem operations_step {e : PoolEvent α} (hs : s.step n CAP e = some s') :
    s.queue.operations ≤ s'.queue.operations := by
  have hbegin : ∀ {u u' : PoolState α} {t last}, u.beginTake CAP t last = some u' →
      u.queue.operations ≤ u'.queue.operations := by
    intro u u' t last h
    obtain ⟨q, hq, rfl⟩ := Option.map_eq_some_iff.mp h
    exact QueueState.step_operations hq
  cases e with
  | submit t task =>
    simp only [PoolState.step] at hs
    split at hs
    · cases hs
    · obtain ⟨q, hq, rfl⟩ := Option.map_eq_some_iff.mp hs
      exact QueueState.step_operations hq
  | access t spurious =>
    obtain ⟨q, hq, rfl⟩ := Option.map_eq_some_iff.mp hs
    exact QueueState.step_operations hq
  | work t =>
    simp only [PoolState.step] at hs
    split at hs
    · unfold PoolState.work at hs
      split at hs
      · exact hbegin hs
      · split at hs
        · obtain rfl := Option.some.inj hs; exact Nat.le_refl _
        · obtain rfl := Option.some.inj hs; exact Nat.le_refl _
        · cases hs
      · split at hs
        · cases hs
        · split at hs
          · exact hbegin (u := s.finish _) hs
          · obtain rfl := Option.some.inj hs; exact Nat.le_refl _
      · cases hs
    · cases hs
  | stop =>
    obtain rfl := Option.some.inj hs
    exact Nat.le_refl _

theorem run_inv (hcap : IsCapacity CAP) {es : List (PoolEvent α)} {task : α}
    (hr : run (step n CAP) (init task) es = some s) (hsmall : s.queue.operations < 2 ^ 62) : s.Inv n CAP := by
  have hstep : ∀ (s : PoolState α) e s', (s.queue.operations < 2 ^ 62 → s.Inv n CAP) → s.step n CAP e = some s' →
      s'.queue.operations < 2 ^ 62 → s'.Inv n CAP := by
    intro s e s' hI hs hlt
    have hle := operations_step hs
    exact (hI (by omega)).step hcap hs (by omega)
  exact inv_run hstep (fun _ => inv_init n hcap task) hr hsmall

theorem got_le (h : s.queue.Inv CAP) : s.queue.got ≤ (s.queue.accepted : Multiset α) := by
  have hsub : ∀ {l : List (Option α)} {a : List α}, List.Forall₂ (fun o b => o = none ∨ o = some b) l a →
      List.Sublist l.reduceOption a := by
    intro l a hla
    induction hla with
    | nil => exact .refl _
    | cons hob _ ih =>
      rcases hob with rfl | rfl
      · exact .cons _ ih
      · exact .cons_cons _ ih
  exact Multiset.coe_le.mpr ((hsub h.fifo).subperm.trans (List.take_sublist _ _).subperm)

/-- In every state of every run, the tasks that were run and those that workers
hold are accepted ones, each as often as it was accepted at most. -/
theorem ran_once (n : Nat) (hcap : IsCapacity CAP) (task : α) (es : List (PoolEvent α))
    (hr : run (step n CAP) (init task) es = some s) (hsmall : s.queue.operations < 2 ^ 62) :
    (s.ran : Multiset α) + s.inHand n ≤ (s.queue.accepted : Multiset α) := by
  have h : s.Inv n CAP := run_inv hcap hr hsmall
  rw [← h.counted]
  exact got_le h.queue

/-! ## The destructor -/

/-- No other thread is in a `submit` when the destructor resets `running_`, and
none begins one later. Tasks may go on to submit. -/
def Undisturbed (n : Nat) (s : PoolState α) : PoolEvent α → Prop
  | .submit t _ => n ≤ t → s.running = true
  | .stop => ∀ t, n ≤ t → (s.queue.threads t).busy = false
  | _ => True

/-- The worker will look into the queue again. -/
def Returns (s : PoolState α) (t : Nat) : Prop :=
  match s.workers t with
  | .poll | .run _ _ => True
  | .take last => last = true → s.queue.threads t ≠ .dequeued none
  | .done => False

/-- While tasks wait in the queue, a worker will look into it again. -/
structure Draining (n : Nat) (s : PoolState α) : Prop where
  early : s.running = true → ∀ t < n, (s.workers t).isEarly = true
  quiet : s.running = false → ∀ t, n ≤ t → (s.queue.threads t).busy = false
  waits : s.queue.dequeuePos < s.queue.enqueuePos → ∃ t < n, s.Returns t

theorem returns_of_early (h : (s.workers t).isEarly = true ∨ (s.workers t).isRun = true) : s.Returns t := by
  unfold Returns
  cases hw : s.workers t with
  | poll | run _ _ => trivial
  | take last =>
    rw [hw] at h
    intro hlast
    rw [hlast] at h
    rcases h with h | h <;> cases h
  | done => rw [hw] at h; rcases h with h | h <;> cases h

/-- A thread that moves on in the queue, and finds it not empty. -/
theorem Returns.setQueue {x : Nat} (h : s.Returns x) (hothers : ∀ x, x ≠ t → q.threads x = s.queue.threads x)
    (hpc : q.threads t ≠ .dequeued none) : (s.setQueue q).Returns x := by
  unfold Returns at h ⊢
  simp only [PoolState.setQueue]
  cases hw : s.workers x with
  | poll | run _ _ => trivial
  | take last =>
    rw [hw] at h
    intro hlast
    by_cases hx : x = t
    · rw [hx]
      exact hpc
    · rw [hothers x hx]
      exact h hlast
  | done => rw [hw] at h; exact h.elim

theorem Inv.isRun_of_enqueuing (h : s.Inv n CAP) (ht : t < n) (henq : (s.queue.threads t).enqueuing = true) :
    (s.workers t).isRun = true := by
  have hfits := h.fits t ht
  obtain ⟨hdeq, hreturned⟩ := QueuePc.not_dequeuing_of_enqueuing henq
  cases hw : s.workers t with
  | run _ _ => rfl
  | poll | done =>
    rw [hw] at hfits
    exact absurd (hfits.symm.trans (QueuePc.busy_of_enqueuing henq)) Bool.false_ne_true
  | take last =>
    rw [hw] at hfits
    rcases hfits with hd | ⟨r, hr⟩
    · exact absurd (hdeq.symm.trans hd) Bool.false_ne_true
    · exact absurd hr (hreturned r)

/-- While a thread is in an `enqueue`, not all workers have come to their last
look into the queue: once the pool is quiet the thread is one of them, in a task. -/
theorem Draining.worker_of_enqueuing (hd : s.Draining n) (hn : 0 < n) (h : s.Inv n CAP)
    (henq : (s.queue.threads t).enqueuing = true) :
    ∃ x < n, (s.workers x).isEarly = true ∨ (s.workers x).isRun = true := by
  cases hr : s.running with
  | true => exact ⟨0, hn, .inl (hd.early hr 0 hn)⟩
  | false =>
    by_cases ht : t < n
    · exact ⟨t, ht, .inr (h.isRun_of_enqueuing ht henq)⟩
    · have hquiet := hd.quiet hr t (Nat.not_lt.mp ht)
      exact absurd (hquiet.symm.trans (QueuePc.busy_of_enqueuing henq)) Bool.false_ne_true

theorem Draining.access (hd : s.Draining n) (hn : 0 < n) (hcap : IsCapacity CAP) (hle : CAP ≤ 2 ^ 62)
    (h : s.Inv n CAP) {spurious : Bool} (hs : s.queue.stepThread CAP t spurious = some q)
    (hsmall : s.queue.operations < 2 ^ 62) : (s.setQueue q).Draining n := by
  have ha := QueueState.access_of_stepThread hs
  have hothers : ∀ x, x ≠ t → q.threads x = s.queue.threads x := fun x => ha.others
  have hpos := h.queue.counted.positions_le
  refine ⟨hd.early, fun hr x hx => ?_, fun hlt => ?_⟩
  · by_cases hxt : x = t
    · exact absurd ((hd.quiet hr t (hxt ▸ hx)).symm.trans ha.busy) Bool.false_ne_true
    · show (q.threads x).busy = false
      rw [hothers x hxt]
      exact hd.quiet hr x hx
  -- but for the claims, a task that waits after the access waited before
  have hkeep : s.queue.dequeuePos < s.queue.enqueuePos → q.threads t ≠ .dequeued none →
      ∃ x < n, (s.setQueue q).Returns x := by
    intro hwait hpc
    obtain ⟨x, hx, hret⟩ := hd.waits hwait
    exact ⟨x, hx, hret.setQueue hothers hpc⟩
  have hself : ∀ {pc : QueuePc α}, (Function.update s.queue.threads t pc) t = pc := fun {pc} => Function.update_self ..
  cases ha with
  | look _ hpc _ _ =>
    refine hkeep hlt fun e => ?_
    simp only [QueueState.goto, hself] at e
    rw [e] at hpc
    cases hpc
  | refuse ht _ =>
    refine hkeep hlt fun e => ?_
    simp only [QueueState.goto, hself] at e
    cases e
  | findEmpty ht hneg =>
    have hdrained := h.queue.drained_of_findEmpty hcap hle hsmall ht hneg
    rcases hdrained with heq | ⟨x, -, henq⟩
    · exact absurd heq (Nat.ne_of_lt hlt)
    · obtain ⟨y, hy, hback⟩ := hd.worker_of_enqueuing hn h henq
      exact ⟨y, hy, returns_of_early (s := s.setQueue _) hback⟩
  | claimEnqueue ht =>
    obtain ⟨y, hy, hback⟩ := hd.worker_of_enqueuing (t := t) hn h (by rw [ht]; rfl)
    exact ⟨y, hy, returns_of_early (s := s.setQueue _) hback⟩
  | fill _ _ hpc =>
    refine hkeep hlt fun e => ?_
    simp only [QueueState.goto, QueueState.setCell, hself] at e
    rw [e] at hpc
    rcases hpc with hpc | hpc <;> cases hpc
  | claimDequeue ht =>
    refine hkeep ?_ fun e => ?_
    · have hlt' : (s.queue.dequeuePos + 1) % 2 ^ 64 < s.queue.enqueuePos := hlt
      rw [Nat.mod_eq_of_lt (by omega)] at hlt'
      omega
    · simp only [QueueState.goto, hself] at e
      cases e
  | read ht | release ht =>
    refine hkeep hlt fun e => ?_
    simp only [QueueState.goto, QueueState.setCell, hself] at e
    cases e

theorem Draining.submit (hd : s.Draining n) {task : α} (hu : n ≤ t → s.running = true)
    (hs : s.queue.start t (.enqLoadPos task) = some q) : (s.setQueue q).Draining n := by
  obtain ⟨-, hthreads, -, -⟩ := starts hs rfl
  obtain ⟨-, -, hq⟩ := QueueState.start_eq hs
  have hothers : ∀ x, x ≠ t → q.threads x = s.queue.threads x := fun x hx => by
    rw [hthreads, Function.update_of_ne hx]
  refine ⟨hd.early, fun hr x hx => ?_, fun hlt => ?_⟩
  · have hxt : x ≠ t := fun e => by
      have hrun : s.running = true := hu (e ▸ hx)
      exact Bool.false_ne_true (hr.symm.trans hrun)
    show (q.threads x).busy = false
    rw [hothers x hxt]
    exact hd.quiet hr x hx
  · have hwait : s.queue.dequeuePos < s.queue.enqueuePos := by
      rw [hq] at hlt
      exact hlt
    obtain ⟨x, hx, hret⟩ := hd.waits hwait
    refine ⟨x, hx, hret.setQueue hothers fun e => ?_⟩
    rw [hthreads, Function.update_self] at e
    cases e

/-- A worker goes to a place from which it returns. -/
theorem Draining.move (hd : s.Draining n) (ht : t < n) {u : PoolState α} (hrunning : u.running = s.running)
    (hthreads : ∀ x, x ≠ t → u.queue.threads x = s.queue.threads x) (hworkers : ∀ x, x ≠ t → u.workers x = s.workers x)
    (hdeq : u.queue.dequeuePos = s.queue.dequeuePos) (henq : u.queue.enqueuePos = s.queue.enqueuePos)
    (hearly : s.running = true → (s.workers t).isEarly = true → (u.workers t).isEarly = true)
    (hret : s.Returns t → u.Returns t) : u.Draining n := by
  refine ⟨fun hr x hx => ?_, fun hr x hx => ?_, fun hlt => ?_⟩
  · rw [hrunning] at hr
    by_cases hxt : x = t
    · exact hxt ▸ hearly hr (hd.early hr t ht)
    · rw [hworkers x hxt]
      exact hd.early hr x hx
  · rw [hrunning] at hr
    rw [hthreads x (by omega)]
    exact hd.quiet hr x hx
  · rw [hdeq, henq] at hlt
    obtain ⟨x, hx, hx'⟩ := hd.waits hlt
    by_cases hxt : x = t
    · exact ⟨t, ht, hret (hxt ▸ hx')⟩
    · refine ⟨x, hx, ?_⟩
      unfold Returns at hx' ⊢
      rw [hworkers x hxt, hthreads x hxt]
      exact hx'

theorem Draining.beginTake (hd : s.Draining n) (ht : t < n) {last : Bool} {ran : List α} {u : PoolState α}
    (hu : u = { s with ran := ran }) (hlast : s.running = true → (s.workers t).isEarly = true → last = false)
    (hs : u.beginTake CAP t last = some s') : s'.Draining n := by
  subst hu
  obtain ⟨q, hq, rfl⟩ := Option.map_eq_some_iff.mp hs
  obtain ⟨-, hthreads, -, -⟩ := starts (s := s) hq rfl
  obtain ⟨-, -, hq'⟩ := QueueState.start_eq hq
  refine hd.move ht rfl (fun x hx => ?_) (fun x hx => ?_) ?_ ?_ (fun hr he => ?_) (fun _ => ?_)
  · simp only [setQueue, goto, hthreads, Function.update_of_ne hx]
  · simp only [setQueue, goto, Function.update_of_ne hx]
  · simp only [setQueue, goto, hq', QueueState.goto]
  · simp only [setQueue, goto, hq', QueueState.goto]
  · simp only [setQueue, goto, Function.update_self, hlast hr he]
    rfl
  · unfold Returns
    simp only [setQueue, goto, Function.update_self, hthreads]
    intro _ e
    cases e

theorem Draining.goto (hd : s.Draining n) (ht : t < n) {ran : List α} {u : PoolState α}
    (hu : u = { s with ran := ran }) (hearly : s.running = true → (s.workers t).isEarly = true → w.isEarly = true)
    (hret : s.Returns t → (u.goto t w).Returns t) : (u.goto t w).Draining n := by
  subst hu
  refine hd.move ht rfl (fun _ _ => rfl) (fun x hx => ?_) rfl rfl (fun hr he => ?_) hret
  · simp only [PoolState.goto, Function.update_of_ne hx]
  · simp only [PoolState.goto, Function.update_self]
    exact hearly hr he

theorem Draining.work (hd : s.Draining n) (ht : t < n) (hs : s.work CAP t = some s') : s'.Draining n := by
  unfold PoolState.work at hs
  cases hw : s.workers t with
  | poll =>
    rw [hw] at hs
    exact hd.beginTake ht rfl (fun hr _ => by rw [hr]; rfl) hs
  | take last =>
    rw [hw] at hs
    cases hpc : s.queue.threads t with
    | dequeued r =>
      rw [hpc] at hs
      cases r with
      | none =>
        obtain rfl := Option.some.inj hs
        refine hd.goto ht rfl (fun _ he => ?_) (fun hret => ?_)
        · rw [hw] at he
          cases last with
          | true => cases he
          | false => rfl
        · unfold Returns at hret ⊢
          rw [hw] at hret
          simp only [PoolState.goto, Function.update_self]
          cases last with
          | true => exact hret rfl hpc
          | false => trivial
      | some task =>
        obtain rfl := Option.some.inj hs
        refine hd.goto ht rfl (fun _ he => ?_) (fun _ => ?_)
        · rw [hw] at he
          exact he
        · unfold Returns
          simp only [PoolState.goto, Function.update_self]
    | _ => rw [hpc] at hs; cases hs
  | run last task =>
    rw [hw] at hs
    simp only at hs
    split at hs
    · cases hs
    · split at hs
      · next hlast =>
        refine hd.beginTake (s := s) ht rfl (fun _ he => ?_) hs
        rw [hw, hlast] at he
        cases he
      · obtain rfl := Option.some.inj hs
        refine hd.goto (s := s) ht rfl (fun _ _ => rfl) (fun _ => ?_)
        unfold Returns
        simp only [PoolState.goto, Function.update_self]
  | done => rw [hw] at hs; cases hs

theorem Draining.step (hd : s.Draining n) (hn : 0 < n) (hcap : IsCapacity CAP) (hle : CAP ≤ 2 ^ 62)
    (h : s.Inv n CAP) {e : PoolEvent α} (hu : s.Undisturbed n e) (hs : s.step n CAP e = some s')
    (hsmall : s.queue.operations < 2 ^ 62) : s'.Draining n := by
  cases e with
  | submit t task =>
    simp only [PoolState.step] at hs
    split at hs
    · cases hs
    · obtain ⟨q, hq, rfl⟩ := Option.map_eq_some_iff.mp hs
      exact hd.submit hu hq
  | access t spurious =>
    obtain ⟨q, hq, rfl⟩ := Option.map_eq_some_iff.mp hs
    exact hd.access hn hcap hle h hq hsmall
  | work t =>
    simp only [PoolState.step] at hs
    split at hs
    · next ht => exact hd.work ht hs
    · cases hs
  | stop =>
    obtain rfl := Option.some.inj hs
    refine ⟨fun hr => ?_, fun _ => hu, hd.waits⟩
    cases hr

end

end PoolState

namespace Sample

open PoolState

/-- Thread 1 submits 7. -/
def submitted : List (PoolEvent Nat) := .submit 1 7 :: List.replicate 5 (.access 1 false)

def submittedState : PoolState Nat := (run (step 1 2) (init 0) submitted).getD (init 0)

/-- The destructor begins, and worker 0 runs 7, which submits 8, and then 8. -/
def shutDown : List (PoolEvent Nat) :=
  .stop :: [.work 0] ++ List.replicate 5 (.access 0 false) ++ [.work 0, .submit 0 8] ++
    List.replicate 5 (.access 0 false) ++ [.work 0] ++ List.replicate 5 (.access 0 false) ++
    [.work 0, .work 0, .access 0 false, .access 0 false, .work 0]

def shutDownState : PoolState Nat := (run (step 1 2) submittedState shutDown).getD submittedState

theorem run_submitted : run (step 1 2) (init 0) submitted = some submittedState := by
  have hsome : (run (step 1 2) (init 0) submitted).isSome = true := by decide +kernel
  obtain ⟨s, hs⟩ := Option.isSome_iff_exists.mp hsome
  rw [submittedState, hs]
  rfl

theorem run_shutDown : run (step 1 2) (init 0) (submitted ++ shutDown) = some shutDownState := by
  have hsome : (run (step 1 2) submittedState shutDown).isSome = true := by decide +kernel
  obtain ⟨s, hs⟩ := Option.isSome_iff_exists.mp hsome
  refine run_trans run_submitted ?_
  rw [shutDownState, hs]
  rfl

theorem ran_once_shutDown :
    (shutDownState.ran : Multiset Nat) + shutDownState.inHand 1 ≤ (shutDownState.queue.accepted : Multiset Nat) :=
  ran_once 1 ⟨1, by decide, by decide, rfl⟩ 0 (submitted ++ shutDown) run_shutDown (by decide +kernel)

example : shutDownState.ran = [7, 8] := by decide +kernel

end Sample

end OrderExecution
