import OrderExecution.AsyncLogger
import OrderExecution.Machine
import OrderExecution.Ring

/-!
# When the log ring keeps its messages

One `ready` flag does not tell the claims of a slot apart. As long as no
producer passes the wait a round or more ahead of the output, the message of
every claim is kept and output in turn. A producer that does is one step or two
from a buffer that is overwritten unread.
-/

namespace OrderExecution

open Machine

theorem mod_word_mod_ringCap (n : Nat) : n % 2 ^ 64 % ringCap = n % ringCap :=
  Nat.mod_mod_of_dvd n (by decide)

namespace ProducerPc

variable {α : Type}

/-- The claim whose message is not published yet. -/
def claim : ProducerPc α → Option Nat
  | .idle => none
  | .wait _ claim _ | .write _ claim _ | .publish _ claim => some claim

/-- The claim whose slot the thread has to itself, past the wait. -/
def inside : ProducerPc α → Option Nat
  | .write _ claim _ | .publish _ claim => some claim
  | _ => none

theorem claim_of_inside {pc : ProducerPc α} {c : Nat} (h : pc.inside = some c) : pc.claim = some c := by
  cases pc with
  | idle | wait _ _ _ => cases h
  | write _ _ _ | publish _ _ => exact h

end ProducerPc

/-- Whether the message that `read_head_` points at has been output. -/
def ReaderPc.lag : ReaderPc → Nat
  | .clear _ | .advance => 1
  | _ => 0

namespace LoggerState

variable {α : Type}

section
variable {s : LoggerState α} {p q : Nat}

theorem slot_congr (h : p % ringCap = q % ringCap) : s.slot p = s.slot q := by
  unfold slot
  rw [h]

theorem setSlot_congr (h : p % ringCap = q % ringCap) (x : LogSlot α) : s.setSlot p x = s.setSlot q x := by
  unfold setSlot
  rw [h]

theorem setSlot_slot (p : Nat) : s.setSlot p (s.slot p) = s := by
  unfold setSlot slot
  rw [Function.update_eq_self]

theorem producers_goto_self (s : LoggerState α) (t : Nat) (pc : ProducerPc α) : (s.goto t pc).producers t = pc := by
  simp [goto]

theorem producers_goto_ne {x t : Nat} (h : x ≠ t) (pc : ProducerPc α) :
    (s.goto t pc).producers x = s.producers x := by
  simp [goto, h]

theorem slot_setSlot_self (x : LogSlot α) : (s.setSlot p x).slot p = x := by
  simp [slot, setSlot]

theorem slot_setSlot_ne (h : q % ringCap ≠ p % ringCap) (x : LogSlot α) : (s.setSlot p x).slot q = s.slot q := by
  simp only [slot, setSlot]
  rw [Function.update_of_ne h]

end

/-! ## The invariant -/

/-- The message of the claim waits for its output. -/
structure Published (s : LoggerState α) (c : Nat) : Prop where
  free : ∀ t, (s.producers t).claim ≠ some c
  ready : (s.slot c).ready = true
  unread : (s.slot c).unread = true
  buf : s.claimed[c]? = some (s.slot c).buf
  near : c < s.printed.length + ringCap

/-- `idx` is the word of the claim, which is not output yet. -/
structure Claims (s : LoggerState α) (idx c : Nat) : Prop where
  word : idx = c % 2 ^ 64
  ge : s.printed.length ≤ c
  lt : c < s.claimed.length

def Holds (s : LoggerState α) : ProducerPc α → Prop
  | .idle => True
  | .wait idx c line => s.Claims idx c ∧ s.claimed[c]? = some line
  | .write idx c line => s.Claims idx c ∧ c < s.printed.length + ringCap ∧ (s.slot c).ready = false ∧
      (s.slot c).unread = false ∧ s.claimed[c]? = some line
  | .publish idx c => s.Claims idx c ∧ c < s.printed.length + ringCap ∧ (s.slot c).ready = false ∧
      (s.slot c).unread = true ∧ s.claimed[c]? = some (s.slot c).buf

def ReaderHolds (s : LoggerState α) : ReaderPc → Prop
  | .test r => r = s.readHead
  | .output r => r = s.readHead ∧ (s.slot r).ready = true
  | .clear r => r = s.readHead ∧ (s.slot r).ready = true ∧ (s.slot r).unread = false
  | _ => True

/-- A claim of the slot that is published, or written and about to be. -/
inductive Fills (s : LoggerState α) (i : Nat) : Prop where
  | published (c : Nat) : c % ringCap = i % ringCap → s.printed.length ≤ c → s.Published c → Fills s i
  | publish (t idx c : Nat) : c % ringCap = i % ringCap → s.producers t = .publish idx c → Fills s i

structure Inv (s : LoggerState α) : Prop where
  ordered : s.printed <+: s.claimed
  lag : s.reader.lag ≤ s.printed.length
  readHead : s.readHead = (s.printed.length - s.reader.lag) % 2 ^ 64
  writeHead : s.writeHead = s.claimed.length % 2 ^ 64
  apart : ∀ t t' c, (s.producers t).claim = some c → (s.producers t').claim = some c → t = t'
  thread : ∀ t, s.Holds (s.producers t)
  all : ∀ c, s.printed.length ≤ c → c < s.claimed.length →
    (∃ t, (s.producers t).claim = some c) ∨ s.Published c
  ready : ∀ i, (s.slot i).ready = true →
    (∃ c, c % ringCap = i % ringCap ∧ s.printed.length ≤ c ∧ s.Published c) ∨
      ∃ r, s.reader = .clear r ∧ r % ringCap = i % ringCap
  unread : ∀ i, (s.slot i).unread = true → s.Fills i
  reader : s.ReaderHolds s.reader

theorem inv_init (line : α) : (init line).Inv where
  ordered := List.prefix_refl _
  lag := Nat.le_refl _
  readHead := rfl
  writeHead := rfl
  apart := fun t t' c h => by cases h
  thread := fun t => trivial
  all := fun c _ h => absurd h (Nat.not_lt_zero c)
  ready := fun i h => by cases h
  unread := fun i h => by cases h
  reader := trivial

section
variable {s s' : LoggerState α} {t c c' : Nat} {pc : ProducerPc α}

theorem Holds.claims (h : s.Holds pc) (hc : pc.claim = some c) : ∃ idx, s.Claims idx c := by
  cases pc with
  | idle => cases hc
  | wait idx _ _ | write idx _ _ | publish idx _ =>
    obtain rfl := Option.some.inj hc
    exact ⟨idx, h.1⟩

theorem Holds.inside (h : s.Holds pc) (hc : pc.inside = some c) :
    c < s.printed.length + ringCap ∧ (s.slot c).ready = false := by
  cases pc with
  | idle | wait _ _ _ => cases hc
  | write _ _ _ | publish _ _ =>
    obtain rfl := Option.some.inj hc
    exact ⟨h.2.1, h.2.2.1⟩

theorem Inv.published_of_ready (h : s.Inv) (hr : (s.slot c).ready = true)
    (hreader : ∀ r, s.reader ≠ .clear r) (hc : c = s.printed.length) : s.Published c := by
  rcases h.ready c hr with ⟨c', hmod, hge, hp⟩ | ⟨r, hr, -⟩
  · obtain rfl := Ring.eq_of_mod_eq hmod (by omega) (by have := hp.near; omega)
    exact hp
  · exact absurd hr (hreader r)

/-- What is asked of the ring follows from the invariant. -/
theorem Inv.sound (h : s.Inv) : s.Sound where
  kept := by
    intro t idx claim line ht
    have hT := h.thread t
    rw [ht] at hT
    obtain ⟨hclaims, -, -, hunread, -⟩ := hT
    rw [slot_congr (q := claim) (by rw [hclaims.word, mod_word_mod_ringCap])]
    exact hunread
  ordered := h.ordered
  ready := by
    intro hidle hwaits hne
    have hlag : s.reader.lag = 0 := by
      unfold Waits at hwaits
      cases hr : s.reader <;> rw [hr] at hwaits <;> first | rfl | cases hwaits
    have hread := h.readHead
    rw [hlag, Nat.sub_zero] at hread
    have hlt : s.printed.length < s.claimed.length := by
      refine Nat.lt_of_le_of_ne h.ordered.length_le fun he => hne ?_
      rw [hread, h.writeHead, he]
    rcases h.all _ (Nat.le_refl _) hlt with ⟨t, ht⟩ | hp
    · rw [hidle t] at ht
      cases ht
    · rw [hread, slot_congr (mod_word_mod_ringCap _)]
      exact hp.ready

/-! ## What a step leaves alone -/

/-- Nothing is unsaid: the messages of the claims stay, and the output grows. -/
structure Extends (s s' : LoggerState α) : Prop where
  claimed : ∀ (c : Nat) (a : α), s.claimed[c]? = some a → s'.claimed[c]? = some a
  length : s.claimed.length ≤ s'.claimed.length
  printed : s.printed.length ≤ s'.printed.length

theorem Published.frame (h : s.Published c) (hs : s.Extends s') (hfree : ∀ t, (s'.producers t).claim ≠ some c)
    (hslot : s'.slot c = s.slot c) : s'.Published c where
  free := hfree
  ready := by rw [hslot]; exact h.ready
  unread := by rw [hslot]; exact h.unread
  buf := by rw [hslot]; exact hs.claimed c _ h.buf
  near := Nat.lt_of_lt_of_le h.near (Nat.add_le_add_right hs.printed _)

theorem Claims.frame {idx : Nat} (h : s.Claims idx c) (hs : s.Extends s') (hge : s'.printed.length ≤ c) :
    s'.Claims idx c :=
  ⟨h.word, hge, Nat.lt_of_lt_of_le h.lt hs.length⟩

theorem Holds.frame (h : s.Holds pc) (hs : s.Extends s') (hge : ∀ c, pc.claim = some c → s'.printed.length ≤ c)
    (hslot : ∀ c, pc.inside = some c → s'.slot c = s.slot c) : s'.Holds pc := by
  cases pc with
  | idle => trivial
  | wait idx c line => exact ⟨h.1.frame hs (hge c rfl), hs.claimed c _ h.2⟩
  | write idx c line | publish idx c =>
    obtain ⟨hclaims, hnear, hready, hunread, hbuf⟩ := h
    refine ⟨hclaims.frame hs (hge c rfl), Nat.lt_of_lt_of_le hnear (Nat.add_le_add_right hs.printed _), ?_⟩
    rw [hslot c rfl]
    exact ⟨hready, hunread, hs.claimed c _ hbuf⟩

theorem ReaderHolds.frame {pc : ReaderPc} (h : s.ReaderHolds pc) (hs : s'.readHead = s.readHead)
    (hslot : ∀ r, (s.slot r).ready = true → s'.slot r = s.slot r) : s'.ReaderHolds pc := by
  cases pc with
  | loop | load | advance | done => trivial
  | test r => exact h.trans hs.symm
  | output r | clear r =>
    obtain ⟨hread, hr⟩ := h
    refine ⟨hread.trans hs.symm, ?_⟩
    rw [hslot r (by first | exact hr | exact hr.1)]
    exact hr

/-! ## Producers -/

/-- Thread `t` has claimed the next position for `line`. -/
def pushed (s : LoggerState α) (t : Nat) (line : α) : LoggerState α :=
  { s.goto t (.wait s.writeHead s.claimed.length line) with
    writeHead := (s.writeHead + 1) % 2 ^ 64, claimed := s.claimed ++ [line] }

theorem push_eq {line : α} (hs : s.push t line = some s') : s.producers t = .idle ∧ s' = s.pushed t line := by
  unfold LoggerState.push at hs
  cases hidle : s.producers t with
  | wait _ _ _ | write _ _ _ | publish _ _ => rw [hidle] at hs; cases hs
  | idle =>
    rw [hidle] at hs
    exact ⟨rfl, (Option.some.inj hs).symm⟩

theorem pushed_extends (t : Nat) (line : α) : s.Extends (s.pushed t line) where
  claimed := fun c a h => Ring.getElem?_concat_of_some h line
  length := by simp [pushed]
  printed := Nat.le_refl _

theorem pushed_producers_ne {line : α} {x : Nat} (h : x ≠ t) : (s.pushed t line).producers x = s.producers x :=
  producers_goto_ne h _

theorem pushed_producers_self {line : α} :
    (s.pushed t line).producers t = .wait s.writeHead s.claimed.length line :=
  producers_goto_self ..

theorem pushed_claim {line : α} {x : Nat} (h : ((s.pushed t line).producers x).claim = some c) :
    x = t ∧ c = s.claimed.length ∨ x ≠ t ∧ (s.producers x).claim = some c := by
  by_cases hxt : x = t
  · rw [hxt, pushed_producers_self] at h
    exact .inl ⟨hxt, (Option.some.inj h).symm⟩
  · rw [pushed_producers_ne hxt] at h
    exact .inr ⟨hxt, h⟩

theorem Inv.claim_lt (h : s.Inv) {x : Nat} (hx : (s.producers x).claim = some c) : c < s.claimed.length := by
  obtain ⟨idx, hclaims⟩ := (h.thread x).claims hx
  exact hclaims.lt

theorem Inv.claim_ge (h : s.Inv) {x : Nat} (hx : (s.producers x).claim = some c) : s.printed.length ≤ c := by
  obtain ⟨idx, hclaims⟩ := (h.thread x).claims hx
  exact hclaims.ge

theorem Published.pushed (h : s.Published c) (line : α) : (s.pushed t line).Published c := by
  refine h.frame (pushed_extends t line) (fun x hx => ?_) rfl
  rcases pushed_claim hx with ⟨-, hc⟩ | ⟨-, hx⟩
  · have := (List.getElem?_eq_some_iff.mp h.buf).1
    omega
  · exact h.free x hx

theorem Inv.pushed (h : s.Inv) (hidle : s.producers t = .idle) (line : α) : (s.pushed t line).Inv := by
  have hne : ∀ {x c}, (s.producers x).claim = some c → x ≠ t := by
    intro x c hx e
    rw [e, hidle] at hx
    cases hx
  refine ⟨h.ordered.trans (List.prefix_append _ _), h.lag, h.readHead, ?_, fun x x' c hx hx' => ?_, fun x => ?_,
    fun c hge hlt => ?_, fun i hi => ?_, fun i hi => ?_, ?_⟩
  · show (s.writeHead + 1) % 2 ^ 64 = (s.claimed ++ [line]).length % 2 ^ 64
    rw [h.writeHead, List.length_append, List.length_singleton, Nat.mod_add_mod]
  · rcases pushed_claim hx with ⟨hxt, hc⟩ | ⟨-, hold⟩
    · rcases pushed_claim hx' with ⟨hxt', -⟩ | ⟨-, hold'⟩
      · rw [hxt, hxt']
      · have := h.claim_lt hold'
        omega
    · rcases pushed_claim hx' with ⟨-, hc⟩ | ⟨-, hold'⟩
      · have := h.claim_lt hold
        omega
      · exact h.apart x x' c hold hold'
  · by_cases hxt : x = t
    · rw [hxt, pushed_producers_self]
      refine ⟨⟨h.writeHead, h.ordered.length_le, ?_⟩, List.getElem?_concat_length⟩
      show s.claimed.length < (s.claimed ++ [line]).length
      simp
    · rw [pushed_producers_ne hxt]
      exact (h.thread x).frame (pushed_extends t line) (fun c hc => h.claim_ge hc) (fun _ _ => rfl)
  · have hlt' : c < (s.claimed ++ [line]).length := hlt
    rw [List.length_append, List.length_singleton] at hlt'
    by_cases hc : c = s.claimed.length
    · exact .inl ⟨t, by rw [pushed_producers_self, hc]; rfl⟩
    · rcases h.all c hge (by omega) with ⟨x, hx⟩ | hp
      · exact .inl ⟨x, by rw [pushed_producers_ne (hne hx)]; exact hx⟩
      · exact .inr (hp.pushed line)
  · rcases h.ready i hi with ⟨c, hmod, hge, hp⟩ | hr
    · exact .inl ⟨c, hmod, hge, hp.pushed line⟩
    · exact .inr hr
  · cases h.unread i hi with
    | published c hmod hge hp => exact .published c hmod hge (hp.pushed line)
    | publish x idx c hmod hx =>
      have hxt : x ≠ t := fun e => by rw [e, hidle] at hx; cases hx
      exact .publish x idx c hmod ((pushed_producers_ne hxt).trans hx)
  · exact h.reader.frame rfl fun _ _ => rfl

/-- Thread `t`, which is past the wait of its claim `c` or passes it, goes on to
`pc` and leaves `x` in the slot. -/
structure Works (s : LoggerState α) (t c : Nat) (x : LogSlot α) (pc : ProducerPc α) : Prop where
  claim : (s.producers t).claim = some c
  near : c < s.printed.length + ringCap
  notReady : (s.slot c).ready = false
  holds : (s.setSlot c x).Holds pc
  next : pc.claim = some c ∧ x.ready = false ∨
    pc.claim = none ∧ x.ready = true ∧ x.unread = true ∧ s.claimed[c]? = some x.buf
  unread : x.unread = true → pc.claim = none ∨ ∃ idx, pc = .publish idx c

section
variable {x : LogSlot α}

theorem work_extends : s.Extends ((s.setSlot c x).goto t pc) :=
  ⟨fun _ _ h => h, Nat.le_refl _, Nat.le_refl _⟩

variable (h : s.Inv) (hw : s.Works t c x pc)
include hw

theorem Works.same (hc : pc.claim = some c') : c' = c := by
  rcases hw.next with ⟨hsome, -⟩ | ⟨hnone, -⟩
  · exact Option.some.inj (hc.symm.trans hsome)
  · rw [hnone] at hc; cases hc

theorem Works.claim_back {y : Nat} (hy : (((s.setSlot c x).goto t pc).producers y).claim = some c') :
    (s.producers y).claim = some c' := by
  by_cases hyt : y = t
  · rw [hyt, producers_goto_self] at hy
    rw [hyt, hw.claim, hw.same hy]
  · rw [producers_goto_ne hyt] at hy
    exact hy

include h

/-- The thread has its slot to itself. -/
theorem Works.apart {q : Nat} (hmod : q % ringCap = c % ringCap) (hge : s.printed.length ≤ q)
    (hlt : q < s.printed.length + ringCap) : q = c :=
  Ring.eq_of_round hmod hge (h.claim_ge hw.claim) hlt hw.near

theorem Works.published (hge : s.printed.length ≤ c') (hp : s.Published c') :
    ((s.setSlot c x).goto t pc).Published c' := by
  refine hp.frame work_extends (fun y hy => hp.free y (hw.claim_back hy)) (slot_setSlot_ne (fun hmod => ?_) x)
  obtain rfl := hw.apart h hmod hge hp.near
  exact hp.free t hw.claim

theorem Works.done (hnone : pc.claim = none) : ((s.setSlot c x).goto t pc).Published c := by
  have hself : ((s.setSlot c x).goto t pc).slot c = x := slot_setSlot_self x
  rcases hw.next with ⟨hsome, -⟩ | ⟨-, h₁, h₂, h₃⟩
  · rw [hnone] at hsome; cases hsome
  · rw [← hself] at h₁ h₂ h₃
    refine ⟨fun y hy => ?_, h₁, h₂, h₃, hw.near⟩
    have hyt : y = t := h.apart y t c (hw.claim_back hy) hw.claim
    rw [hyt, producers_goto_self, hnone] at hy
    cases hy

theorem Works.thread (y : Nat) :
    ((s.setSlot c x).goto t pc).Holds (((s.setSlot c x).goto t pc).producers y) := by
  by_cases hyt : y = t
  · rw [hyt, producers_goto_self]
    refine hw.holds.frame ⟨fun _ _ h => h, Nat.le_refl _, Nat.le_refl _⟩ (fun c' hc' => ?_) (fun _ _ => rfl)
    rw [hw.same hc']
    exact h.claim_ge hw.claim
  · rw [producers_goto_ne hyt]
    refine (h.thread y).frame work_extends (fun c' hc' => h.claim_ge hc')
      (fun c' hc' => slot_setSlot_ne (fun hmod => hyt ?_) x)
    have hcl := ProducerPc.claim_of_inside hc'
    obtain rfl := hw.apart h hmod (h.claim_ge hcl) ((h.thread y).inside hc').1
    exact h.apart y t c' hcl hw.claim

theorem Works.all (hge : s.printed.length ≤ c') (hlt : c' < s.claimed.length) :
    (∃ y, (((s.setSlot c x).goto t pc).producers y).claim = some c') ∨
      ((s.setSlot c x).goto t pc).Published c' := by
  rcases h.all c' hge hlt with ⟨y, hy⟩ | hp
  · by_cases hyt : y = t
    · subst hyt
      obtain rfl := Option.some.inj (hw.claim.symm.trans hy)
      rcases hw.next with ⟨hsome, -⟩ | ⟨hnone, -⟩
      · exact .inl ⟨y, by rw [producers_goto_self]; exact hsome⟩
      · exact .inr (hw.done h hnone)
    · exact .inl ⟨y, by rw [producers_goto_ne hyt]; exact hy⟩
  · exact .inr (hw.published h hge hp)

theorem Inv.work : ((s.setSlot c x).goto t pc).Inv := by
  have hself : ((s.setSlot c x).goto t pc).slot c = x := slot_setSlot_self x
  have hother : ∀ {q}, q % ringCap ≠ c % ringCap → ((s.setSlot c x).goto t pc).slot q = s.slot q :=
    fun hq => slot_setSlot_ne hq x
  refine ⟨h.ordered, h.lag, h.readHead, h.writeHead, fun y y' c' hy hy' => ?_, hw.thread h,
    fun c' => hw.all h, fun i hi => ?_, fun i hi => ?_, ?_⟩
  · exact h.apart y y' c' (hw.claim_back hy) (hw.claim_back hy')
  · by_cases hmod : i % ringCap = c % ringCap
    · rw [slot_congr hmod, hself] at hi
      rcases hw.next with ⟨-, hready⟩ | ⟨hnone, -⟩
      · rw [hready] at hi; cases hi
      · exact .inl ⟨c, hmod.symm, h.claim_ge hw.claim, hw.done h hnone⟩
    · rw [hother hmod] at hi
      rcases h.ready i hi with ⟨c', hmod', hge, hp⟩ | hr
      · exact .inl ⟨c', hmod', hge, hw.published h hge hp⟩
      · exact .inr hr
  · by_cases hmod : i % ringCap = c % ringCap
    · rw [slot_congr hmod, hself] at hi
      rcases hw.unread hi with hnone | ⟨idx, hpub⟩
      · exact .published c hmod.symm (h.claim_ge hw.claim) (hw.done h hnone)
      · exact .publish t idx c hmod.symm ((producers_goto_self ..).trans hpub)
    · rw [hother hmod] at hi
      cases h.unread i hi with
      | published c' hmod' hge hp => exact .published c' hmod' hge (hw.published h hge hp)
      | publish y idx c' hmod' hy =>
        have hyt : y ≠ t := by
          intro e
          have hclaim := hw.claim
          rw [← e, hy] at hclaim
          obtain rfl := Option.some.inj hclaim
          exact hmod hmod'.symm
        exact .publish y idx c' hmod' ((producers_goto_ne hyt _).trans hy)
  · -- the slot that the reader is at is ready
    refine h.reader.frame rfl fun r hr => hother fun hmod => ?_
    rw [slot_congr hmod, hw.notReady] at hr
    cases hr

end

theorem Claims.slot_eq {idx : Nat} (h : s.Claims idx c) : s.slot idx = s.slot c :=
  slot_congr (by rw [h.word, mod_word_mod_ringCap])

theorem Claims.setSlot_eq {idx : Nat} (h : s.Claims idx c) (x : LogSlot α) : s.setSlot idx x = s.setSlot c x :=
  setSlot_congr (by rw [h.word, mod_word_mod_ringCap]) x

/-- A slot that is not ready, less than a round ahead, has been output. -/
theorem Inv.unread_of_wait (h : s.Inv) {idx : Nat} {line : α} (hpc : s.producers t = .wait idx c line)
    (hready : (s.slot c).ready = false) (hnear : c < s.printed.length + ringCap) : (s.slot c).unread = false := by
  have hclaim : (s.producers t).claim = some c := by rw [hpc]; rfl
  rw [← Bool.not_eq_true]
  intro hunread
  cases h.unread c hunread with
  | published c' hmod hge hp =>
    obtain rfl := Ring.eq_of_round hmod hge (h.claim_ge hclaim) hp.near hnear
    exact hp.free t hclaim
  | publish y idx' c' hmod hy =>
    have hclaim' : (s.producers y).claim = some c' := by rw [hy]; rfl
    have hnear' : c' < s.printed.length + ringCap := ((h.thread y).inside (by rw [hy]; rfl)).1
    obtain rfl := Ring.eq_of_round hmod (h.claim_ge hclaim') (h.claim_ge hclaim) hnear' hnear
    obtain rfl := h.apart y t c' hclaim' hclaim
    rw [hpc] at hy
    cases hy

theorem Inv.pass (h : s.Inv) {idx : Nat} {line : α} (hpc : s.producers t = .wait idx c line)
    (hready : (s.slot c).ready = false) (hnear : c < s.printed.length + ringCap) :
    (s.goto t (.write idx c line)).Inv := by
  have hT := h.thread t
  rw [hpc] at hT
  obtain ⟨hclaims, hline⟩ := hT
  have hunread := h.unread_of_wait hpc hready hnear
  have hnew : (s.setSlot c (s.slot c)).Holds (.write idx c line) := by
    rw [setSlot_slot]
    exact ⟨hclaims, hnear, hready, hunread, hline⟩
  have hw : s.Works t c (s.slot c) (.write idx c line) :=
    ⟨by rw [hpc]; rfl, hnear, hready, hnew, .inl ⟨rfl, hready⟩, fun hu => by rw [hunread] at hu; cases hu⟩
  have hwork := h.work hw
  rw [setSlot_slot] at hwork
  exact hwork

theorem Inv.produce (h : s.Inv) (hturn : s.InTurn (.produce t)) (hs : s.produce t = some s') : s'.Inv := by
  have hT := h.thread t
  unfold LoggerState.produce at hs
  have hpass : s.PassesInTurn (s.producers t) := hturn
  cases hpc : s.producers t with
  | idle => rw [hpc] at hs; cases hs
  | wait idx c line =>
    rw [hpc] at hs hT hpass
    simp only at hs
    obtain ⟨hclaims, -⟩ := hT
    have hnear : (s.slot idx).ready = false → c < s.printed.length + ringCap := hpass
    rw [hclaims.slot_eq] at hs hnear
    split at hs
    · obtain rfl := Option.some.inj hs
      exact h
    · next hready =>
      obtain rfl := Option.some.inj hs
      rw [Bool.not_eq_true] at hready
      exact h.pass hpc hready (hnear hready)
  | write idx c line =>
    rw [hpc] at hs hT
    obtain ⟨hclaims, hnear, hready, -, hline⟩ := hT
    obtain rfl := Option.some.inj hs
    rw [hclaims.slot_eq, hclaims.setSlot_eq]
    have hnew : (s.setSlot c { s.slot c with buf := line, unread := true }).Holds (.publish idx c) := by
      refine ⟨⟨hclaims.word, hclaims.ge, hclaims.lt⟩, hnear, ?_⟩
      rw [slot_setSlot_self]
      exact ⟨hready, rfl, hline⟩
    exact h.work ⟨by rw [hpc]; rfl, hnear, hready, hnew, .inl ⟨rfl, hready⟩, fun _ => .inr ⟨idx, rfl⟩⟩
  | publish idx c =>
    rw [hpc] at hs hT
    obtain ⟨hclaims, hnear, hready, hunread, hbuf⟩ := hT
    obtain rfl := Option.some.inj hs
    rw [hclaims.slot_eq, hclaims.setSlot_eq]
    exact h.work ⟨by rw [hpc]; rfl, hnear, hready, trivial, .inr ⟨rfl, rfl, hunread, hbuf⟩, fun _ => .inl rfl⟩

/-! ## The reader -/

/-- The next message is output. -/
def outputted (s : LoggerState α) (r : Nat) : LoggerState α :=
  { s.setSlot s.printed.length { s.slot s.printed.length with unread := false } with
    reader := .clear r, printed := s.printed ++ [(s.slot s.printed.length).buf] }

theorem length_outputted (r : Nat) : (s.outputted r).printed.length = s.printed.length + 1 := by
  simp [outputted]

theorem slot_outputted_self (r : Nat) :
    (s.outputted r).slot s.printed.length = { s.slot s.printed.length with unread := false } :=
  slot_setSlot_self _

theorem slot_outputted_ne {q : Nat} (h : q % ringCap ≠ s.printed.length % ringCap) (r : Nat) :
    (s.outputted r).slot q = s.slot q :=
  slot_setSlot_ne h _

theorem Inv.outputted (h : s.Inv) {r : Nat} (hr : s.reader = .output r) : (s.outputted r).Inv := by
  have hreader := h.reader
  rw [hr] at hreader
  obtain ⟨hread, hready⟩ := hreader
  have hhead : r = s.printed.length % 2 ^ 64 := by
    have hread' := h.readHead
    rw [hr, ← hread] at hread'
    exact hread'
  have hr₀ : r % ringCap = s.printed.length % ringCap := by rw [hhead, mod_word_mod_ringCap]
  rw [slot_congr hr₀] at hready
  have hp : s.Published s.printed.length :=
    h.published_of_ready hready (fun r' hr' => by rw [hr] at hr'; cases hr') rfl
  have hlen := length_outputted (s := s) r
  have hext : s.Extends (s.outputted r) := ⟨fun _ _ h => h, Nat.le_refl _, by omega⟩
  have hlater : ∀ {c}, (∃ t, (s.producers t).claim = some c) → (s.outputted r).printed.length ≤ c := by
    intro c hc
    obtain ⟨t, ht⟩ := hc
    have hge := h.claim_ge ht
    have hne : c ≠ s.printed.length := fun e => hp.free t (e ▸ ht)
    omega
  have hpublished : ∀ {c}, (s.outputted r).printed.length ≤ c → s.Published c →
      (s.outputted r).Published c := by
    intro c hge hc
    refine hc.frame hext hc.free (slot_outputted_ne (fun hmod => ?_) r)
    have := Ring.eq_of_round hmod (by omega) (Nat.le_refl _) hc.near hp.near
    omega
  -- the next slot's claims are later ones
  have hpublished' : ∀ {i c}, i % ringCap ≠ s.printed.length % ringCap → c % ringCap = i % ringCap →
      s.printed.length ≤ c → s.Published c →
      (s.outputted r).printed.length ≤ c ∧ (s.outputted r).Published c := by
    intro i c hi hmod hge hc
    have hne : c ≠ s.printed.length := fun e => hi (by rw [← hmod, e])
    have hge' : (s.outputted r).printed.length ≤ c := by omega
    exact ⟨hge', hpublished hge' hc⟩
  refine ⟨Ring.prefix_concat_of_some h.ordered hp.buf, ?_, ?_, h.writeHead, h.apart, fun x => ?_,
    fun c hge hlt => ?_, fun i hi => ?_, fun i hi => ?_, ?_⟩
  · rw [hlen]
    exact Nat.le_add_left _ _
  · rw [hlen]
    exact (hread.symm.trans hhead)
  · refine (h.thread x).frame hext (fun c hc => hlater ⟨x, hc⟩)
      (fun c hc => slot_outputted_ne (fun hmod => ?_) r)
    have hnot := ((h.thread x).inside hc).2
    rw [slot_congr hmod, hready] at hnot
    cases hnot
  · rcases h.all c (by omega) hlt with hx | hc
    · exact .inl hx
    · exact .inr (hpublished hge hc)
  · by_cases hmod : i % ringCap = s.printed.length % ringCap
    · exact .inr ⟨r, rfl, hr₀.trans hmod.symm⟩
    · rw [slot_outputted_ne hmod] at hi
      rcases h.ready i hi with ⟨c, hc, hge, hpub⟩ | ⟨r', hr', -⟩
      · obtain ⟨hge', hpub'⟩ := hpublished' hmod hc hge hpub
        exact .inl ⟨c, hc, hge', hpub'⟩
      · rw [hr] at hr'; cases hr'
  · by_cases hmod : i % ringCap = s.printed.length % ringCap
    · rw [slot_congr hmod, slot_outputted_self] at hi
      cases hi
    · rw [slot_outputted_ne hmod] at hi
      cases h.unread i hi with
      | published c hc hge hpub =>
        obtain ⟨hge', hpub'⟩ := hpublished' hmod hc hge hpub
        exact .published c hc hge' hpub'
      | publish x idx c hc hx => exact .publish x idx c hc hx
  · refine ⟨hread, ?_⟩
    rw [slot_congr hr₀, slot_outputted_self]
    exact ⟨hready, rfl⟩

/-- The flag of the message that was output is reset. -/
def cleared (s : LoggerState α) (r : Nat) : LoggerState α :=
  { s.setSlot r { s.slot r with ready := false } with reader := .advance }

theorem slot_cleared_self (r : Nat) : (s.cleared r).slot r = { s.slot r with ready := false } :=
  slot_setSlot_self _

theorem slot_cleared_ne {q r : Nat} (h : q % ringCap ≠ r % ringCap) : (s.cleared r).slot q = s.slot q :=
  slot_setSlot_ne h _

theorem Inv.cleared (h : s.Inv) {r : Nat} (hr : s.reader = .clear r) : (s.cleared r).Inv := by
  have hreader := h.reader
  rw [hr] at hreader
  obtain ⟨-, hready, hread⟩ := hreader
  have hext : s.Extends (s.cleared r) := ⟨fun _ _ h => h, Nat.le_refl _, Nat.le_refl _⟩
  have hpublished : ∀ {c}, s.Published c → (s.cleared r).Published c := by
    intro c hc
    refine hc.frame hext hc.free (slot_cleared_ne fun hmod => ?_)
    have hunread := hc.unread
    rw [slot_congr hmod, hread] at hunread
    cases hunread
  have hhead := h.readHead
  have hlag := h.lag
  rw [hr] at hhead hlag
  refine ⟨h.ordered, hlag, hhead, h.writeHead, h.apart, fun x => ?_, fun c hge hlt => ?_, fun i hi => ?_,
    fun i hi => ?_, trivial⟩
  · refine (h.thread x).frame hext (fun c hc => h.claim_ge hc) (fun c hc => slot_cleared_ne fun hmod => ?_)
    have hnot := ((h.thread x).inside hc).2
    rw [slot_congr hmod, hready] at hnot
    cases hnot
  · exact (h.all c hge hlt).imp id hpublished
  · by_cases hmod : i % ringCap = r % ringCap
    · rw [slot_congr hmod, slot_cleared_self] at hi
      cases hi
    · rw [slot_cleared_ne hmod] at hi
      rcases h.ready i hi with ⟨c, hc, hge, hpub⟩ | ⟨r', hr', hmod'⟩
      · exact .inl ⟨c, hc, hge, hpublished hpub⟩
      · rw [hr] at hr'
        obtain rfl := ReaderPc.clear.inj hr'
        exact absurd hmod'.symm hmod
  · by_cases hmod : i % ringCap = r % ringCap
    · rw [slot_congr hmod, slot_cleared_self] at hi
      rw [show _ = (s.slot r).unread from rfl, hread] at hi
      cases hi
    · rw [slot_cleared_ne hmod] at hi
      cases h.unread i hi with
      | published c hc hge hpub => exact .published c hc hge (hpublished hpub)
      | publish x idx c hc hx => exact .publish x idx c hc hx

/-- The reader moves on without touching a slot. -/
theorem Inv.look (h : s.Inv) {reader : ReaderPc} {readHead : Nat} {running : Bool}
    (hclear : ∀ r, s.reader = .clear r → reader = .clear r) (hlag : reader.lag ≤ s.printed.length)
    (hhead : readHead = (s.printed.length - reader.lag) % 2 ^ 64)
    (hreader : ReaderHolds { s with readHead := readHead } reader) :
    Inv { s with reader := reader, readHead := readHead, running := running } := by
  have hext : s.Extends { s with reader := reader, readHead := readHead, running := running } :=
    ⟨fun _ _ h => h, Nat.le_refl _, Nat.le_refl _⟩
  have hpublished : ∀ {c}, s.Published c →
      Published { s with reader := reader, readHead := readHead, running := running } c :=
    fun hp => hp.frame hext hp.free rfl
  refine ⟨h.ordered, hlag, hhead, h.writeHead, h.apart, fun x => ?_, fun c hge hlt => ?_, fun i hi => ?_,
    fun i hi => ?_, hreader.frame rfl fun _ _ => rfl⟩
  · exact (h.thread x).frame hext (fun c hc => h.claim_ge hc) (fun _ _ => rfl)
  · exact (h.all c hge hlt).imp id hpublished
  · rcases h.ready i hi with ⟨c, hc, hge, hp⟩ | ⟨r, hr, hmod⟩
    · exact .inl ⟨c, hc, hge, hpublished hp⟩
    · exact .inr ⟨r, hclear r hr, hmod⟩
  · cases h.unread i hi with
    | published c hc hge hp => exact .published c hc hge (hpublished hp)
    | publish x idx c hc hx => exact .publish x idx c hc hx

theorem Inv.read (h : s.Inv) (hs : s.read = some s') : s'.Inv := by
  have hhead := h.readHead
  have hreader := h.reader
  unfold LoggerState.read at hs
  cases hr : s.reader with
  | done => rw [hr] at hs; cases hs
  | loop =>
    rw [hr] at hs hhead
    simp only at hs
    split at hs <;> obtain rfl := Option.some.inj hs <;>
      exact h.look (fun r hc => by rw [hr] at hc; cases hc) (Nat.zero_le _) hhead trivial
  | load =>
    rw [hr] at hs hhead
    simp only at hs
    split at hs <;> obtain rfl := Option.some.inj hs
    · exact h.look (fun r hc => by rw [hr] at hc; cases hc) (Nat.zero_le _) hhead trivial
    · exact h.look (fun r hc => by rw [hr] at hc; cases hc) (Nat.zero_le _) hhead rfl
  | test r =>
    rw [hr] at hs hhead hreader
    simp only at hs
    split at hs <;> obtain rfl := Option.some.inj hs
    · next hready =>
      exact h.look (fun r hc => by rw [hr] at hc; cases hc) (Nat.zero_le _) hhead ⟨hreader, hready⟩
    · exact h.look (fun r hc => by rw [hr] at hc; cases hc) (Nat.zero_le _) hhead trivial
  | output r =>
    rw [hr] at hs hhead hreader
    obtain ⟨hread, -⟩ := hreader
    have hmod : r % ringCap = s.printed.length % ringCap := by
      have hword : r = s.printed.length % 2 ^ 64 := hread.trans hhead
      rw [hword, mod_word_mod_ringCap]
    obtain rfl := Option.some.inj hs
    rw [slot_congr hmod, setSlot_congr hmod]
    exact h.outputted hr
  | clear r =>
    rw [hr] at hs
    obtain rfl := Option.some.inj hs
    exact h.cleared hr
  | advance =>
    have hlag := h.lag
    rw [hr] at hs hhead hlag
    obtain rfl := Option.some.inj hs
    refine h.look (fun r hc => by rw [hr] at hc; cases hc) (Nat.zero_le _) ?_ trivial
    rw [hhead, Nat.mod_add_mod]
    simp only [ReaderPc.lag] at hlag ⊢
    congr 1
    omega

theorem Inv.step {e : LoggerEvent α} (h : s.Inv) (hturn : s.InTurn e) (hs : s.step e = some s') : s'.Inv := by
  cases e with
  | push t line =>
    obtain ⟨hidle, rfl⟩ := push_eq hs
    exact h.pushed hidle line
  | produce t => exact h.produce hturn hs
  | read => exact h.read hs
  | stop =>
    obtain rfl := Option.some.inj hs
    exact h.look (fun _ hr => hr) h.lag h.readHead h.reader

/-! ## Runs -/

theorem run_inv {line : α} {es : List (LoggerEvent α)} (hr : run LoggerState.step (init line) es = some s)
    (hturn : Along LoggerState.step InTurn (init line) es) : s.Inv :=
  inv_along (fun _ _ _ hI hC hs => hI.step hC hs) hturn (inv_init line) hr

theorem produce_wait {idx : Nat} {line : α} (hpc : s.producers t = .wait idx c line)
    (hready : (s.slot idx).ready = false) : s.step (.produce t) = some (s.goto t (.write idx c line)) := by
  simp only [LoggerState.step, LoggerState.produce, hpc, hready, Bool.false_eq_true, ite_false]

theorem produce_write {idx : Nat} {line : α} (hpc : s.producers t = .write idx c line) :
    s.step (.produce t) =
      some ((s.setSlot idx { s.slot idx with buf := line, unread := true }).goto t (.publish idx c)) := by
  simp only [LoggerState.step, LoggerState.produce, hpc]

theorem not_sound_of_write {idx : Nat} {line : α} (hpc : s.producers t = .write idx c line)
    (hunread : (s.slot idx).unread = true) : ¬ s.Sound := by
  intro h
  rw [h.kept t idx c line hpc] at hunread
  cases hunread

/-- A producer passes the wait and writes its message. -/
theorem run_pass_write {idx : Nat} {line : α} (hpc : s.producers t = .wait idx c line)
    (hready : (s.slot idx).ready = false) : ∃ s', run LoggerState.step s [.produce t, .produce t] = some s' ∧
      s'.slot idx = { s.slot idx with buf := line, unread := true } ∧
      ∀ x, x ≠ t → s'.producers x = s.producers x := by
  let s₁ := s.goto t (.write idx c line)
  have hpass : s.step (.produce t) = some s₁ := produce_wait hpc hready
  have hwrite := produce_write (s := s₁) (producers_goto_self ..)
  refine ⟨_, run_trans (run_one hpass) (run_one hwrite), slot_setSlot_self _, fun x hx => ?_⟩
  rw [producers_goto_ne hx, setSlot, producers_goto_ne hx]

/-- Two producers wait at one slot that is not ready: both pass, and the second
is about to write over the first's message. -/
theorem run_overwrites {t' idx idx' : Nat} {line line' : α} (hne : t' ≠ t)
    (hpc : s.producers t = .wait idx c line) (hpc' : s.producers t' = .wait idx' c' line')
    (hmod : idx' % ringCap = idx % ringCap) (hready : (s.slot idx).ready = false) :
    ∃ s', run LoggerState.step s [.produce t, .produce t, .produce t'] = some s' ∧ ¬ s'.Sound := by
  obtain ⟨s₂, hrun, hslot, hsame⟩ := run_pass_write hpc hready
  rw [← slot_congr hmod] at hslot
  have hpass : s₂.step (.produce t') = some (s₂.goto t' (.write idx' c' line')) :=
    produce_wait ((hsame t' hne).trans hpc') (by rw [hslot]; exact hready)
  refine ⟨_, run_trans hrun (run_one hpass), not_sound_of_write (producers_goto_self ..) ?_⟩
  rw [show (s₂.goto t' _).slot idx' = s₂.slot idx' from rfl, hslot]

/-- A producer has passed the wait a round ahead. The slot is still owed to an
earlier claim, and one of the two can go on to overwrite the other's message. -/
theorem Inv.overwrites (h : s.Inv) {idx : Nat} {line : α} (hpc : s.producers t = .wait idx c line)
    (hready : (s.slot idx).ready = false) (hfar : s.printed.length + ringCap ≤ c) :
    ∃ es s', run LoggerState.step s (.produce t :: es) = some s' ∧ ¬ s'.Sound := by
  have hclaim : (s.producers t).claim = some c := by rw [hpc]; rfl
  have hT := h.thread t
  rw [hpc] at hT
  obtain ⟨hclaims, -⟩ := hT
  obtain ⟨c', hmod, hge, hlt⟩ : ∃ c', c' % ringCap = c % ringCap ∧ s.printed.length ≤ c' ∧
      c' < s.printed.length + ringCap := Ring.exists_round (by decide) (by omega)
  rw [← mod_word_mod_ringCap c, ← hclaims.word] at hmod
  rcases h.all c' hge (by have := hclaims.lt; omega) with ⟨t', ht'⟩ | hp
  · have hne : t' ≠ t := by
      intro e
      rw [e, hclaim] at ht'
      have := Option.some.inj ht'
      omega
    have hT' := h.thread t'
    cases hpc' : s.producers t' with
    | idle => rw [hpc'] at ht'; cases ht'
    | wait idx' c'' line' =>
      rw [hpc'] at hT' ht'
      obtain rfl := Option.some.inj ht'
      obtain ⟨s', hr, hnot⟩ := run_overwrites hne hpc hpc'
        (by rw [hT'.1.word, mod_word_mod_ringCap, hmod]) hready
      exact ⟨_, s', hr, hnot⟩
    | write idx' c'' line' =>
      -- the later message is written, and the earlier one is about to be
      rw [hpc'] at hT' ht'
      obtain rfl := Option.some.inj ht'
      obtain ⟨s₂, hrun, hslot, hsame⟩ := run_pass_write hpc hready
      refine ⟨[.produce t], s₂, hrun, not_sound_of_write ((hsame t' hne).trans hpc') ?_⟩
      have hmod' : idx' % ringCap = idx % ringCap := by rw [hT'.1.word, mod_word_mod_ringCap, hmod]
      rw [slot_congr hmod', hslot]
    | publish idx' c'' =>
      -- the earlier message is written
      rw [hpc'] at hT' ht'
      obtain rfl := Option.some.inj ht'
      obtain ⟨-, -, -, hunread, -⟩ := hT'
      refine ⟨[], s.goto t (.write idx c line), run_one (produce_wait hpc hready),
        not_sound_of_write (producers_goto_self ..) ?_⟩
      rw [show (s.goto t _).slot idx = s.slot idx from rfl, ← slot_congr hmod]
      exact hunread
  · have hready' := hp.ready
    rw [slot_congr hmod, hready] at hready'
    cases hready'

/-- A step that is out of turn is a pass of the wait a round ahead. -/
theorem not_inTurn {e : LoggerEvent α} (h : ¬ s.InTurn e) : ∃ t idx c line, e = .produce t ∧
    s.producers t = .wait idx c line ∧ (s.slot idx).ready = false ∧ s.printed.length + ringCap ≤ c := by
  cases e with
  | push t line | read | stop => exact absurd trivial h
  | produce t =>
    have hpass : ¬ s.PassesInTurn (s.producers t) := h
    cases hpc : s.producers t with
    | idle | write _ _ _ | publish _ _ => rw [hpc] at hpass; exact absurd trivial hpass
    | wait idx c line =>
      rw [hpc] at hpass
      obtain ⟨hready, hfar⟩ := Classical.not_imp.mp hpass
      exact ⟨t, idx, c, line, rfl, hpc, hready, Nat.le_of_not_lt hfar⟩

/-- While every producer that passes the wait is less than a round ahead of the
output, the ring keeps every message, in order; and from the first that is not a
message can be lost. -/
theorem log_ring_sound_iff (line : α) (es : List (LoggerEvent α)) (s : LoggerState α)
    (hr : run LoggerState.step (init line) es = some s) :
    (Along LoggerState.step InTurn (init line) es → s.Sound) ∧
      (¬ Along LoggerState.step InTurn (init line) es → ∃ es₁ es₂ s', es₁ <+: es ∧
        run LoggerState.step (init line) (es₁ ++ es₂) = some s' ∧ ¬ s'.Sound) := by
  refine ⟨fun h => (run_inv hr h).sound, fun h => ?_⟩
  obtain ⟨es₁, e, es₂, u, -, rfl, hturn, hu, -, hnot⟩ := exists_first_not_along hr h
  obtain ⟨t, idx, c, l, rfl, hpc, hready, hfar⟩ := not_inTurn hnot
  obtain ⟨es', s', hr', hbad⟩ := (run_inv hu hturn).overwrites hpc hready hfar
  refine ⟨es₁ ++ [.produce t], es', s', ⟨es₂, by simp⟩, ?_, hbad⟩
  rw [List.append_assoc]
  exact run_trans hu hr'

end

end LoggerState

namespace Sample

open LoggerState

/-- The threads below `n` claim a position each. -/
def crowd (n : Nat) : List (LoggerEvent Nat) := (List.range n).map fun t => .push t t

theorem run_crowd (n : Nat) : ∃ s : LoggerState Nat, run step (init 0) (crowd n) = some s ∧
    (∀ t < n, s.producers t = .wait (t % 2 ^ 64) t t) ∧ (∀ t, n ≤ t → s.producers t = .idle) ∧
    s.ring = (init 0).ring ∧ s.writeHead = n % 2 ^ 64 ∧ s.claimed.length = n := by
  induction n with
  | zero => exact ⟨init 0, rfl, fun t h => absurd h (Nat.not_lt_zero t), fun _ _ => rfl, rfl, rfl, rfl⟩
  | succ n ih =>
    obtain ⟨s, hr, hwait, hidle, hring, hhead, hlen⟩ := ih
    refine ⟨s.pushed n n, ?_, fun t ht => ?_, fun t ht => ?_, hring, ?_, ?_⟩
    · have hpush : s.step (.push n n) = some (s.pushed n n) := by
        simp only [step, push, hidle n (Nat.le_refl n), pushed]
      rw [crowd, List.range_succ, List.map_append]
      exact run_trans hr (run_one hpush)
    · by_cases htn : t = n
      · rw [htn, pushed_producers_self, hhead, hlen]
      · rw [pushed_producers_ne htn]
        exact hwait t (by omega)
    · rw [pushed_producers_ne (by omega)]
      exact hidle t (by omega)
    · show (s.writeHead + 1) % 2 ^ 64 = (n + 1) % 2 ^ 64
      rw [hhead, Nat.mod_add_mod]
    · show (s.claimed ++ [n]).length = n + 1
      rw [List.length_append, hlen]
      rfl

/-- One message goes through the ring. -/
def passing : List (LoggerEvent Nat) :=
  [.push 0 7, .read, .read, .produce 0, .produce 0, .produce 0, .read, .read, .read, .read]

def passingState : LoggerState Nat := (run step (init 0) passing).getD (init 0)

theorem log_ring_sound_passing : passingState.Sound :=
  (log_ring_sound_iff 0 passing passingState rfl).1 (by decide)

example : passingState.printed = [7] := by decide

/-- The first of 4097 producers and the last wait at one slot, which is not
ready: the last writes its message, and the first is about to write over it. -/
theorem not_log_ring_sound : ¬ ∀ (es : List (LoggerEvent Nat)) (s : LoggerState Nat),
    run step (init 0) es = some s → s.Sound := by
  intro h
  obtain ⟨s, hr, hwait, -, hring, -, -⟩ := run_crowd 4097
  have hready : (s.slot (4096 % 2 ^ 64)).ready = false := by
    unfold slot
    rw [hring]
    rfl
  obtain ⟨s', hr', hnot⟩ :=
    run_overwrites (by decide) (hwait 4096 (by decide)) (hwait 0 (by decide)) (by decide) hready
  exact hnot (h _ s' (run_trans hr hr'))

end Sample

end OrderExecution
