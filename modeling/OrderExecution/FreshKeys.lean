import OrderExecution.FlatHashMapRefines
import OrderExecution.PortfolioGuardSound

/-!
# A fresh key starts from zero

`operator[]` hands out the value that a free slot holds. The loop of `erase`
vacates the slots of the entries it moves without resetting them, so the law
that an absent key reads zero rests on erases that move no entry.
-/

namespace OrderExecution

namespace FlatHashMap

open Probing

/-- Erasing `key` moves no other entry. -/
def MovesNone {V : Type} [Zero V] {CAP : Nat} (hash : Bytes → Nat) (m : FlatHashMap V CAP) (key : Bytes) : Prop :=
  ∀ p < CAP, m.cell p = some key → Skipped CAP (home hash CAP) m.cell p

instance {V : Type} [Zero V] {CAP : Nat} (hash : Bytes → Nat) (m : FlatHashMap V CAP) (key : Bytes) :
    Decidable (MovesNone hash m key) :=
  inferInstanceAs (Decidable (∀ p < CAP, _))

section
variable {V : Type} [Zero V] {CAP : Nat} {hash : Bytes → Nat} {m : FlatHashMap V CAP}

theorem setSlot_back {p : Nat} (hp : p < CAP) (s : Slot V) : (m.setSlot p s).setSlot p (m.slot p) = m := by
  have hslots : (m.slots.setIfInBounds p s).setIfInBounds p (m.slot p) = m.slots := by
    refine Vector.ext fun i hi => ?_
    by_cases hip : p = i
    · subst hip; simp [slot, hp]
    · simp [hip]
  unfold setSlot
  simp only [hslots]

/-- An entry that is taken out and inserted again, while every probe is whole,
returns to its slot. -/
theorem reinsert_self (hcap : 0 < CAP) (hr : Reach CAP (home hash CAP) m.cell) (hd : Distinct CAP m.cell)
    (hs : 0 < m.size) {x : Nat} (hx : x < CAP) (ho : (m.slot x).occupied = true) :
    (({ m.setSlot x { m.slot x with key := .empty, occupied := false } with size := m.size - 1 } :
      FlatHashMap V CAP).update hash (m.slot x).value (m.slot x).key.bytes fun _ => (m.slot x).value).1 = m := by
  have hk : m.cell x = some (m.slot x).key.bytes := cell_eq_some.mpr ⟨ho, rfl⟩
  let v : FlatHashMap V CAP :=
    { m.setSlot x { m.slot x with key := .empty, occupied := false } with size := m.size - 1 }
  have hv : v.cell = Function.update m.cell x none := by
    simp only [v, cell_size, cell_setSlot hx]; simp [entryOf]
  have hc : Clear CAP (home hash CAP) v.cell (m.slot x).key.bytes x := by
    intro q hq hl
    have hqx : q ≠ x := fun e => by rw [e] at hl; omega
    rw [hv, Function.update_of_ne hqx]
    obtain ⟨k, hkq⟩ := Option.ne_none_iff_exists'.mp (hr x hx _ hk q hq hl)
    refine ⟨k, hkq, fun e => hqx ?_⟩
    rw [e] at hkq
    exact hd q hq x hx _ hkq hk
  have hpr : v.probe hash (m.slot x).key.bytes = .free x :=
    probe_eq_free hcap hx (by rw [hv, Function.update_self]) hc
  show (v.update hash _ _ _).1 = m
  have hback : (⟨(m.slot x).key, (m.slot x).value, true⟩ : Slot V) = m.slot x := by rw [← ho]
  have hsize : v.size + 1 = m.size := by
    show m.size - 1 + 1 = m.size
    omega
  rw [update_free hash hx hpr, CStr.copy_bytes_self, hsize]
  show ({ (m.setSlot x _).setSlot x ⟨(m.slot x).key, (m.slot x).value, true⟩ with size := m.size } :
    FlatHashMap V CAP) = m
  rw [hback, setSlot_back hx]

theorem rehash_idle (hcap : 0 < CAP) (hr : Reach CAP (home hash CAP) m.cell) (hd : Distinct CAP m.cell)
    (hs : ∀ p < CAP, m.cell p ≠ none → 0 < m.size) (fuel : Nat) {x : Nat} (hx : x < CAP) :
    m.rehash hash fuel x = m := by
  induction fuel generalizing x with
  | zero => rfl
  | succ fuel ih =>
    unfold rehash
    simp only
    split
    · next ho =>
      have hk : m.cell x ≠ none := by rw [cell_eq_some.mpr ⟨ho, rfl⟩]; exact Option.some_ne_none _
      rw [reinsert_self hcap hr hd (hs x hx hk) hx ho]
      exact ih (Nat.mod_lt _ hcap)
    · rfl

theorem Fresh.erase (hw : Wf hash m) (h : Fresh m) {key : Bytes} (hk : MovesNone hash m key) :
    Fresh (m.erase hash key).1 := by
  have hs := probe_stops hash hw.cap m key
  unfold FlatHashMap.erase
  cases hpr : m.probe hash key with
  | full => exact h
  | free p => exact h
  | found p =>
    rw [hpr] at hs
    obtain ⟨hp, hc, -⟩ := hs
    let m₁ : FlatHashMap V CAP := { m.setSlot p ⟨.empty, 0, false⟩ with size := m.size - 1 }
    have hcell : m₁.cell = Function.update m.cell p none := by
      simp only [m₁, cell_size, cell_setSlot hp]; simp [entryOf]
    have hfresh : Fresh m₁ := by
      intro q hq hqc
      show ((m.setSlot p _).slot q).value = 0
      by_cases hqp : q = p
      · rw [hqp, slot_setSlot_self hp]
      · rw [hcell, Function.update_of_ne hqp] at hqc
        rw [slot_setSlot_ne hqp]
        exact h q hq hqc
    have hsize : ∀ q < CAP, m₁.cell q ≠ none → 0 < m₁.size := by
      intro q hq hqc
      obtain ⟨k, hk⟩ := Option.ne_none_iff_exists'.mp hqc
      have htake : m.entries.Perm ((key, (m.slot p).value) :: m₁.entries) := by
        obtain ⟨ho, hkey⟩ := cell_eq_some.mp hc
        exact entries_take hp (by simp [entryOf, ho, hkey]) (by simp [entryOf])
      have hpos : 0 < m₁.entries.length := List.length_pos_of_mem (mem_entries.mpr ⟨q, hq, hk, rfl⟩)
      have hlen := htake.length_eq
      rw [← hw.size_eq, List.length_cons] at hlen
      show 0 < m.size - 1
      omega
    show Fresh (m₁.rehash hash (rehashFuel CAP) ((p + 1) % CAP))
    rw [rehash_idle hw.cap (hcell ▸ hw.reach.remove (hk p hp hc)) (hcell ▸ hw.distinct.remove p) hsize _
      (Nat.mod_lt _ hw.cap)]
    exact hfresh

theorem fresh_clear (m : FlatHashMap V CAP) : Fresh m.clear := fun p _ _ => by rw [slot_clear]; rfl

theorem Fresh.getOrInsert (hw : Wf hash m) (h : Fresh m) {key : Bytes} (hk : m.find hash key = none)
    (hroom : m.size < CAP) : ∃ p, (m.getOrInsert hash key).2 = .slot p ∧
      ((m.getOrInsert hash key).1.slot p).value = 0 := by
  have hs := probe_stops hash hw.cap m key
  unfold FlatHashMap.getOrInsert
  cases hpr : m.probe hash key with
  | free p =>
    rw [hpr] at hs
    refine ⟨p, rfl, ?_⟩
    rw [slot_size, slot_setSlot_self hs.1]
    exact h p hs.1 hs.2.1
  | found p => rw [find, hpr] at hk; cases hk
  | full =>
    rw [hpr] at hs
    refine absurd ((size_eq_cap_iff hw).mpr fun p hp hc => ?_) hroom.ne
    obtain ⟨k, hk, -⟩ := hs p hp
    rw [hc] at hk; cases hk

end

/-! ## Tables of numbers -/

section
variable {CAP : Nat}

/-- `m[key] = f(m[key])`, `erase` and `clear`. -/
inductive TableOp where
  | write (key : CStr 31) (f : ℚ → ℚ)
  | erase (key : CStr 31)
  | clear

/-- A call on a table and the static `dummy`. -/
def apply (hash : Bytes → Nat) (s : FlatHashMap ℚ CAP × ℚ) : TableOp → FlatHashMap ℚ CAP × ℚ
  | .write key f => s.1.update hash s.2 key.bytes f
  | .erase key => ((s.1.erase hash key.bytes).1, s.2)
  | .clear => (s.1.clear, s.2)

/-- A call that is an erase moves no other entry. -/
def Settled (hash : Bytes → Nat) (s : FlatHashMap ℚ CAP × ℚ) : TableOp → Prop
  | .erase key => MovesNone hash s.1 key.bytes
  | _ => True

instance (hash : Bytes → Nat) (s : FlatHashMap ℚ CAP × ℚ) (op : TableOp) : Decidable (Settled hash s op) := by
  unfold Settled; split <;> infer_instance

/-- While there is room, `operator[]` of an absent key is a reference to zero. -/
def StartsFromZero (hash : Bytes → Nat) (m : FlatHashMap ℚ CAP) : Prop :=
  ∀ key : CStr 31, m.find hash key.bytes = none → m.size < CAP →
    ∃ p, (m.getOrInsert hash key.bytes).2 = .slot p ∧ ((m.getOrInsert hash key.bytes).1.slot p).value = 0

variable {hash : Bytes → Nat}

theorem fresh_apply (s : FlatHashMap ℚ CAP × ℚ) (op : TableOp) (h : Wf hash s.1 ∧ Fresh s.1)
    (hop : Settled hash s op) : Wf hash (apply hash s op).1 ∧ Fresh (apply hash s op).1 := by
  obtain ⟨hw, hf⟩ := h
  cases op with
  | write key f => exact ⟨(update_spec hw key.fits s.2 f).1, hf.update hw key.bytes s.2 f⟩
  | erase key => exact ⟨(erase_spec hw key.bytes).1, hf.erase hw hop⟩
  | clear => exact ⟨wf_clear hw.cap s.1, fresh_clear s.1⟩

end

end FlatHashMap

/-! ## Reservations -/

namespace PortfolioGuard

open FlatHashMap

/-- The calls on a guard. -/
inductive Call where
  | op (op : GuardOp)
  | reset

def call (g : PortfolioGuard) : Call → PortfolioGuard
  | .op op => g.apply op
  | .reset => g.reset

/-- A call that erases a reservation moves no other one. -/
def Settled (g : PortfolioGuard) : Call → Prop
  | .op (.onFill s _ _) => MovesNone hashKey g.state.marginReserved (marginKey s)
  | .op (.releaseMargin s) => MovesNone hashKey g.state.marginReserved (marginKey s)
  | _ => True

instance (g : PortfolioGuard) (c : Call) : Decidable (g.Settled c) := by
  unfold Settled; split <;> infer_instance

/-- An approved reservation under a key that has none, while there is room,
lowers the available margin by the required one. -/
def ReservesRequired (g : PortfolioGuard) : Prop :=
  ∀ s : Signal, g.reservedUnder (marginKey s) = none → g.state.marginReserved.size < 128 →
    (g.checkAndReserve s).2.approved = true →
    (g.checkAndReserve s).1.state.availableMargin = g.state.availableMargin - g.calcRequiredMargin s

variable {g : PortfolioGuard}

/-- The tables are sound, and no stale value is left among the reservations. -/
structure Clean (g : PortfolioGuard) : Prop where
  wf : g.Wf
  fresh : Fresh g.state.marginReserved

theorem Clean.reserve (h : g.Clean) (s : Signal) (amount : ℚ) : (g.reserve s amount).Clean :=
  ⟨h.wf.reserve s amount, h.fresh.update h.wf.reserved _ _ _⟩

theorem Clean.apply (h : g.Clean) {op : GuardOp} (hop : g.Settled (.op op)) : (g.apply op).Clean := by
  refine ⟨h.wf.apply op, ?_⟩
  cases op with
  | checkAndReserve s =>
    show Fresh (g.checkAndReserve s).1.state.marginReserved
    unfold checkAndReserve
    simp only
    split
    · exact h.fresh
    · exact (h.reserve s _).fresh
  | checkAndReservePair cex dex =>
    show Fresh (g.checkAndReservePair cex dex).1.state.marginReserved
    unfold checkAndReservePair
    simp only
    split
    · exact h.fresh
    · exact ((h.reserve cex _).reserve dex _).fresh
  | onFill s price qty => exact h.fresh.erase h.wf.reserved hop
  | releaseMargin s =>
    show Fresh (g.releaseMargin s).state.marginReserved
    unfold releaseMargin
    split
    · exact h.fresh.erase h.wf.reserved hop
    · exact h.fresh

theorem Clean.call (h : g.Clean) {c : Call} (hc : g.Settled c) : (g.call c).Clean := by
  cases c with
  | op op => exact h.apply hc
  | reset =>
    refine ⟨⟨?_, ?_, ?_⟩, fresh_clear g.state.marginReserved⟩
    · exact wf_clear (by omega) g.state.positions
    · exact wf_clear (by omega) g.state.marginUsed
    · exact wf_clear (by omega) g.state.marginReserved

theorem Clean.reservesRequired (h : g.Clean) : g.ReservesRequired := by
  intro s hnone hroom happ
  rw [checkAndReserve_approved happ, availableMargin_reserve h.wf hnone hroom, h.fresh.leftover h.wf.reserved,
    zero_add]

end PortfolioGuard

open FlatHashMap Machine

/-- In every run whose erases move no other entry an absent key starts from
zero, and an approved reservation under a new key costs the required margin. -/
theorem fresh_key_starts_from_zero (CAP : Nat) (hash : Bytes → Nat) (config : PortfolioConfig) (dummy : ℚ) :
    (∀ ops : List TableOp,
      Along (fun s op => some (FlatHashMap.apply hash s op)) (FlatHashMap.Settled hash)
        ((FlatHashMap.empty : FlatHashMap ℚ CAP), dummy) ops →
      Always (fun s op => some (FlatHashMap.apply hash s op)) (fun s => StartsFromZero hash s.1)
        ((FlatHashMap.empty : FlatHashMap ℚ CAP), dummy) ops) ∧
    ∀ calls : List PortfolioGuard.Call,
      Along (fun g c => some (PortfolioGuard.call g c)) PortfolioGuard.Settled
        { PortfolioGuard.init config with dummy := dummy } calls →
      Always (fun g c => some (PortfolioGuard.call g c)) PortfolioGuard.ReservesRequired
        { PortfolioGuard.init config with dummy := dummy } calls := by
  constructor
  · intro ops halong
    rcases Nat.eq_zero_or_pos CAP with rfl | hcap
    · exact always_iff.mpr fun _ _ _ _ _ _ _ hroom => absurd hroom (Nat.not_lt_zero _)
    · have hinv := inv_always (I := fun s => Wf hash s.1 ∧ Fresh s.1)
        (fun s op s' h hop hs => Option.some.inj hs ▸ fresh_apply s op h hop) halong
        ⟨wf_empty hash hcap, fresh_empty⟩
      refine hinv.mono fun s h => ?_
      intro key hk hroom
      exact h.2.getOrInsert h.1 hk hroom
  · intro calls halong
    have hw := PortfolioGuard.wf_init config
    have hinv := inv_always (I := PortfolioGuard.Clean)
      (fun g c g' h hc hs => Option.some.inj hs ▸ h.call hc) halong ⟨⟨hw.1, hw.2, hw.3⟩, fresh_empty⟩
    exact hinv.mono fun g h => h.reservesRequired

namespace Sample

def ethSignal (n : Nat) (quantity : ℚ) : Signal :=
  { signalId := storedSignalId n, symbol := .copy 15 (lit "ETH"), exchange := .BINANCE, quantity := quantity, price := 3000 }

def ethKey (n : Nat) : CStr 31 := .copy 31 (marginKey (ethSignal n 1))

/-- The keys of the signals 1, 52 and 108 have one home: the erase of the first
moves the second and leaves its amount behind. -/
def collidingOps : List TableOp := [.write (ethKey 1) (· + 300), .write (ethKey 52) (· + 600), .erase (ethKey 1)]

def collidingCalls : List PortfolioGuard.Call :=
  [.op (.checkAndReserve (ethSignal 1 1)), .op (.checkAndReserve (ethSignal 52 2)), .op (.releaseMargin (ethSignal 1 1))]

end Sample

theorem fresh_key_starts_from_zero_released :
    Always (fun s op => some (FlatHashMap.apply hashKey s op)) (fun s => StartsFromZero hashKey s.1)
        ((FlatHashMap.empty : FlatHashMap ℚ 128), 0) [.write (Sample.ethKey 1) (· + 300), .erase (Sample.ethKey 1)] ∧
      Always (fun g c => some (PortfolioGuard.call g c)) PortfolioGuard.ReservesRequired
        { PortfolioGuard.init {} with dummy := 0 }
        [.op (.checkAndReserve (Sample.ethSignal 1 1)), .op (.releaseMargin (Sample.ethSignal 1 1))] :=
  ⟨(fresh_key_starts_from_zero 128 hashKey {} 0).1 _ (by decide +kernel),
    (fresh_key_starts_from_zero 128 hashKey {} 0).2 _ (by decide +kernel)⟩

/-- A reservation of 300 under the key of signal 108 costs 900. -/
theorem not_fresh_key_starts_from_zero :
    (¬ ∀ ops : List TableOp, Always (fun s op => some (FlatHashMap.apply hashKey s op))
      (fun s => StartsFromZero hashKey s.1) ((FlatHashMap.empty : FlatHashMap ℚ 128), 0) ops) ∧
    ¬ ∀ (config : PortfolioConfig) (calls : List PortfolioGuard.Call),
      Always (fun g c => some (PortfolioGuard.call g c)) PortfolioGuard.ReservesRequired (.init config) calls := by
  constructor
  · intro h
    let m : FlatHashMap ℚ 128 × ℚ := Sample.collidingOps.foldl (FlatHashMap.apply hashKey) (.empty, 0)
    have hz : StartsFromZero hashKey m.1 :=
      always_iff.mp (h Sample.collidingOps) _ [] m (List.append_nil _).symm rfl
    obtain ⟨p, hp, hv⟩ := hz (Sample.ethKey 108) (by decide +kernel) (by decide +kernel)
    have hslot : (m.1.getOrInsert hashKey (Sample.ethKey 108).bytes).2 = .slot 118 := by decide +kernel
    rw [hslot, Ref.slot.injEq] at hp
    subst hp
    revert hv
    decide +kernel
  · intro h
    let g : PortfolioGuard := Sample.collidingCalls.foldl PortfolioGuard.call (.init {})
    have hr : g.ReservesRequired :=
      always_iff.mp (h {} Sample.collidingCalls) _ [] g (List.append_nil _).symm rfl
    have he := hr (Sample.ethSignal 108 1) (by decide +kernel) (by decide +kernel) (by decide +kernel)
    revert he
    decide +kernel

end OrderExecution
