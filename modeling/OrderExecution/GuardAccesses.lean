import OrderExecution.CriticalSections
import OrderExecution.FreshKeys

/-!
# The accesses of `PortfolioGuard`

What the functions of the guard do between the lock and the unlock of `mutex_`,
one slot of a table at a time. Run alone, each does what the function does.
-/

namespace OrderExecution

namespace FlatHashMap

variable {V : Type} [Zero V] {CAP : Nat}

/-- The loop that `find`, `get_or_insert` and `erase` share. -/
def probeAccesses (key : Bytes) (idx i : Nat) : Nat → Accesses (FlatHashMap V CAP × V) Probe
  | 0 => pure .full
  | r + 1 => do
    let pos := (idx + i) % CAP
    let s ← .read fun d => d.1.slot pos
    if !s.occupied then pure (.free pos)
    else if s.key.bytes = key then pure (.found pos)
    else probeAccesses key idx (i + 1) r

theorem run_probeAccesses (key : Bytes) (idx i r : Nat) (d : FlatHashMap V CAP × V) :
    (probeAccesses key idx i r).run d = (d, d.1.probeFrom key idx i r) := by
  induction r generalizing i with
  | zero => rfl
  | succ r ih =>
    simp only [probeAccesses, probeFrom, Accesses.run_read_bind]
    by_cases ho : (!(d.1.slot ((idx + i) % CAP)).occupied) = true
    · rw [if_pos ho, if_pos ho]; rfl
    · rw [if_neg ho, if_neg ho]
      by_cases hk : (d.1.slot ((idx + i) % CAP)).key.bytes = key
      · rw [if_pos hk, if_pos hk]; rfl
      · rw [if_neg hk, if_neg hk]
        exact ih (i + 1)

/-- `slots_[pos] = s`, or a part of it -/
def writeSlot (pos : Nat) (f : Slot V → Slot V) : Accesses (FlatHashMap V CAP × V) Unit :=
  .write fun d => (d.1.setSlot pos (f (d.1.slot pos)), d.2)

def writeSize (f : Nat → Nat) : Accesses (FlatHashMap V CAP × V) Unit :=
  .write fun d => ({ d.1 with size := f d.1.size }, d.2)

section
variable (hash : Bytes → Nat)

def findAccesses (key : Bytes) : Accesses (FlatHashMap V CAP × V) (Option V) := do
  match ← probeAccesses key (hash key % CAP) 0 CAP with
  | .found pos => .read fun d => some (d.1.slot pos).value
  | _ => pure none

def getOrInsertAccesses (key : Bytes) : Accesses (FlatHashMap V CAP × V) Ref := do
  match ← probeAccesses key (hash key % CAP) 0 CAP with
  | .free pos =>
    writeSlot pos fun s => { s with key := .copy 31 key, occupied := true }
    writeSize (· + 1)
    pure (.slot pos)
  | .found pos => pure (.slot pos)
  | .full => pure .dummy

def updateAccesses (key : Bytes) (f : V → V) : Accesses (FlatHashMap V CAP × V) Unit := do
  match ← getOrInsertAccesses hash key with
  | .slot pos => writeSlot pos fun s => { s with value := f s.value }
  | .dummy => .write fun d => (d.1, f d.2)

/-- The loop of `erase` that re-inserts the entries behind the vacated slot. -/
def rehashAccesses : Nat → Nat → Accesses (FlatHashMap V CAP × V) Unit
  | 0, _ => pure ()
  | fuel + 1, next => do
    let s ← .read fun d => d.1.slot next
    if s.occupied then
      writeSlot next fun s => { s with key := .empty, occupied := false }
      writeSize (· - 1)
      updateAccesses hash s.key.bytes fun _ => s.value
      rehashAccesses fuel ((next + 1) % CAP)
    else pure ()

def eraseAccesses (key : Bytes) : Accesses (FlatHashMap V CAP × V) Bool := do
  match ← probeAccesses key (hash key % CAP) 0 CAP with
  | .found pos =>
    writeSlot pos fun _ => ⟨.empty, 0, false⟩
    writeSize (· - 1)
    rehashAccesses hash (rehashFuel CAP) ((pos + 1) % CAP)
    pure true
  | _ => pure false

variable {hash}

theorem run_findAccesses (key : Bytes) (d : FlatHashMap V CAP × V) :
    (findAccesses hash key).run d = (d, d.1.find hash key) := by
  simp only [findAccesses, find, probe, Accesses.run_bind, run_probeAccesses]
  cases d.1.probeFrom key (hash key % CAP) 0 CAP <;> rfl

theorem run_getOrInsertAccesses (key : Bytes) (d : FlatHashMap V CAP × V) :
    (getOrInsertAccesses hash key).run d = (((d.1.getOrInsert hash key).1, d.2), (d.1.getOrInsert hash key).2) := by
  simp only [getOrInsertAccesses, getOrInsert, probe, Accesses.run_bind, run_probeAccesses]
  cases d.1.probeFrom key (hash key % CAP) 0 CAP <;> rfl

theorem run_updateAccesses (key : Bytes) (f : V → V) (d : FlatHashMap V CAP × V) :
    (updateAccesses hash key f).run d = (d.1.update hash d.2 key f, ()) := by
  simp only [updateAccesses, update, Accesses.run_bind, run_getOrInsertAccesses]
  generalize d.1.getOrInsert hash key = r
  obtain ⟨m, pos | _⟩ := r <;> rfl

/-- In a table with a free slot nothing is written to `dummy`. -/
theorem update_of_free {m : FlatHashMap V CAP} {x : Nat} (hx : x < CAP) (hfree : m.cell x = none) (dummy dummy' : V)
    (key : Bytes) (f : V → V) : m.update hash dummy key f = ((m.update hash dummy' key f).1, dummy) := by
  have hs := probe_stops hash (by omega) m key
  cases hpr : m.probe hash key with
  | full =>
    rw [hpr] at hs
    obtain ⟨k', hk', -⟩ := hs x hx
    rw [hfree] at hk'
    cases hk'
  | free p =>
    rw [hpr] at hs
    rw [update_free hash hs.1 hpr, update_free hash hs.1 hpr]
  | found p => rw [update_found hash hpr, update_found hash hpr]

theorem run_rehashAccesses (fuel next : Nat) (hn : next < CAP) (d : FlatHashMap V CAP × V) :
    (rehashAccesses hash fuel next).run d = ((d.1.rehash hash fuel next, d.2), ()) := by
  induction fuel generalizing next d with
  | zero => rfl
  | succ fuel ih =>
    simp only [rehashAccesses, rehash, Accesses.run_read_bind]
    by_cases ho : (d.1.slot next).occupied = true
    · rw [if_pos ho, if_pos ho]
      simp only [writeSlot, writeSize, Accesses.run_bind, Accesses.run_write, run_updateAccesses]
      rw [ih _ (Nat.mod_lt _ (by omega)), update_of_free hn _ d.2 (d.1.slot next).value]
      · rfl
      · simp only [cell_size, cell_setSlot hn, Function.update_self]
        rfl
    · rw [if_neg ho, if_neg ho]; rfl

theorem run_eraseAccesses (key : Bytes) (d : FlatHashMap V CAP × V) :
    (eraseAccesses hash key).run d = (((d.1.erase hash key).1, d.2), (d.1.erase hash key).2) := by
  simp only [eraseAccesses, erase, probe, Accesses.run_bind, run_probeAccesses]
  cases hp : d.1.probeFrom key (hash key % CAP) 0 CAP with
  | free pos => rfl
  | full => rfl
  | found pos =>
    simp only [writeSlot, writeSize, Accesses.run_bind, Accesses.run_write]
    rw [run_rehashAccesses]
    · rfl
    · exact Nat.mod_lt _ (by
        rcases Nat.eq_zero_or_pos CAP with h | h
        · subst h; cases hp
        · exact h)

end

/-- `for_each` with the callback `acc += v`, from slot `i` on with `r` slots to go. -/
def totalAccesses : Nat → Nat → ℚ → Accesses (FlatHashMap ℚ CAP × ℚ) ℚ
  | 0, _, acc => pure acc
  | r + 1, i, acc => do
    let s ← .read fun d => d.1.slot i
    totalAccesses r (i + 1) (if s.occupied then acc + s.value else acc)

theorem run_totalAccesses {r i : Nat} (hi : i + r = CAP) (acc : ℚ) (d : FlatHashMap ℚ CAP × ℚ) :
    (totalAccesses r i acc).run d =
      (d, ((d.1.slots.toList.drop i).filterMap entryOf).foldl (fun acc e => acc + e.2) acc) := by
  induction r generalizing i acc with
  | zero =>
    rw [List.drop_eq_nil_of_le (by simp; omega)]
    rfl
  | succ r ih =>
    have hlt : i < d.1.slots.toList.length := by simp; omega
    have hslot : d.1.slots.toList[i] = d.1.slot i := by simp [slot, show i < CAP by omega]
    simp only [totalAccesses, Accesses.run_read_bind]
    rw [ih (by omega), List.drop_eq_getElem_cons hlt, List.filterMap_cons, hslot]
    by_cases ho : (d.1.slot i).occupied = true
    · simp [entryOf, ho]
    · simp [entryOf, ho]

/-- The loop of `clear()`, from slot `i` on with `r` slots to go. -/
def clearAccesses : Nat → Nat → Accesses (FlatHashMap V CAP × V) Unit
  | 0, _ => writeSize fun _ => 0
  | r + 1, i => do
    writeSlot i fun s => { s with occupied := false, value := 0, key := .empty }
    clearAccesses r (i + 1)

theorem run_clearAccesses {r i : Nat} (hi : i + r = CAP) (d : FlatHashMap V CAP × V) :
    (clearAccesses r i).run d =
      ((⟨Vector.ofFn fun j => if i ≤ j.val then freshSlot else d.1.slots[j], 0⟩, d.2), ()) := by
  induction r generalizing i d with
  | zero =>
    have hslots : (Vector.ofFn fun j : Fin CAP => if i ≤ j.val then freshSlot else d.1.slots[j]) = d.1.slots := by
      ext1 j hj
      simp [show ¬ i ≤ j by omega]
    rw [hslots]
    rfl
  | succ r ih =>
    simp only [clearAccesses, writeSlot, Accesses.run_write_bind]
    rw [ih (by omega)]
    congr 4
    funext j
    by_cases hij : i = j.val
    · simp [hij, setSlot, freshSlot]
    · simp only [setSlot, Vector.getElem_setIfInBounds, Fin.getElem_fin, if_neg hij]
      by_cases hle : i ≤ j.val
      · rw [if_pos (by omega), if_pos hle]
      · rw [if_neg (by omega), if_neg hle]

theorem run_clear (d : FlatHashMap V CAP × V) : (clearAccesses CAP 0).run d = ((d.1.clear, d.2), ()) := by
  rw [run_clearAccesses (Nat.zero_add CAP), clear]
  congr 3
  ext1 j hj
  simp [freshSlot]

end FlatHashMap

namespace PortfolioGuard

section
variable {α : Type}

/-- A program on `state_.margin_reserved`. -/
def onReserved : Accesses (Table × ℚ) α → Accesses PortfolioGuard α :=
  .zoom (fun g => (g.state.marginReserved, g.dummy))
    fun g d => { g with state := { g.state with marginReserved := d.1 }, dummy := d.2 }

def onUsed : Accesses (Table × ℚ) α → Accesses PortfolioGuard α :=
  .zoom (fun g => (g.state.marginUsed, g.dummy))
    fun g d => { g with state := { g.state with marginUsed := d.1 }, dummy := d.2 }

def onPositions : Accesses (Table × ℚ) α → Accesses PortfolioGuard α :=
  .zoom (fun g => (g.state.positions, g.dummy))
    fun g d => { g with state := { g.state with positions := d.1 }, dummy := d.2 }

theorem run_onReserved (p : Accesses (Table × ℚ) α) (g : PortfolioGuard) :
    (onReserved p).run g =
      ({ g with state := { g.state with marginReserved := (p.run (g.state.marginReserved, g.dummy)).1.1 },
                dummy := (p.run (g.state.marginReserved, g.dummy)).1.2 },
        (p.run (g.state.marginReserved, g.dummy)).2) := by
  unfold onReserved
  rw [Accesses.run_zoom]
  · intro g d; rfl
  · intro g d d'; rfl
  · intro g; rfl

theorem run_onUsed (p : Accesses (Table × ℚ) α) (g : PortfolioGuard) :
    (onUsed p).run g =
      ({ g with state := { g.state with marginUsed := (p.run (g.state.marginUsed, g.dummy)).1.1 },
                dummy := (p.run (g.state.marginUsed, g.dummy)).1.2 },
        (p.run (g.state.marginUsed, g.dummy)).2) := by
  unfold onUsed
  rw [Accesses.run_zoom]
  · intro g d; rfl
  · intro g d d'; rfl
  · intro g; rfl

theorem run_onPositions (p : Accesses (Table × ℚ) α) (g : PortfolioGuard) :
    (onPositions p).run g =
      ({ g with state := { g.state with positions := (p.run (g.state.positions, g.dummy)).1.1 },
                dummy := (p.run (g.state.positions, g.dummy)).1.2 },
        (p.run (g.state.positions, g.dummy)).2) := by
  unfold onPositions
  rw [Accesses.run_zoom]
  · intro g d; rfl
  · intro g d d'; rfl
  · intro g; rfl

end

def availableMarginAccesses : Accesses PortfolioGuard ℚ := do
  let reserved ← onReserved (FlatHashMap.totalAccesses 128 0 0)
  let used ← onUsed (FlatHashMap.totalAccesses 128 0 0)
  let cash ← .read fun g => g.state.cash
  pure (cash - reserved - used)

/-- `state_.margin_reserved[key] += amount` -/
def reserveAccesses (s : Signal) (amount : ℚ) : Accesses PortfolioGuard Unit :=
  onReserved (FlatHashMap.updateAccesses hashKey (marginKey s) (· + amount))

def checkAndReserveAccesses (s : Signal) : Accesses PortfolioGuard MarginResult := do
  let required ← .read fun g => g.calcRequiredMargin s
  let available ← availableMarginAccesses
  if required > available then
    pure { reason := .copy 127 (lit "insufficient_margin: required " ++ fixed0 required ++
             lit ", available " ++ fixed0 available),
           requiredMargin := required }
  else
    reserveAccesses s required
    pure { approved := true, requiredMargin := required }

def checkAndReservePairAccesses (cex dex : Signal) : Accesses PortfolioGuard MarginResult := do
  let cexMargin ← .read fun g => g.calcRequiredMargin cex
  let dexMargin ← .read fun g => g.calcRequiredMargin dex
  let total := cexMargin + dexMargin
  let available ← availableMarginAccesses
  if total > available then
    pure { reason := .copy 127 (lit "insufficient_margin: required " ++ fixed0 total ++ lit " (CEX=" ++
             fixed0 cexMargin ++ lit " + DEX=" ++ fixed0 dexMargin ++ lit "), available " ++
             fixed0 available),
           requiredMargin := total }
  else
    reserveAccesses cex cexMargin
    reserveAccesses dex dexMargin
    pure { approved := true, requiredMargin := total }

def onFillAccesses (s : Signal) (fillPrice fillQty : ℚ) : Accesses PortfolioGuard Unit := do
  let _ ← onReserved (FlatHashMap.findAccesses hashKey (marginKey s))
  let _ ← onReserved (FlatHashMap.eraseAccesses hashKey (marginKey s))
  let usedMargin ← .read fun g => g.usedMargin s fillPrice fillQty
  onUsed (FlatHashMap.updateAccesses hashKey (marginKey s) fun _ => usedMargin)
  let delta := fillQty * s.side.sign
  onPositions (FlatHashMap.updateAccesses hashKey s.symbol.bytes (· + delta))

def releaseMarginAccesses (s : Signal) : Accesses PortfolioGuard Unit := do
  match ← onReserved (FlatHashMap.findAccesses hashKey (marginKey s)) with
  | some _ => let _ ← onReserved (FlatHashMap.eraseAccesses hashKey (marginKey s))
  | none => pure ()

def resetAccesses : Accesses PortfolioGuard Unit := do
  .write fun g => { g with state := { g.state with cash := g.config.initialCash } }
  onPositions (FlatHashMap.clearAccesses 128 0)
  onUsed (FlatHashMap.clearAccesses 128 0)
  onReserved (FlatHashMap.clearAccesses 128 0)

theorem run_availableMarginAccesses (g : PortfolioGuard) :
    availableMarginAccesses.run g = (g, g.state.availableMargin) := by
  simp only [availableMarginAccesses, Accesses.run_bind, run_onReserved, run_onUsed,
    FlatHashMap.run_totalAccesses, Accesses.run_read, Accesses.run_pure]
  rfl

theorem run_reserveAccesses (s : Signal) (amount : ℚ) (g : PortfolioGuard) :
    (reserveAccesses s amount).run g = (g.reserve s amount, ()) := by
  rw [reserveAccesses, run_onReserved, FlatHashMap.run_updateAccesses]
  rfl

theorem run_checkAndReserveAccesses (s : Signal) (g : PortfolioGuard) :
    (checkAndReserveAccesses s).run g = g.checkAndReserve s := by
  simp only [checkAndReserveAccesses, Accesses.run_read_bind, checkAndReserve]
  rw [Accesses.run_bind, run_availableMarginAccesses]
  by_cases h : g.calcRequiredMargin s > g.state.availableMargin
  · rw [if_pos h, if_pos h]; rfl
  · rw [if_neg h, if_neg h, Accesses.run_bind, run_reserveAccesses]; rfl

theorem run_checkAndReservePairAccesses (cex dex : Signal) (g : PortfolioGuard) :
    (checkAndReservePairAccesses cex dex).run g = g.checkAndReservePair cex dex := by
  simp only [checkAndReservePairAccesses, Accesses.run_read_bind, checkAndReservePair]
  rw [Accesses.run_bind, run_availableMarginAccesses]
  by_cases h : g.calcRequiredMargin cex + g.calcRequiredMargin dex > g.state.availableMargin
  · rw [if_pos h, if_pos h]; rfl
  · rw [if_neg h, if_neg h, Accesses.run_bind, run_reserveAccesses, Accesses.run_bind, run_reserveAccesses]; rfl

theorem run_onFillAccesses (s : Signal) (fillPrice fillQty : ℚ) (g : PortfolioGuard) :
    (onFillAccesses s fillPrice fillQty).run g = (g.onFill s fillPrice fillQty, ()) := by
  simp only [onFillAccesses, Accesses.run_bind, run_onReserved, run_onUsed, run_onPositions, Accesses.run_read,
    FlatHashMap.run_findAccesses, FlatHashMap.run_eraseAccesses, FlatHashMap.run_updateAccesses]
  rfl

theorem run_releaseMarginAccesses (s : Signal) (g : PortfolioGuard) :
    (releaseMarginAccesses s).run g = (g.releaseMargin s, ()) := by
  simp only [releaseMarginAccesses, releaseMargin, Accesses.run_bind, run_onReserved, FlatHashMap.run_findAccesses]
  cases g.state.marginReserved.find hashKey (marginKey s) with
  | none => rfl
  | some v =>
    simp only [Accesses.run_bind, run_onReserved, FlatHashMap.run_eraseAccesses]
    rfl

theorem run_resetAccesses (g : PortfolioGuard) : resetAccesses.run g = (g.reset, ()) := by
  simp only [resetAccesses, Accesses.run_bind, run_onReserved, run_onUsed, run_onPositions,
    FlatHashMap.run_clear]
  rfl

/-- The result that a call returns, if it returns one. -/
def answer (g : PortfolioGuard) : Call → Option MarginResult
  | .op (.checkAndReserve s) => some (g.checkAndReserve s).2
  | .op (.checkAndReservePair cex dex) => some (g.checkAndReservePair cex dex).2
  | _ => none

/-- A call in one step, with its result. -/
def answered (g : PortfolioGuard) (c : Call) : PortfolioGuard × Option MarginResult := (g.call c, g.answer c)

/-- What a call does between the lock and the unlock. -/
def Call.accesses : Call → Accesses PortfolioGuard (Option MarginResult)
  | .op (.checkAndReserve s) => do let r ← checkAndReserveAccesses s; pure (some r)
  | .op (.checkAndReservePair cex dex) => do let r ← checkAndReservePairAccesses cex dex; pure (some r)
  | .op (.onFill s fillPrice fillQty) => do onFillAccesses s fillPrice fillQty; pure none
  | .op (.releaseMargin s) => do releaseMarginAccesses s; pure none
  | .reset => do resetAccesses; pure none

theorem Call.run_accesses (c : Call) (g : PortfolioGuard) : c.accesses.run g = g.answered c := by
  cases c with
  | reset => rw [accesses, Accesses.run_bind, run_resetAccesses]; rfl
  | op op =>
    cases op with
    | checkAndReserve s => rw [accesses, Accesses.run_bind, run_checkAndReserveAccesses]; rfl
    | checkAndReservePair cex dex => rw [accesses, Accesses.run_bind, run_checkAndReservePairAccesses]; rfl
    | onFill s fillPrice fillQty => rw [accesses, Accesses.run_bind, run_onFillAccesses]; rfl
    | releaseMargin s => rw [accesses, Accesses.run_bind, run_releaseMarginAccesses]; rfl

end PortfolioGuard

end OrderExecution
