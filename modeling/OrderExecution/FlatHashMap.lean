import OrderExecution.CString

/-!
# `FlatHashMap`

An array of `CAP` slots probed linearly from the hash of the key. Keys are C
strings, stored in 32-byte buffers. A slot that is vacated keeps its stale
value when its entry was moved, since `std::move` of a `double` is a copy.
-/

namespace OrderExecution

structure Slot (V : Type) where
  key : CStr 31
  value : V
  occupied : Bool

structure FlatHashMap (V : Type) (CAP : Nat) where
  slots : Vector (Slot V) CAP
  size : Nat

/-- FNV-1a over 64 bits; a `char` is signed, so a byte from 128 on is
sign-extended. The reduction modulo `CAP` is left to the probe. -/
def hashKey (key : Bytes) : Nat :=
  key.foldl (fun h c =>
    ((h ^^^ (if c.toNat < 128 then c.toNat else 2 ^ 64 - 256 + c.toNat)) * 1099511628211) % 2 ^ 64)
    14695981039346656037

namespace FlatHashMap

variable {V : Type} [Zero V] {CAP : Nat}

/-- `Slot{}` -/
def freshSlot : Slot V := ⟨.empty, 0, false⟩

def empty : FlatHashMap V CAP := ⟨Vector.replicate CAP freshSlot, 0⟩

def slot (m : FlatHashMap V CAP) (i : Nat) : Slot V := m.slots[i]?.getD freshSlot

def setSlot (m : FlatHashMap V CAP) (i : Nat) (s : Slot V) : FlatHashMap V CAP :=
  { m with slots := m.slots.setIfInBounds i s }

/-- Where the probing loop `for (i = 0; i < CAP; ++i)` stops. -/
inductive Probe where
  | free (pos : Nat)
  | found (pos : Nat)
  | full
  deriving DecidableEq

/-- The loop that `find`, `get_or_insert` and `erase` share, from the `i`-th
slot on, with `r` slots to go. -/
def probeFrom (m : FlatHashMap V CAP) (key : Bytes) (idx i : Nat) : Nat → Probe
  | 0 => .full
  | r + 1 =>
    let pos := (idx + i) % CAP
    if !(m.slot pos).occupied then .free pos
    else if (m.slot pos).key.bytes = key then .found pos
    else probeFrom m key idx (i + 1) r

section
variable (hash : Bytes → Nat)

def probe (m : FlatHashMap V CAP) (key : Bytes) : Probe := m.probeFrom key (hash key % CAP) 0 CAP

def find (m : FlatHashMap V CAP) (key : Bytes) : Option V :=
  match m.probe hash key with
  | .found pos => some (m.slot pos).value
  | _ => none

/-- The reference that `get_or_insert` returns: a slot, or the static `dummy`. -/
inductive Ref where
  | slot (pos : Nat)
  | dummy
  deriving DecidableEq

def getOrInsert (m : FlatHashMap V CAP) (key : Bytes) : FlatHashMap V CAP × Ref :=
  match m.probe hash key with
  | .free pos =>
    let m' := m.setSlot pos { m.slot pos with key := .copy 31 key, occupied := true }
    ({ m' with size := m.size + 1 }, .slot pos)
  | .found pos => (m, .slot pos)
  | .full => (m, .dummy)

/-- `f` applied through the reference `operator[]` returns: `m[key] = v` and
`m[key] += x`. The table and the static `dummy` after it. -/
def update (m : FlatHashMap V CAP) (dummy : V) (key : Bytes) (f : V → V) : FlatHashMap V CAP × V :=
  match m.getOrInsert hash key with
  | (m', .slot pos) => (m'.setSlot pos { m'.slot pos with value := f (m'.slot pos).value }, dummy)
  | (m', .dummy) => (m', f dummy)

/-- The loop of `erase` that re-inserts the entries behind the vacated slot.
The fuel is enough for every table: each round either moves an entry nearer
its home or comes one slot nearer a free one. -/
def rehash : Nat → FlatHashMap V CAP → Nat → FlatHashMap V CAP
  | 0, m, _ => m
  | fuel + 1, m, next =>
    let s := m.slot next
    if s.occupied then
      let vacated := { m.setSlot next { s with key := .empty, occupied := false } with size := m.size - 1 }
      rehash fuel (vacated.update hash s.value s.key.bytes fun _ => s.value).1 ((next + 1) % CAP)
    else m

def rehashFuel (CAP : Nat) : Nat := CAP * CAP * CAP + CAP

def erase (m : FlatHashMap V CAP) (key : Bytes) : FlatHashMap V CAP × Bool :=
  match m.probe hash key with
  | .found pos =>
    let m' := { m.setSlot pos ⟨.empty, 0, false⟩ with size := m.size - 1 }
    (m'.rehash hash (rehashFuel CAP) ((pos + 1) % CAP), true)
  | _ => (m, false)

end

/-- The entry of a slot, if it is occupied. -/
def entryOf (s : Slot V) : Option (Bytes × V) :=
  if s.occupied then some (s.key.bytes, s.value) else none

/-- The pairs that `for_each` visits, in its order. -/
def entries (m : FlatHashMap V CAP) : List (Bytes × V) := m.slots.toList.filterMap entryOf

/-- `for_each` with the callback `acc += v`. -/
def total (m : FlatHashMap ℚ CAP) : ℚ := m.entries.foldl (fun acc e => acc + e.2) 0

/-- `clear()` -/
def clear (m : FlatHashMap V CAP) : FlatHashMap V CAP :=
  ⟨m.slots.map fun s => { s with occupied := false, value := 0, key := .empty }, 0⟩

end FlatHashMap

end OrderExecution
