import OrderExecution.CString

/-!
# Order and signal ids

`UuidGenerator` numbers orders and signals by process-wide atomic counters.
Within the first 10^11 numbers an order id fits its 15-byte field, and two
orders have different ids.
-/

namespace OrderExecution

structure UuidGenerator where
  orderCounter : Nat := 1
  signalCounter : Nat := 1
  deriving DecidableEq

def orderIdText (n : Nat) : Bytes := lit "ORD-" ++ zeroFill 6 (decimal n)

def signalIdText (n : Nat) : Bytes := lit "SIG-" ++ zeroFill 6 (decimal n)

namespace UuidGenerator

/-- `UuidGenerator::order_id()`: the text and the counters after `fetch_add`. -/
def orderId (g : UuidGenerator) : Bytes × UuidGenerator :=
  (orderIdText g.orderCounter, { g with orderCounter := (g.orderCounter + 1) % 2 ^ 64 })

def signalId (g : UuidGenerator) : Bytes × UuidGenerator :=
  (signalIdText g.signalCounter, { g with signalCounter := (g.signalCounter + 1) % 2 ^ 64 })

end UuidGenerator

/-- The id that `set_order_id` stores for the counter value `n`. -/
def storedOrderId (n : Nat) : CStr 15 := .copy 15 (orderIdText n)

def storedSignalId (n : Nat) : CStr 15 := .copy 15 (signalIdText n)

theorem numbered_fits {pre : Bytes} (hl : pre.length = 4) (h0 : 0 ∉ pre) {n : Nat} (h : n < 10 ^ 11) :
    Fits 15 (pre ++ zeroFill 6 (decimal n)) := by
  constructor
  · have := digitsOf_length (by omega) h
    simp only [List.length_append, zeroFill_length, decimal, List.length_map, List.length_reverse]
    omega
  · intro hm
    rcases List.mem_append.mp hm with hm | hm
    · exact h0 hm
    · exact zeroFill_decimal_noNul 6 n hm

theorem numbered_inj (pre : Bytes) (hl : pre.length = 4) (h0 : 0 ∉ pre) {m n : Nat} (hm : m < 10 ^ 11)
    (hn : n < 10 ^ 11) (h : CStr.copy 15 (pre ++ zeroFill 6 (decimal m)) =
      CStr.copy 15 (pre ++ zeroFill 6 (decimal n))) : m = n := by
  have := congrArg CStr.bytes h
  rw [CStr.copy_bytes (numbered_fits hl h0 hm), CStr.copy_bytes (numbered_fits hl h0 hn)] at this
  exact zeroFill_decimal_inj (List.append_cancel_left this)

theorem storedOrderId_inj {m n : Nat} (hm : m < 10 ^ 11) (hn : n < 10 ^ 11)
    (h : storedOrderId m = storedOrderId n) : m = n :=
  numbered_inj (lit "ORD-") (by decide) (by decide) hm hn h

theorem storedSignalId_inj {m n : Nat} (hm : m < 10 ^ 11) (hn : n < 10 ^ 11)
    (h : storedSignalId m = storedSignalId n) : m = n :=
  numbered_inj (lit "SIG-") (by decide) (by decide) hm hn h

/-- `id` was drawn before the order counter reached `k`. -/
def DrawnBefore (k : Nat) (id : CStr 15) : Prop := ∃ n < k, id = storedOrderId n

theorem DrawnBefore.mono {j k : Nat} (h : j ≤ k) {id : CStr 15} (hd : DrawnBefore j id) :
    DrawnBefore k id := by
  obtain ⟨n, hn, he⟩ := hd
  exact ⟨n, by omega, he⟩

theorem DrawnBefore.ne_stored {k : Nat} (hk : k < 10 ^ 11) {id : CStr 15} (h : DrawnBefore k id) :
    id ≠ storedOrderId k := by
  obtain ⟨n, hn, rfl⟩ := h
  intro e
  have := storedOrderId_inj (by omega) hk e
  omega

theorem drawnBefore_succ (k : Nat) : DrawnBefore (k + 1) (storedOrderId k) := ⟨k, by omega, rfl⟩

/-- The ids the gateways make: `"EX-" + order_id` and `"HL-" + order_id`. -/
def exIdOf (orderId : CStr 15) : Bytes := lit "EX-" ++ orderId.bytes

def hlIdOf (orderId : CStr 15) : Bytes := lit "HL-" ++ orderId.bytes

theorem exIdOf_inj {a b : CStr 15} (h : exIdOf a = exIdOf b) : a = b :=
  CStr.ext (List.append_cancel_left h)

theorem hlIdOf_inj {a b : CStr 15} (h : hlIdOf a = hlIdOf b) : a = b :=
  CStr.ext (List.append_cancel_left h)

theorem exIdOf_ne_hlIdOf (a b : CStr 15) : exIdOf a ≠ hlIdOf b := by
  intro h
  exact absurd (List.append_inj_left h (by decide)) (by decide)

theorem exIdOf_ne_nil (a : CStr 15) : exIdOf a ≠ [] := by simp [exIdOf, lit]

theorem hlIdOf_ne_nil (a : CStr 15) : hlIdOf a ≠ [] := by simp [hlIdOf, lit]

end OrderExecution
