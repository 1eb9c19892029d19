import Mathlib.Data.Nat.Digits.Lemmas
import Mathlib.Data.List.Infix
import Mathlib.Data.List.TakeWhile
import Mathlib.Data.Rat.Floor

/-!
# C strings

A `char` buffer of `n + 1` bytes holds at most `n` bytes before its NUL.
`CStr n` is the string in such a buffer, `CStr.copy` the idiom
`strncpy(dst, src, n); dst[n] = 0`.
-/

namespace OrderExecution

/-- The bytes of a C string, its NUL left out. -/
abbrev Bytes := List UInt8

/-- The bytes of an ASCII literal. -/
def lit (s : String) : Bytes := s.toList.map fun c => UInt8.ofNat c.toNat

/-- Bytes that fit a buffer of `n + 1` bytes and have no NUL among them. -/
def Fits (n : Nat) (s : Bytes) : Prop := s.length ≤ n ∧ 0 ∉ s

instance (n : Nat) (s : Bytes) : Decidable (Fits n s) := inferInstanceAs (Decidable (_ ∧ _))

/-- The string held by a `char[n + 1]`. -/
structure CStr (n : Nat) where
  bytes : Bytes
  fits : Fits n bytes
  deriving DecidableEq

namespace CStr

variable {n : Nat}

@[ext] theorem ext {a b : CStr n} (h : a.bytes = b.bytes) : a = b := by
  cases a; cases b; cases h; rfl

/-- `std::strncpy(dst, s, n); dst[n] = '\0'` -/
def copy (n : Nat) (s : Bytes) : CStr n where
  bytes := (s.takeWhile (· ≠ 0)).take n
  fits := by
    refine ⟨List.length_take_le .., fun h => ?_⟩
    have := List.mem_takeWhile_imp (List.mem_of_mem_take h)
    simp at this

theorem copy_bytes {s : Bytes} (h : Fits n s) : (copy n s).bytes = s := by
  have : s.takeWhile (· ≠ 0) = s := by
    rw [List.takeWhile_eq_self_iff]
    intro b hb
    have : b ≠ 0 := fun e => h.2 (e ▸ hb)
    simpa using this
  simp only [copy, this, List.take_of_length_le h.1]

@[simp] theorem copy_bytes_self (a : CStr n) : copy n a.bytes = a := ext (copy_bytes a.fits)

/-- The zero-filled buffer. -/
def empty : CStr n := ⟨[], Nat.zero_le _, List.not_mem_nil⟩

instance : Inhabited (CStr n) := ⟨empty⟩

/-- `buf[0] == '\0'` -/
def isEmpty (a : CStr n) : Bool := a.bytes.isEmpty

end CStr

-- named, so that a definition which looks up a key or an id in a list holds no proof of its own
instance : LawfulBEq Bytes := inferInstance

instance : LawfulBEq (CStr 15) := inferInstance

/-! ## Printing numbers -/

/-- A decimal digit as a character. -/
def digitChar (d : Nat) : UInt8 := UInt8.ofNat (48 + d)

/-- The decimal digits of `n`, the least first. -/
def digitsOf (n : Nat) : List Nat := if n = 0 then [0] else Nat.digits 10 n

/-- `%llu` -/
def decimal (n : Nat) : Bytes := (digitsOf n).reverse.map digitChar

/-- `%lld` -/
def decimalInt (z : Int) : Bytes := if z < 0 then lit "-" ++ decimal z.natAbs else decimal z.natAbs

/-- `std::setw(w) << std::setfill('0')` -/
def zeroFill (w : Nat) (s : Bytes) : Bytes := List.replicate (w - s.length) (digitChar 0) ++ s

/-- The integer nearest to `q`, halves to even. -/
def roundEven (q : ℚ) : Int :=
  let r := q - q.floor
  if r < 1 / 2 then q.floor else if 1 / 2 < r then q.floor + 1
  else if q.floor % 2 = 0 then q.floor else q.floor + 1

/-- `%.0f` -/
def fixed0 (q : ℚ) : Bytes :=
  if q < 0 then lit "-" ++ decimal (roundEven (-q)).natAbs else decimal (roundEven q).natAbs

theorem digitsOf_lt {n d : Nat} (h : d ∈ digitsOf n) : d < 10 := by
  unfold digitsOf at h
  split at h
  · simp at h; omega
  · exact Nat.digits_lt_base (by omega) h

theorem ofDigits_digitsOf (n : Nat) : Nat.ofDigits 10 (digitsOf n) = n := by
  unfold digitsOf
  split
  · next h => simp [h]
  · exact Nat.ofDigits_digits 10 n

theorem digitsOf_length {n w : Nat} (hw : 0 < w) (h : n < 10 ^ w) : (digitsOf n).length ≤ w := by
  unfold digitsOf
  split
  · exact hw
  · exact (Nat.digits_length_le_iff (by omega) n).mpr h

theorem digitChar_inj {a b : Nat} (ha : a < 10) (hb : b < 10) (h : digitChar a = digitChar b) :
    a = b := by
  unfold digitChar at h
  have := congrArg UInt8.toNat h
  simp only [UInt8.toNat_ofNat'] at this
  omega

theorem digitChar_ne_zero {d : Nat} (h : d < 10) : digitChar d ≠ 0 := by
  intro e
  have := congrArg UInt8.toNat e
  simp only [digitChar, UInt8.toNat_ofNat', UInt8.toNat_zero] at this
  omega

theorem map_digitChar_inj : ∀ {l₁ l₂ : List Nat}, (∀ d ∈ l₁, d < 10) → (∀ d ∈ l₂, d < 10) →
    l₁.map digitChar = l₂.map digitChar → l₁ = l₂
  | [], [], _, _, _ => rfl
  | [], _ :: _, _, _, h => by simp at h
  | _ :: _, [], _, _, h => by simp at h
  | a :: l₁, b :: l₂, h₁, h₂, h => by
    simp only [List.map_cons, List.cons.injEq] at h
    rw [digitChar_inj (h₁ a (by simp)) (h₂ b (by simp)) h.1,
      map_digitChar_inj (fun d hd => h₁ d (by simp [hd])) (fun d hd => h₂ d (by simp [hd])) h.2]

theorem zeroFill_decimal_inj {w m n : Nat} (h : zeroFill w (decimal m) = zeroFill w (decimal n)) :
    m = n := by
  have key : ∀ k, zeroFill w (decimal k) =
      (List.replicate (w - (decimal k).length) 0 ++ (digitsOf k).reverse).map digitChar := by
    intro k; simp [zeroFill, decimal]
  rw [key, key] at h
  have hlt : ∀ k, ∀ d ∈ List.replicate (w - (decimal k).length) 0 ++ (digitsOf k).reverse, d < 10 := by
    intro k d hd
    rcases List.mem_append.mp hd with hd | hd
    · rw [(List.mem_replicate.mp hd).2]; omega
    · exact digitsOf_lt (List.mem_reverse.mp hd)
  have hl := congrArg (fun l => Nat.ofDigits 10 l.reverse) (map_digitChar_inj (hlt m) (hlt n) h)
  simpa [Nat.ofDigits_append_replicate_zero, ofDigits_digitsOf] using hl

theorem zeroFill_decimal_noNul (w n : Nat) : 0 ∉ zeroFill w (decimal n) := by
  intro h
  simp only [zeroFill, decimal, List.mem_append, List.mem_replicate, List.mem_map, List.mem_reverse] at h
  rcases h with ⟨-, h⟩ | ⟨d, hd, h⟩
  · exact digitChar_ne_zero (by omega) h.symm
  · exact digitChar_ne_zero (digitsOf_lt hd) h

theorem zeroFill_length (w : Nat) (s : Bytes) : (zeroFill w s).length = max w s.length := by
  simp only [zeroFill, List.length_append, List.length_replicate]
  omega

end OrderExecution
