import OrderExecution.CString

/-!
# Printing into a `char` array

A buffer of fixed size that is read up to its first NUL. What is behind the NUL
stays from earlier prints.
-/

namespace OrderExecution

/-- A `char[n]` -/
structure Buffer (n : Nat) where
  bytes : Bytes
  size : bytes.length = n

namespace Buffer

variable {n : Nat}

/-- The string in the buffer; `std::strlen` is its length. -/
def cstr (b : Buffer n) : Bytes := b.bytes.takeWhile (· ≠ 0)

def put (b : Buffer n) (i : Nat) (x : UInt8) : Buffer n := ⟨b.bytes.set i x, by rw [List.length_set, b.size]⟩

/-- `snprintf(buf + off, size, ..)` where the arguments are formatted as `s`: at
most `size - 1` bytes of it, and a NUL. -/
def print (b : Buffer n) (off size : Nat) (s : Bytes) (h : off + size ≤ n) : Buffer n where
  bytes := if size = 0 then b.bytes
    else b.bytes.take off ++ (s.take (size - 1) ++ 0 :: b.bytes.drop (off + (s.take (size - 1)).length + 1))
  size := by
    have hb := b.size
    split
    · exact hb
    · simp only [List.length_append, List.length_cons, List.length_take, List.length_drop]
      omega

theorem takeWhile_append_zero {s : Bytes} (h : 0 ∉ s) (rest : Bytes) :
    (s ++ 0 :: rest).takeWhile (· ≠ 0) = s := by
  induction s with
  | nil => simp
  | cons x s ih =>
    rw [List.mem_cons, not_or] at h
    rw [List.cons_append, List.takeWhile_cons_of_pos (by simpa using Ne.symm h.1), ih h.2]

theorem zero_notMem_cstr (b : Buffer n) : 0 ∉ b.cstr := by
  intro h
  simpa using List.mem_takeWhile_imp h

theorem cstr_eq {b : Buffer n} {s : Bytes} (rest : Bytes) (h : b.bytes = s ++ 0 :: rest) (hs : 0 ∉ s) : b.cstr = s := by
  rw [cstr, h, takeWhile_append_zero hs]

theorem bytes_eq_of_lt {b : Buffer n} (h : b.cstr.length < n) : ∃ rest, b.bytes = b.cstr ++ 0 :: rest := by
  have hsplit : b.cstr ++ b.bytes.dropWhile (· ≠ 0) = b.bytes := List.takeWhile_append_dropWhile
  cases hd : b.bytes.dropWhile (· ≠ 0) with
  | nil =>
    have hlen := congrArg List.length hsplit
    rw [hd, List.append_nil, b.size] at hlen
    omega
  | cons x rest =>
    have hx : x = 0 := by
      have hnot := List.head?_dropWhile_not (· ≠ 0) b.bytes
      rw [hd] at hnot
      simpa using hnot
    exact ⟨rest, by rw [← hx, ← hd, hsplit]⟩

theorem take_of_length_cstr (b : Buffer n) : b.bytes.take b.cstr.length = b.cstr :=
  (List.prefix_iff_eq_take.mp (List.takeWhile_prefix _)).symm

/-- A print from an offset on, over bytes that are no NUL. -/
theorem cstr_print {b : Buffer n} {off size : Nat} {s : Bytes} (h : off + size ≤ n) (hpos : size ≠ 0)
    (hoff : 0 ∉ b.bytes.take off) (hs : 0 ∉ s) :
    (b.print off size s h).cstr = b.bytes.take off ++ s.take (size - 1) := by
  refine cstr_eq (b.bytes.drop (off + (s.take (size - 1)).length + 1)) ?_ ?_
  · simp only [print, if_neg hpos, List.append_assoc]
  · intro hmem
    rcases List.mem_append.mp hmem with h₁ | h₂
    · exact hoff h₁
    · exact hs (List.mem_of_mem_take h₂)

/-- A print that goes on where the string ends. -/
theorem cstr_print_end {b : Buffer n} {off size : Nat} {s : Bytes} (h : off + size ≤ n) (hpos : size ≠ 0)
    (hoff : off = b.cstr.length) (hs : 0 ∉ s) : (b.print off size s h).cstr = b.cstr ++ s.take (size - 1) := by
  have htake : b.bytes.take off = b.cstr := by rw [hoff, take_of_length_cstr]
  rw [cstr_print h hpos (by rw [htake]; exact zero_notMem_cstr b) hs, htake]

/-- A print behind the end of the string is not seen. -/
theorem cstr_print_beyond {b : Buffer n} {off size : Nat} {s : Bytes} (h : off + size ≤ n)
    (hoff : b.cstr.length < off) : (b.print off size s h).cstr = b.cstr := by
  by_cases hpos : size = 0
  · simp only [print, if_pos hpos, cstr]
  · obtain ⟨rest, hb⟩ := bytes_eq_of_lt (b := b) (by omega)
    obtain ⟨k, hk⟩ := Nat.exists_eq_add_of_lt hoff
    have htake : b.bytes.take off = b.cstr ++ 0 :: rest.take k := by
      rw [hb, List.take_append, hk, List.take_of_length_le (by omega),
        show b.cstr.length + k + 1 - b.cstr.length = k + 1 by omega, List.take_succ_cons]
    refine cstr_eq (rest.take k ++
      (s.take (size - 1) ++ 0 :: b.bytes.drop (off + (s.take (size - 1)).length + 1))) ?_ (zero_notMem_cstr b)
    simp only [print, if_neg hpos, htake, List.append_assoc, List.cons_append]

/-- One more byte at the end, and a NUL. -/
theorem cstr_put_put {b : Buffer n} {x : UInt8} (hx : x ≠ 0) (h : b.cstr.length + 1 < n) :
    ((b.put b.cstr.length x).put (b.cstr.length + 1) 0).cstr = b.cstr ++ [x] := by
  obtain ⟨rest, hb⟩ := bytes_eq_of_lt (b := b) (by omega)
  cases rest with
  | nil =>
    have hlen := congrArg List.length hb
    rw [b.size, List.length_append, List.length_singleton] at hlen
    omega
  | cons y rest =>
    refine cstr_eq rest ?_ ?_
    · simp only [put]
      rw [hb, List.set_append_right _ _ (Nat.le_refl _), Nat.sub_self, List.set_cons_zero,
        List.set_append_right _ _ (Nat.le_succ _), Nat.succ_sub (Nat.le_refl _), Nat.sub_self, List.set_cons_succ, List.set_cons_zero,
        List.append_assoc, List.singleton_append]
    · intro hmem
      rcases List.mem_append.mp hmem with h₁ | h₂
      · exact zero_notMem_cstr b h₁
      · exact hx (List.mem_singleton.mp h₂).symm

end Buffer

end OrderExecution
