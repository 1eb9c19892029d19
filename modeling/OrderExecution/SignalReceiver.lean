import OrderExecution.Model

/-!
# `SignalReceiver`

What a signal has to have before an order is made of it: an id, a symbol, a
quantity, the fields of an option if it is one, and a timestamp that is not too
old for its source.
-/

namespace OrderExecution

/-- `SignalReceiver::Config` -/
structure SignalConfig where
  backtestFreshnessMs : Int := 5000
  directFreshnessMs : Int := 200
  deriving DecidableEq

structure ValidationResult where
  valid : Bool := false
  reason : CStr 127 := .empty
  deriving DecidableEq

namespace SignalReceiver

def refuse (reason : Bytes) : ValidationResult := { reason := .copy 127 reason }

@[simp] theorem valid_refuse (reason : Bytes) : (refuse reason).valid = false := rfl

/-- `(receive_ns - signal.timestamp_ns) / 1000000`: the subtraction is one of
`int64_t`, read as two's complement, and the division rounds toward zero. -/
def ageMs (s : Signal) (receiveNs : Int) : Int := ((receiveNs - s.timestampNs).bmod (2 ^ 64)).tdiv 1000000

def thresholdMs (config : SignalConfig) (s : Signal) : Int :=
  if s.signalSource = .DIRECT then config.directFreshnessMs else config.backtestFreshnessMs

def staleReason (config : SignalConfig) (s : Signal) (receiveNs : Int) : Bytes :=
  lit "stale_signal: age " ++ decimalInt (ageMs s receiveNs) ++ lit "ms exceeds " ++ s.signalSource.text ++
    lit " threshold " ++ decimalInt (thresholdMs config s) ++ lit "ms"

def validate (config : SignalConfig) (s : Signal) (receiveNs : Int) : ValidationResult :=
  if s.signalId.isEmpty then refuse (lit "missing_field: signal_id")
  else if s.symbol.isEmpty then refuse (lit "missing_field: symbol")
  else if s.quantity ≤ 0 then refuse (lit "invalid_field: quantity must be > 0")
  else if s.instrumentType = .OPTIONS ∧ !s.hasStrikePrice then
    refuse (lit "missing_field: strike_price required for OPTIONS")
  else if s.instrumentType = .OPTIONS ∧ !s.hasExpiry then
    refuse (lit "missing_field: expiry required for OPTIONS")
  else if s.instrumentType = .OPTIONS ∧ !s.hasOptionType then
    refuse (lit "missing_field: option_type required for OPTIONS")
  else if ageMs s receiveNs > thresholdMs config s then refuse (staleReason config s receiveNs)
  else { valid := true }

/-- A signal that is let through. -/
structure Accepted (config : SignalConfig) (s : Signal) (receiveNs : Int) : Prop where
  signalId : s.signalId.isEmpty = false
  symbol : s.symbol.isEmpty = false
  quantity : 0 < s.quantity
  option : s.instrumentType = .OPTIONS → s.hasStrikePrice = true ∧ s.hasExpiry = true ∧ s.hasOptionType = true
  fresh : ageMs s receiveNs ≤ thresholdMs config s

theorem validate_valid_iff {config : SignalConfig} {s : Signal} {receiveNs : Int} :
    (validate config s receiveNs).valid = true ↔ Accepted config s receiveNs := by
  constructor
  · intro h
    unfold validate at h
    split_ifs at h with h₁ h₂ h₃ h₄ h₅ h₆ h₇
    all_goals simp only [valid_refuse, Bool.false_eq_true] at h
    · refine ⟨by simpa using h₁, by simpa using h₂, not_le.mp h₃, fun ho => ?_, not_lt.mp h₇⟩
      simp only [ho, true_and, Bool.not_eq_true', Bool.not_eq_false] at h₄ h₅ h₆
      exact ⟨h₄, h₅, h₆⟩
  · intro h
    unfold validate
    rw [if_neg (by simp [h.signalId]), if_neg (by simp [h.symbol]), if_neg (not_le.mpr h.quantity),
      if_neg (fun ho => by simp [(h.option ho.1).1] at ho), if_neg (fun ho => by simp [(h.option ho.1).2.1] at ho),
      if_neg (fun ho => by simp [(h.option ho.1).2.2] at ho), if_neg (not_lt.mpr h.fresh)]

end SignalReceiver

end OrderExecution
