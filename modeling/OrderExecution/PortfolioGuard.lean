import OrderExecution.FlatHashMap
import OrderExecution.Model

/-!
# `PortfolioGuard`

Reserves margin before an order is sent, and turns it into used margin and a
position when the order fills. Every function is one critical section.
-/

namespace OrderExecution

abbrev Table := FlatHashMap ℚ 128

structure PortfolioState where
  cash : ℚ := 100000
  positions : Table := .empty
  marginUsed : Table := .empty
  marginReserved : Table := .empty

def PortfolioState.availableMargin (s : PortfolioState) : ℚ :=
  s.cash - s.marginReserved.total - s.marginUsed.total

structure PortfolioConfig where
  maxLeverage : ℚ := 10
  initialCash : ℚ := 100000
  deriving DecidableEq

structure MarginResult where
  approved : Bool := false
  reason : CStr 127 := .empty
  requiredMargin : ℚ := 0
  deriving DecidableEq

/-- `std::snprintf(key, sizeof(key), "%s:%s", symbol, signal_id)`; 48 bytes are
room enough. -/
def marginKey (s : Signal) : Bytes := s.symbol.bytes ++ lit ":" ++ s.signalId.bytes

theorem marginKey_fits (s : Signal) : Fits 31 (marginKey s) := by
  constructor
  · have h₁ := s.symbol.fits.1
    have h₂ := s.signalId.fits.1
    have h₃ : (lit ":").length = 1 := by decide
    simp only [marginKey, List.length_append]
    omega
  · simp only [marginKey, List.mem_append, not_or]
    exact ⟨⟨s.symbol.fits.2, by decide⟩, s.signalId.fits.2⟩

theorem symbol_fits (s : Signal) : Fits 31 s.symbol.bytes :=
  ⟨s.symbol.fits.1.trans (by omega), s.symbol.fits.2⟩

def referencePrice (symbol : CStr 15) : ℚ :=
  if lit "BTC" <:+: symbol.bytes then 100000
  else if lit "ETH" <:+: symbol.bytes then 3000
  else if lit "SOL" <:+: symbol.bytes then 150
  else 1000

theorem referencePrice_pos (symbol : CStr 15) : 0 < referencePrice symbol := by
  unfold referencePrice
  split_ifs <;> norm_num

/-- A guard and the static `dummy` of its tables. -/
structure PortfolioGuard where
  config : PortfolioConfig
  state : PortfolioState
  dummy : ℚ := 0

namespace PortfolioGuard

def init (config : PortfolioConfig) : PortfolioGuard where
  config := config
  state := { cash := config.initialCash }

/-- With a `max_leverage` of 0 the quotient is 0 here, where the source has an
infinite margin and refuses. -/
def calcRequiredMargin (g : PortfolioGuard) (s : Signal) : ℚ :=
  let price := if s.price ≤ 0 then referencePrice s.symbol else s.price
  if s.instrumentType = .OPTIONS then s.quantity * price
  else s.quantity * price / g.config.maxLeverage

/-- `state_.margin_reserved[key] += amount` -/
def reserve (g : PortfolioGuard) (s : Signal) (amount : ℚ) : PortfolioGuard :=
  let t := g.state.marginReserved.update hashKey g.dummy (marginKey s) (· + amount)
  { g with state := { g.state with marginReserved := t.1 }, dummy := t.2 }

def checkAndReserve (g : PortfolioGuard) (s : Signal) : PortfolioGuard × MarginResult :=
  let required := g.calcRequiredMargin s
  let available := g.state.availableMargin
  if required > available then
    (g, { reason := .copy 127 (lit "insufficient_margin: required " ++ fixed0 required ++
            lit ", available " ++ fixed0 available),
          requiredMargin := required })
  else (g.reserve s required, { approved := true, requiredMargin := required })

def checkAndReservePair (g : PortfolioGuard) (cex dex : Signal) : PortfolioGuard × MarginResult :=
  let cexMargin := g.calcRequiredMargin cex
  let dexMargin := g.calcRequiredMargin dex
  let total := cexMargin + dexMargin
  let available := g.state.availableMargin
  if total > available then
    (g, { reason := .copy 127 (lit "insufficient_margin: required " ++ fixed0 total ++ lit " (CEX=" ++
            fixed0 cexMargin ++ lit " + DEX=" ++ fixed0 dexMargin ++ lit "), available " ++
            fixed0 available),
          requiredMargin := total })
  else ((g.reserve cex cexMargin).reserve dex dexMargin, { approved := true, requiredMargin := total })

def releaseMargin (g : PortfolioGuard) (s : Signal) : PortfolioGuard :=
  match g.state.marginReserved.find hashKey (marginKey s) with
  | some _ =>
    let t := g.state.marginReserved.erase hashKey (marginKey s)
    { g with state := { g.state with marginReserved := t.1 } }
  | none => g

/-- The margin that a fill of `s` uses. -/
def usedMargin (g : PortfolioGuard) (s : Signal) (fillPrice fillQty : ℚ) : ℚ :=
  if s.instrumentType = .OPTIONS then fillQty * fillPrice
  else fillQty * fillPrice / g.config.maxLeverage

def onFill (g : PortfolioGuard) (s : Signal) (fillPrice fillQty : ℚ) : PortfolioGuard :=
  -- all that is reserved under the key, whatever the quantity of the fill
  let reserved := g.state.marginReserved.erase hashKey (marginKey s)
  let used := g.state.marginUsed.update hashKey g.dummy (marginKey s) fun _ =>
    g.usedMargin s fillPrice fillQty
  let delta := fillQty * s.side.sign
  let positions := g.state.positions.update hashKey used.2 s.symbol.bytes (· + delta)
  { g with
    state := { g.state with positions := positions.1, marginUsed := used.1, marginReserved := reserved.1 },
    dummy := positions.2 }

def reset (g : PortfolioGuard) : PortfolioGuard :=
  { g with state := {
      cash := g.config.initialCash
      positions := g.state.positions.clear
      marginUsed := g.state.marginUsed.clear
      marginReserved := g.state.marginReserved.clear } }

end PortfolioGuard

/-- The calls that others than the owner of a signal make on a shared guard. -/
inductive GuardOp where
  | checkAndReserve (s : Signal)
  | checkAndReservePair (cex dex : Signal)
  | onFill (s : Signal) (fillPrice fillQty : ℚ)
  | releaseMargin (s : Signal)
  deriving DecidableEq

def PortfolioGuard.apply (g : PortfolioGuard) : GuardOp → PortfolioGuard
  | .checkAndReserve s => (g.checkAndReserve s).1
  | .checkAndReservePair cex dex => (g.checkAndReservePair cex dex).1
  | .onFill s fillPrice fillQty => g.onFill s fillPrice fillQty
  | .releaseMargin s => g.releaseMargin s

/-- The signals a call is about. -/
def GuardOp.signals : GuardOp → List Signal
  | .checkAndReserve s | .onFill s _ _ | .releaseMargin s => [s]
  | .checkAndReservePair cex dex => [cex, dex]

end OrderExecution
