import NumericRules.Log
import NumericRules.Store

/-! # The state of an engine at work

An engine's names, functions and settings are fixed once it is at work. What
changes is gathered here: the store being worked on, the subscriptions at the
engine, the counters of readings and workstations, the log, and the state of
the host program. Everything that changes it is a computation over this state
that may also have no result, when code of the host program calls itself without
end.
-/

namespace NumericRules

/-- A source of random integers: an endless sequence and how much of it is
spent. -/
structure Dice where
  sequence : Nat → Nat
  spent : Nat := 0

namespace Dice

/-- The sequence that starts from a seed: each item mixes the bits of a counter
which goes up by an odd step. -/
def ofSeed (seed : UInt64) : Dice where
  sequence index :=
    let counter := seed + 0x9E3779B97F4A7C15 * UInt64.ofNat (index + 1)
    let first := (counter ^^^ (counter >>> 30)) * 0xBF58476D1CE4E5B9
    let second := (first ^^^ (first >>> 27)) * 0x94D049BB133111EB
    (second ^^^ (second >>> 31)).toNat

/-- An integer from `low` up to but not including `high`; `low` when there is
none. -/
def draw (dice : Dice) (low high : Int) : Int × Dice :=
  let width := (high - low).toNat
  (low + (dice.sequence dice.spent % width : Nat), { dice with spent := dice.spent + 1 })

end Dice

/-- The value array of a process: kept from its last run, or in use by a run
that is loading or stepping. -/
inductive Pad where
  | idle (values : Array Binary64)
  | lent

structure World (σ : Type) where
  host : σ
  store : Store σ
  bus : Bus σ := {}
  readings : Nat := 0
  stations : Nat := 0
  pads : List (RuleId × Pad) := []
  dice : Dice
  log : List LogEntry := []

/-- A computation over the state of an engine at work. -/
abbrev Run (σ α : Type) := StateT (World σ) Option α

namespace World

def busAt (world : World σ) : Tier → Bus σ
  | .engine => world.bus
  | .store => world.store.bus

def setBus (world : World σ) (bus : Bus σ) : Tier → World σ
  | .engine => { world with bus }
  | .store => { world with store := { world.store with bus } }

/-- Put a pad aside or back. -/
def setPad (world : World σ) (process : RuleId) (pad : Pad) : World σ :=
  { world with pads := (process, pad) :: world.pads.filter (·.1 ≠ process) }

end World

namespace Run

/-- The store being worked on. -/
def store : Run σ (Store σ) := do
  let world ← get
  pure world.store

/-- Change the store and answer a question about the change. -/
def changeStore (change : Store σ → α × Store σ) : Run σ α := do
  let world ← get
  let (answer, store) := change world.store
  set { world with store }
  pure answer

/-- Change the subscriptions of a tier and answer a question about the change. -/
def changeBus (tier : Tier) (change : Bus σ → α × Bus σ) : Run σ α := do
  let world ← get
  let (answer, bus) := change (world.busAt tier)
  set (world.setBus bus tier)
  pure answer

/-- Change the state of the host program; the answer is what it was. -/
def changeHost (update : σ → σ) : Run σ σ := do
  let world ← get
  set { world with host := update world.host }
  pure world.host

def report (entry : LogEntry) : Run σ Unit :=
  modify fun world => { world with log := world.log ++ [entry] }

/-- The number of the next reading. -/
def nextRule : Run σ RuleId := do
  let world ← get
  set { world with readings := world.readings + 1 }
  pure ⟨world.readings⟩

def newStation : Run σ StationId := do
  let world ← get
  set { world with stations := world.stations + 1 }
  pure ⟨world.stations⟩

/-- A random integer from `low` up to `high`. -/
def draw (low high : Int) : Run σ Int := do
  let world ← get
  let (drawn, dice) := world.dice.draw low high
  set { world with dice }
  pure drawn

end Run

end NumericRules
