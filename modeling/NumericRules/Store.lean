import NumericRules.Bus
import NumericRules.Registry

/-! # Stores

A store holds the values of one owner. Ordered names have a place in an array;
every other name gets an entry when it is first written. The entries are also
listed by the cycle of their names, in the order of their first touch.

This module has the parts of a store that involve no code of the host program.
-/

namespace NumericRules

/-- The value of a name that has been touched. -/
structure Entry (σ : Type) where
  record : NameRecord σ
  value : Binary64

/-- The value a reset restores: the initial value, or 0 for an event. -/
def Entry.initial (entry : Entry σ) : Binary64 :=
  if entry.record.cycle = .event then 0 else entry.record.bounds.initial

def Entry.reset (entry : Entry σ) : Entry σ := { entry with value := entry.initial }

/-- What a workstation has done in one store: the rules whose targets were
recorded, those targets, and the subscriptions of each watched condition. -/
structure StationLog where
  tracked : List RuleId := []
  produced : List Identifier := []
  watches : List (RuleId × List (Identifier × SubscriptionKey)) := []

/-- Record the targets of a rule, unless they were recorded before. -/
def StationLog.produce (log : StationLog) (rule : RuleId) (targets : List Identifier) :
    StationLog :=
  if log.tracked.contains rule then log
  else
    { log with
      tracked := rule :: log.tracked
      produced := firstOccurrences (log.produced ++ targets) }

/-- What a store belongs to. -/
inductive Owner where
  | named (name : String)
  | numbered (number : Nat)
deriving DecidableEq, Repr

structure Store (σ : Type) where
  dense : Array Binary64
  entries : List (Entry σ) := []
  byCycle : Cycle → List Identifier := fun _ => []
  owner : Option Owner := none
  bus : Bus σ := {}
  logs : List (StationId × StationLog) := []

namespace Store

/-- An empty store with a place for every ordered name. -/
def new (registry : Registry σ) (owner : Option Owner := none) : Store σ :=
  { dense := Array.replicate registry.orderedCount 0, owner }

/-! ## Values -/

def entry? (store : Store σ) (id : Identifier) : Option (Entry σ) :=
  store.entries.find? (·.record.id == id)

/-- The value of an entry, 0 for a name that was never touched. -/
def stored (store : Store σ) (id : Identifier) : Binary64 :=
  match store.entry? id with
  | some entry => entry.value
  | none => 0

/-- The value at the place of an ordered name, 0 beyond the last place. -/
def denseValue (store : Store σ) (id : Identifier) : Binary64 :=
  (store.dense[id.raw - 1]?).getD 0

/-- Make an entry for a name that has none. -/
def touch (store : Store σ) (record : NameRecord σ) : Store σ :=
  if (store.entry? record.id).isSome then store
  else
    { store with
      entries := store.entries ++ [⟨record, 0⟩]
      byCycle := fun cycle =>
        if cycle = record.cycle then store.byCycle cycle ++ [record.id] else store.byCycle cycle }

/-- Change the entry of a name, if there is one. -/
def updateEntry (store : Store σ) (id : Identifier) (change : Entry σ → Entry σ) : Store σ :=
  { store with
    entries := store.entries.map fun entry => if entry.record.id = id then change entry else entry }

/-- Put a value into the entry of a name. -/
def retain (store : Store σ) (id : Identifier) (value : Binary64) : Store σ :=
  store.updateEntry id fun entry => { entry with value }

/-- Update an ordered name within its bounds; the answer is the value kept. -/
def updateDense (store : Store σ) (record : NameRecord σ) (update : Update) (operand : Binary64) :
    Binary64 × Store σ :=
  let place := record.id.raw - 1
  match store.dense[place]? with
  | none => (0, store)
  | some current =>
      let value := record.bounds.clamp (update.apply current operand)
      (value, { store with dense := store.dense.set! place value })

/-! ## Resets -/

/-- Reset one entry; the answer is its value, 0 when there is none. -/
def resetOne (store : Store σ) (id : Identifier) : Binary64 × Store σ :=
  let store := store.updateEntry id Entry.reset
  (store.stored id, store)

/-- Reset several entries. -/
def resetEach (store : Store σ) : List Identifier → Store σ
  | [] => store
  | id :: rest => (store.updateEntry id Entry.reset).resetEach rest

def resetCycle (store : Store σ) (cycle : Cycle) : Store σ :=
  store.resetEach (store.byCycle cycle)

/-- Reset all entries. Ordered names keep their values. -/
def resetAll (store : Store σ) : Store σ :=
  { store with entries := store.entries.map Entry.reset }

/-- The entries of one cycle in the order of their first touch. -/
def entriesOf (store : Store σ) (cycle : Cycle) : List (Entry σ) :=
  (store.byCycle cycle).filterMap store.entry?

/-! ## Workstations -/

def logOf (store : Store σ) (station : StationId) : StationLog :=
  (store.logs.lookup station).getD {}

def updateLog (store : Store σ) (station : StationId) (change : StationLog → StationLog) :
    Store σ :=
  { store with
    logs := (station, change (store.logOf station)) ::
      store.logs.filter (·.1 ≠ station) }

/-- Record the targets of a rule executed at a workstation. -/
def produce (store : Store σ) (station : StationId) (rule : RuleId)
    (targets : List Identifier) : Store σ :=
  store.updateLog station (·.produce rule targets)

/-- The identifiers produced at a workstation, in the order they first were. -/
def produced (store : Store σ) (station : StationId) : List Identifier :=
  (store.logOf station).produced

/-- Reset what was produced at a workstation. -/
def resetProduced (store : Store σ) (station : StationId) : Store σ :=
  store.resetEach (store.produced station)

def isWatching (store : Store σ) (station : StationId) (condition : RuleId) : Bool :=
  ((store.logOf station).watches.lookup condition).isSome

def subscribeEach (store : Store σ) (callback : Listener σ) :
    List Identifier → List (Identifier × SubscriptionKey) × Store σ
  | [] => ([], store)
  | id :: rest =>
      let (key, bus) := store.bus.add id callback
      let (keys, store) := { store with bus }.subscribeEach callback rest
      ((id, key) :: keys, store)

/-- End several subscriptions. -/
def unsubscribeEach (store : Store σ) : List (Identifier × SubscriptionKey) → Store σ
  | [] => store
  | (id, key) :: rest =>
      { store with bus := (store.bus.remove id key).2 }.unsubscribeEach rest

/-- Subscribe a listener to each identifier of a condition and keep the keys
under the condition. -/
def watch (store : Store σ) (station : StationId) (condition : RuleId)
    (ids : List Identifier) (callback : Listener σ) : Store σ :=
  let (keys, store) := store.subscribeEach callback ids
  store.updateLog station fun log =>
    { log with watches := (condition, keys) :: log.watches.filter (·.1 ≠ condition) }

/-- End the watch of a condition. The answer tells whether there was one. -/
def unwatch (store : Store σ) (station : StationId) (condition : RuleId) : Bool × Store σ :=
  match (store.logOf station).watches.lookup condition with
  | none => (false, store)
  | some keys =>
      let store := store.updateLog station fun log =>
        { log with watches := log.watches.filter (·.1 ≠ condition) }
      (true, store.unsubscribeEach keys)

end Store

end NumericRules
