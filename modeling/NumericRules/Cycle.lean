/-! # Reset cycles -/

namespace NumericRules

/-- The cycle after which a value is reset together with others. -/
inductive Cycle where
  | temporary
  | event
  | permanent
  | minute
  | hour
  | day
  | week
  | month
  | year
deriving DecidableEq, Repr

namespace Cycle

def all : List Cycle :=
  [.temporary, .event, .permanent, .minute, .hour, .day, .week, .month, .year]

def name : Cycle → String
  | .temporary => "temp"
  | .event => "event"
  | .permanent => "permanent"
  | .minute => "minute"
  | .hour => "hour"
  | .day => "day"
  | .week => "week"
  | .month => "month"
  | .year => "year"

def ofName? (name : String) : Option Cycle :=
  all.find? (·.name == name)

end Cycle

end NumericRules
