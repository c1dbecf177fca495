import Callees.Number.Binary64

namespace Callees

structure Date where
  year : Nat
  month : Nat
  day : Nat
  deriving Repr, DecidableEq

structure TimeOfDay where
  hour : Nat
  minute : Nat
  second : Nat
  microsecond : Nat
  deriving Repr, DecidableEq

/-- Dates and times, as configuration files may hold them. -/
inductive Moment
  | date (d : Date)
  | time (t : TimeOfDay)
  | floating (d : Date) (t : TimeOfDay)
  /-- With the minutes that local time is ahead. -/
  | zoned (d : Date) (t : TimeOfDay) (minutes : Int)
  deriving Repr, DecidableEq

inductive Data
  | null
  | bool (b : Bool)
  | int (n : Int)
  | float (x : Binary64)
  | text (s : String)
  | moment (m : Moment)
  | list (items : List Data)
  | record (fields : List (String × Data))
  deriving Repr, Inhabited

namespace Data

def field? (name : String) : Data → Option Data
  | record fields => fields.lookup name
  | _ => none

def ofOption {α : Type} (f : α → Data) : Option α → Data
  | some a => f a
  | none => null

def ofNat (n : Nat) : Data := int n

end Data

end Callees
