import BlockRing.Queue.Basic

/-!
# The text of a queue

A queue is shown on one line with all of its fields, the bytes of the whole buffer included.
-/

namespace BlockRing

/-- The spelling of a truth value. -/
def spellBool : Bool → String
  | true => "true"
  | false => "false"

/-- The bytes in decimal, between brackets. -/
def Buffer.describe (b : Buffer) : String :=
  "[" ++ String.intercalate ", " (b.bytes.toList.map fun x => Nat.repr x.toNat) ++ "]"

/-- An observer is shown only as being there. -/
def Reporting.describeObserver (reporting : Reporting) : String :=
  if reporting.observer.isSome then "Some(GrowthObserver)" else "None"

namespace Queue

/-- The fields of a queue by name, in the order in which they are shown. -/
def shownFields (q : Queue) : List (String × String) :=
  [("buffer", q.buffer.describe),
   ("max_capacity", Nat.repr q.maxCapacity),
   ("head", Nat.repr q.cursors.head),
   ("tail", Nat.repr q.cursors.tail),
   ("right_margin", Nat.repr q.cursors.margin),
   ("count", Nat.repr q.cursors.count),
   ("full", spellBool q.cursors.saturated),
   ("verbose", spellBool q.reporting.verbose),
   ("observer", q.reporting.describeObserver)]

/-- The text that shows a queue. -/
def describe (q : Queue) : String :=
  "BytesQueue \x7b " ++ String.intercalate ", " (q.shownFields.map fun (name, text) => name ++ ": " ++ text) ++ " \x7d"

end Queue
end BlockRing
