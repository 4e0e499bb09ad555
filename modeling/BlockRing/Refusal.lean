/-!
# Refusals

What a caller can ask for in vain. A refused request changes nothing, and the queue stays in use. `Refusal.message`
gives each refusal its text.
-/

namespace BlockRing

/-- A number that a queue is configured with. -/
inductive Setting
  | capacity
  | maxCapacity
  deriving DecidableEq, Repr

/-- The spelling of a setting in a report. -/
def Setting.name : Setting → String
  | capacity => "capacity"
  | maxCapacity => "max_capacity"

/-- Why a request is turned down. -/
inductive Refusal
  /-- There is no entry to read. -/
  | empty
  /-- Offset 0 holds no entry. -/
  | reservedOffset
  /-- The offset lies outside of the buffer. -/
  | beyondBuffer (offset capacity : Nat)
  /-- The bytes at the offset describe no block inside the buffer. -/
  | malformed (offset : Nat)
  /-- A block of `requested` bytes has no room, and the buffer may not grow enough for it. -/
  | noRoom (requested capacity maxCapacity : Nat)
  /-- No queue can be configured like this. -/
  | badSetting (setting : Setting) (value : Nat)
  deriving DecidableEq, Repr

namespace Refusal

/-- The text that reports a refusal. -/
def message : Refusal → String
  | empty => "Empty queue"
  | reservedOffset => "Index must be greater than zero. Invalid index."
  | beyondBuffer offset capacity =>
    "Index out of range: index " ++ Nat.repr offset ++ " is beyond capacity " ++ Nat.repr capacity
  | malformed offset => "Malformed entry at index " ++ Nat.repr offset
  | noRoom requested capacity maxCapacity =>
    "Full queue. Maximum size limit reached: requested " ++ Nat.repr requested ++ " bytes with capacity " ++
      Nat.repr capacity ++ " of " ++ Nat.repr maxCapacity
  | badSetting setting value =>
    "Invalid BytesQueue configuration: " ++ setting.name ++ " = " ++ Nat.repr value

end Refusal
end BlockRing
