/-!
# Growth reports

When the buffer of a queue grows, the growth is logged, and after that the observer of the queue, if there is one, is
told. How much of the growth the log shows depends on whether the queue is verbose; the observer sees all of it
(`Reporting.reports`).
-/

namespace BlockRing

/-- One growth of a buffer; `wrapped` says that the entries had wrapped around its end and were put in line. -/
structure Growth where
  previousCapacity : Nat
  capacity : Nat
  wrapped : Bool
  deriving DecidableEq, Repr

/-- How important a log record is. -/
inductive Level
  | info
  | trace
  deriving DecidableEq, Repr

/-- What a log record carries beside its message. The time that a growth took differs from run to run, so only its
presence is recorded. -/
inductive LogField
  | elapsed
  | previousCapacity (bytes : Nat)
  | capacity (bytes : Nat)
  | wrapped (yes : Bool)
  deriving DecidableEq, Repr

/-- One record of the log. -/
structure LogRecord where
  level : Level
  message : String
  fields : List LogField
  deriving DecidableEq, Repr

/-- What a growth makes known: a log record, or a notice to the observer that goes by `tag`. -/
inductive Report
  | log (record : LogRecord)
  | notice (tag : Nat) (growth : Growth)
  deriving DecidableEq, Repr

/-- The log record of a growth. A verbose queue reports it in full and as important. -/
def Growth.record (growth : Growth) (verbose : Bool) : LogRecord where
  level := if verbose then .info else .trace
  message := "Allocated new queue"
  fields :=
    if verbose then
      [.elapsed, .previousCapacity growth.previousCapacity, .capacity growth.capacity, .wrapped growth.wrapped]
    else [.previousCapacity growth.previousCapacity, .capacity growth.capacity]

/-- Where the growths of a queue are made known. The observer is code of the caller, which runs once the queue has grown
and before the entry is written; it is given the growth, not the queue, and is taken to return. -/
structure Reporting where
  verbose : Bool := false
  observer : Option Nat := none
  deriving DecidableEq, Repr

namespace Reporting

/-- The reports of a growth, in order: the log record, then the notice. -/
def reports (reporting : Reporting) (growth : Growth) : List Report :=
  .log (growth.record reporting.verbose) :: (reporting.observer.map (.notice · growth)).toList

end Reporting
end BlockRing
