import SqlDump.Text.Utf8

/-!
# Progress

Percentages of the input read so far.  A percentage is reported if it is the
first one, if it is at least one above the last report, or if it reaches one
hundred for the first time.  The end of the input is reported as exactly one
hundred, once.
-/

namespace SqlDump

/-- The numbers in which percentages are computed. -/
class Percentage (α : Type) where
  /-- Share of `bytes` in `total` as a percentage of at most one hundred. -/
  share : (total bytes : Nat) → α
  hundred : α
  addOne : α → α
  less : α → α → Bool

instance : Percentage Float where
  share total bytes :=
    if total = 0 then 100.0
    else
      let percent := bytes.toUInt64.toFloat * 100.0 / total.toUInt64.toFloat
      if percent < 100.0 then percent else 100.0
  hundred := 100.0
  addOne percent := percent + 1.0
  less left right := left < right

instance : Percentage Rat where
  share total bytes :=
    if total = 0 ∨ total < bytes then mkRat 100 1 else mkRat (bytes * 100) total
  hundred := mkRat 100 1
  addOne percent := Rat.add percent (mkRat 1 1)
  less left right := Rat.blt left right

structure PercentTracker (α : Type) where
  total : Nat
  last : Option α := none

namespace PercentTracker

variable {α : Type} [Percentage α]

def percentOf (tracker : PercentTracker α) (bytes : Nat) : α :=
  Percentage.share tracker.total bytes

def reachesEnd (last percent : α) : Bool :=
  !Percentage.less percent (Percentage.hundred : α) &&
  Percentage.less last Percentage.hundred

/-- The percentage to report for `bytes`, if it is due. -/
def update (tracker : PercentTracker α) (bytes : Nat) :
    PercentTracker α × Option α :=
  let percent := tracker.percentOf bytes
  let due :=
    match tracker.last with
    | none => true
    | some last =>
        !Percentage.less percent (Percentage.addOne last) ||
        reachesEnd last percent
  if due then ({ tracker with last := some percent }, some percent)
  else (tracker, none)

/-- The report of the end, unless it was made. -/
def complete (tracker : PercentTracker α) : PercentTracker α × Option α :=
  let due :=
    match tracker.last with
    | none => true
    | some last => Percentage.less last Percentage.hundred
  if due then
    ({ tracker with last := some Percentage.hundred }, some Percentage.hundred)
  else (tracker, none)

end PercentTracker

structure Progress (α : Type) where
  bytes : Nat
  total : Nat
  percent : α

namespace PercentTracker

variable {α : Type} [Percentage α]

def report (tracker : PercentTracker α) (bytes : Nat) :
    PercentTracker α × Option (Progress α) :=
  let (after, percent) := tracker.update bytes
  (after, percent.map fun percent => ⟨bytes, tracker.total, percent⟩)

/-- The notification of the end, even if fewer bytes arrived than expected. -/
def reportEnd (tracker : PercentTracker α) :
    PercentTracker α × Option (Progress α) :=
  let (after, percent) := tracker.complete
  (after, percent.map fun percent => ⟨tracker.total, tracker.total, percent⟩)

end PercentTracker

/-- An input that counts what was read from it. -/
structure CountedInput where
  rest : Bytes
  read : Nat := 0
deriving DecidableEq, Repr

def CountedInput.take (input : CountedInput) (size : Nat) :
    CountedInput × Bytes :=
  let chunk := input.rest.take size
  ({ rest := input.rest.drop size, read := input.read + chunk.length }, chunk)

end SqlDump
