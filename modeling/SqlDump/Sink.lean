/-!
# Bounded sinks

A sink takes items one after the other until the next one does not fit.
-/

namespace SqlDump

/-- How much more the sink takes; `none` is no limit. -/
structure Sink where
  room : Option Nat := none
deriving DecidableEq, Repr

namespace Sink

/-- Room after an item; an item that costs nothing always fits. -/
def spend? (sink : Sink) (cost : Nat) : Option Sink :=
  match sink.room with
  | none => some sink
  | some room =>
      if cost = 0 then some sink
      else if cost ≤ room then some ⟨some (room - cost)⟩
      else none

/-- The items taken in their order, and the sink after them; `none` if one did
not fit. -/
def takeAll {α : Type} (cost : α → Nat) (sink : Sink) :
    List α → List α × Option Sink
  | [] => ([], some sink)
  | item :: items =>
      match sink.spend? (cost item) with
      | none => ([], none)
      | some less =>
          let (taken, last) := takeAll cost less items
          (item :: taken, last)

end Sink

end SqlDump
