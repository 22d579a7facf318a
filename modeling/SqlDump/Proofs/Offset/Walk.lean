import SqlDump.Proofs.Offset.Cut

/-!
# Loops over bytes

A loop over the bytes of a text takes one or more of them in every turn.  Its
turns inside a character are all alike, so an invariant has to hold between
characters only.
-/

namespace SqlDump

/-- What a turn of a loop does: stop with an answer, or go on `count` bytes
further. -/
inductive Turn (σ α : Type) where
  | stop (answer : α)
  | goOn (state : σ) (count : Nat)

/-- Take turns from `place` on.  `last` gives the answer at the end of the
bytes. -/
def walk {σ α : Type} (length : Nat) (turn : σ → Nat → Checked (Turn σ α))
    (last : σ → Nat → α) (state : σ) (place : Nat) : Checked α :=
  if place < length then
    match turn state place with
    | .error fault => .error fault
    | .ok (.stop answer) => .ok answer
    | .ok (.goOn next count) =>
        if 0 < count then walk length turn last next (place + count)
        else .error .stuck
  else .ok (last state place)
termination_by length - place

section

variable {σ α : Type} {length place count : Nat} {turn : σ → Nat →
  Checked (Turn σ α)}
  {last : σ → Nat → α} {state next : σ} {answer : α}

theorem walk_end (state : σ) (ended : length ≤ place) :
    walk length turn last state place = .ok (last state place) := by
  rw [walk, if_neg (Nat.not_lt_of_le ended)]

theorem walk_stop (within : place < length)
    (stops : turn state place = .ok (.stop answer)) :
    walk length turn last state place = .ok answer := by
  rw [walk, if_pos within, stops]

theorem walk_goOn (within : place < length)
    (goesOn : turn state place = .ok (.goOn next count))
    (positive : 0 < count) :
    walk length turn last state place =
      walk length turn last next (place + count) := by
  rw [walk, if_pos within, goesOn]
  exact if_pos positive

/-- Turns that take one byte each and leave the state alone. -/
theorem walk_repeat (within : place + count ≤ length)
    (alike : ∀ later, place ≤ later → later < place + count →
      turn state later = .ok (.goOn state 1)) :
    walk length turn last state place =
      walk length turn last state (place + count) := by
  induction count generalizing place with
  | zero => rfl
  | succ count ih =>
      have first := alike place (Nat.le_refl place) (by omega)
      have within' : place + 1 + count ≤ length := by omega
      have rest := ih within' fun later above below =>
        alike later (by omega) (by omega)
      rw [walk_goOn (by omega) first Nat.one_pos, rest, Nat.add_assoc,
        Nat.add_comm 1 count]

end

/-- What the loop does with the text behind `front`: it stops with a good
answer, it takes a piece of the text and keeps the invariant, or it goes through
a character byte by byte. -/
inductive Takes {σ α : Type} (turn : σ → Nat → Checked (Turn σ α))
    (inv : σ → Text → Text → Prop) (good : α → Prop) (state : σ)
    (front : Text) : Text → Prop where
  | stop {rest : Text} (answer : α)
      (stops : turn state front.size = .ok (.stop answer))
      (isGood : good answer) : Takes turn inv good state front rest
  | piece {piece rest : Text} (next : σ) (nonempty : piece ≠ [])
      (goesOn : turn state front.size = .ok (.goOn next piece.size))
      (keeps : inv next (front ++ piece) rest) :
      Takes turn inv good state front (piece ++ rest)
  | character {head : Char} {tail : Text} (next : σ)
      (first : turn state front.size = .ok (.goOn next 1))
      (inside : ∀ place,
        front.size < place → place < front.size + head.utf8Size →
        turn next place = .ok (.goOn next 1))
      (keeps : inv next (front ++ [head]) tail) :
      Takes turn inv good state front (head :: tail)

theorem Takes.ofCount {σ α : Type} {turn : σ → Nat → Checked (Turn σ α)}
    {inv : σ → Text → Text → Prop} {good : α → Prop} {state : σ}
    {front input : Text} {next : σ} {count : Nat} (positive : 0 < count)
    (sizeEq : Text.size (input.take count) = count)
    (goesOn : turn state front.size = .ok (.goOn next count))
    (keeps : inv next (front ++ input.take count) (input.drop count)) :
    Takes turn inv good state front input := by
  have nonempty : input.take count ≠ [] := by
    intro empty
    rw [empty, Text.size_nil] at sizeEq
    exact Nat.ne_of_lt positive sizeEq
  have taken : turn state front.size =
      .ok (.goOn next (Text.size (input.take count))) := by
    rw [sizeEq]
    exact goesOn
  have takes :
      Takes turn inv good state front (input.take count ++ input.drop count) :=
    .piece next nonempty taken keeps
  rwa [List.take_append_drop] at takes

/-- A loop whose turns keep an invariant between the characters ends, and with a
good answer. -/
theorem walk_spec {σ α : Type} {text : Text}
    {turn : σ → Nat → Checked (Turn σ α)} {last : σ → Nat → α}
    {inv : σ → Text → Text → Prop} {good : α → Prop}
    (ends : ∀ state, inv state text [] → good (last state text.size))
    (takes : ∀ state front head tail,
      text = front ++ head :: tail → inv state front (head :: tail) →
      Takes turn inv good state front (head :: tail)) (state : σ)
    (front rest : Text) (whole : text = front ++ rest)
    (holds : inv state front rest) :
    ∃ answer, walk text.size turn last state front.size = .ok answer ∧
      good answer := by
  induction bound : rest.length using Nat.strongRecOn
    generalizing state front rest with
  | ind count ih =>
    cases rest with
    | nil =>
        rw [List.append_nil] at whole
        subst whole
        exact ⟨_, walk_end state (Nat.le_refl _), ends state holds⟩
    | cons head tail =>
        have sizes := congrArg Text.size whole
        rw [Text.size_append, Text.size_cons] at sizes
        have positive := head.utf8Size_pos
        have within : front.size < text.size := by omega
        have taken := takes state front head tail whole holds
        generalize restEq : head :: tail = rest at taken whole bound
        cases taken with
        | stop answer stops isGood =>
            exact ⟨answer, walk_stop within stops, isGood⟩
        | @piece piece rest next nonempty goesOn keeps =>
            have wholeThen : text = front ++ piece ++ rest := by
              rw [whole, List.append_assoc]
            have pieceLength := List.length_pos_iff.mpr nonempty
            have shorter : rest.length < count := by
              rw [List.length_append] at bound
              omega
            rw [walk_goOn within goesOn (Text.size_pos nonempty),
              ← Text.size_append]
            exact ih _ shorter next (front ++ piece) rest wholeThen keeps rfl
        | @character head tail next first inside keeps =>
            obtain ⟨rfl, rfl⟩ := List.cons.inj restEq
            have wholeThen : text = front ++ [head] ++ tail := by
              rw [whole, List.append_assoc, List.singleton_append]
            have shorter : tail.length < count := by
              rw [List.length_cons] at bound
              omega
            have through : (front ++ [head]).size = front.size + 1 +
                (head.utf8Size - 1) := by
              rw [Text.size_append, Text.size_cons, Text.size_nil]
              omega
            have alike (place : Nat) (above : front.size + 1 ≤ place)
                (below : place < front.size + 1 + (head.utf8Size - 1)) :
                turn next place = .ok (.goOn next 1) :=
              inside place (by omega) (by omega)
            rw [walk_goOn within first Nat.one_pos,
              walk_repeat (by omega) alike, ← through]
            exact ih _ shorter next (front ++ [head]) tail wholeThen keeps rfl

end SqlDump
