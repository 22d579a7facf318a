import SqlDump.Pipeline.Volatile
import SqlDump.Proofs.Offset.Guard
import SqlDump.Proofs.Pipeline.Counter

/-!
# Resetting counters by bytes

The counters of a statement are all found first, by their byte offsets.  The
lexer then catches up with one after the other, and those that begin in
top-level code are replaced.  A counter begins with a letter and holds no second
one like it, so the counters that the lexer passes on its way are those that the
search finds.
-/

namespace SqlDump

open Text

namespace Volatile

def counterAt (before : Option Char) (text : Text) : Option Text :=
  if endsWord before then afterCounter? text else none

theorem counterAt_spec {before : Option Char} {text rest : Text}
    (found : counterAt before text = some rest) :
    endsWord before = true ∧ afterCounter? text = some rest := by
  unfold counterAt at found
  split at found
  · next ends => exact ⟨ends, found⟩
  · simp at found

/-- The byte offsets of the counters, given the offset of the text. -/
def counterPlaces (before : Option Char) (place : Nat) : Text → List (Nat × Nat)
  | [] => []
  | head :: tail =>
      match _found : counterAt before (head :: tail) with
      | some rest =>
          let stop := place + (size (head :: tail) - size rest)
          (place, stop) :: counterPlaces (some '0') stop rest
      | none => counterPlaces (some head) (place + head.utf8Size) tail
termination_by text => text.length
decreasing_by
  · exact length_afterCounter?_lt (counterAt_spec _found).2
  · simp

theorem isFirstLetter_of_afterCounter? {head : Char} {tail rest : Text}
    (found : afterCounter? (head :: tail) = some rest) :
    isFirstLetter head = true := by
  obtain ⟨label, value, split, counter⟩ := counter_of_afterCounter? found
  obtain ⟨first, others, rfl, isFirst, -⟩ := counter.label.letters
  rw [(List.cons.inj split).1]
  exact isFirst

theorem counterAt_of_other (before : Option Char) {head : Char}
    (other : isFirstLetter head = false) (tail : Text) :
    counterAt before (head :: tail) = none := by
  cases found : counterAt before (head :: tail) with
  | none => rfl
  | some rest =>
      have first := isFirstLetter_of_afterCounter? (counterAt_spec found).2
      exact absurd (other.symm.trans first) Bool.false_ne_true

/-- The search finds these places from here on: it stands here, or it has passed
on from here to where it stands without finding one. -/
inductive Lists : Option Char → Nat → Text → List (Nat × Nat) → Prop where
  | search {before shown : Option Char} (place : Nat) (text : Text)
      (same : endsWord shown = endsWord before) :
      Lists before place text (counterPlaces shown place text)
  | pass {before : Option Char} {place : Nat} {head : Char} {tail : Text}
      {places : List (Nat × Nat)}
      (none : counterAt before (head :: tail) = none)
      (later : Lists (some head) (place + head.utf8Size) tail places) :
      Lists before place (head :: tail) places

variable {before : Option Char} {place : Nat} {head : Char} {tail rest : Text}
  {places : List (Nat × Nat)}

theorem Lists.nil (lists : Lists before place [] places) : places = [] := by
  cases lists with
  | search => rw [counterPlaces]

theorem counterAt_eq {shown : Option Char}
    (same : endsWord shown = endsWord before) (text : Text) :
    counterAt shown text = counterAt before text := by
  rw [counterAt, counterAt, same]

theorem Lists.behind (lists : Lists before place (head :: tail) places)
    (none : counterAt before (head :: tail) = none) :
    Lists (some head) (place + head.utf8Size) tail places := by
  cases lists with
  | search _ _ same =>
      rw [counterPlaces]
      split
      · next rest found =>
          rw [counterAt_eq same, none] at found
          simp at found
      · exact .search _ _ rfl
  | pass _ later => exact later

theorem Lists.found (lists : Lists before place (head :: tail) places)
    (found : counterAt before (head :: tail) = some rest) :
    places = (place, place + (size (head :: tail) - size rest)) ::
      counterPlaces (some '0') (place + (size (head :: tail) - size rest))
        rest := by
  cases lists with
  | search _ _ same =>
      rw [counterPlaces]
      split
      · next other otherFound =>
          rw [counterAt_eq same, found] at otherFound
          obtain rfl := Option.some.inj otherFound
          rfl
      · next none =>
          rw [counterAt_eq same, found] at none
          simp at none
  | pass none _ => simp [none] at found

theorem getLast?_cons_or (head : Char) (tail : Text) (before : Option Char) :
    (head :: tail).getLast?.or before = tail.getLast?.or (some head) := by
  cases tail with
  | nil => rfl
  | cons next others =>
      rw [List.getLast?_cons_cons,
        List.getLast?_eq_some_getLast (List.cons_ne_nil next others)]
      rfl

/-- The search passes over a piece without a first letter. -/
theorem Lists.through {piece : Text}
    (lists : Lists before place (piece ++ rest) places)
    (others : ∀ character ∈ piece, isFirstLetter character = false) :
    Lists (piece.getLast?.or before) (place + size piece) rest places := by
  induction piece generalizing before place with
  | nil => exact lists
  | cons head tail ih =>
      have one :=
        lists.behind (counterAt_of_other before (others head List.mem_cons_self)
          _)
      have later := ih one fun character member =>
        others character (List.mem_cons_of_mem head member)
      rw [getLast?_cons_or, size_cons, ← Nat.add_assoc]
      exact later

/-- The search that stands behind a piece without a first letter has passed over
it. -/
theorem lists_through {piece : Text} {shown : Option Char}
    (others : ∀ character ∈ piece, isFirstLetter character = false)
    (same : endsWord shown = endsWord (piece.getLast?.or before)) :
    Lists before place (piece ++ rest)
      (counterPlaces shown (place + size piece) rest) := by
  induction piece generalizing before place with
  | nil => exact .search _ _ same
  | cons head tail ih =>
      rw [getLast?_cons_or] at same
      have later : Lists (some head) (place + head.utf8Size) (tail ++ rest)
          (counterPlaces shown (place + head.utf8Size + size tail) rest) :=
        ih (fun character member =>
          others character (List.mem_cons_of_mem head member)) same
      rw [Nat.add_assoc] at later
      exact .pass (counterAt_of_other before (others head List.mem_cons_self) _)
        later

/-- A counter is one first letter and other characters, the last of which is a
digit, and none of them can begin a literal or a comment. -/
theorem characters_of_afterCounter?
    (found : afterCounter? (head :: tail) = some rest) :
    ∃ inner digit, tail = inner ++ [digit] ++ rest ∧
      isDecimalDigit digit = true ∧
      (∀ character ∈ inner ++ [digit], isFirstLetter character = false) ∧
      ∀ character ∈ head :: (inner ++ [digit]), character ∉ Lexer.openers := by
  obtain ⟨label, value, split, counter⟩ := counter_of_afterCounter? found
  obtain ⟨first, others, rfl, -, noFirst⟩ := counter.label.letters
  obtain ⟨digits, digit, rfl⟩ : ∃ digits digit, value = digits ++ [digit] :=
    ⟨_, _, (List.dropLast_concat_getLast counter.number.nonempty).symm⟩
  obtain ⟨rfl, tailEq⟩ := List.cons.inj split
  have plain := counter.plain
  refine ⟨others ++ digits, digit, by rw [tailEq]; simp, ?_, ?_, ?_⟩
  · exact counter.number.digits digit (by simp)
  · intro character member
    rw [List.append_assoc] at member
    rcases List.mem_append.mp member with inLabel | inValue
    · exact noFirst character inLabel
    · exact isFirstLetter_of_isDecimalDigit
        (counter.number.digits character inValue)
  · rwa [List.cons_append, ← List.append_assoc] at plain

end Volatile

namespace Offset

variable {counter : DepthCounter} {text front rest : Text} {lexer after : Lexer}
  {head : Char} {tail : Text} {faith : Prop} {limit : Nat}

def lexTurn (counter : DepthCounter) (octets : Text) (limit : Nat)
    (lexer : Lexer) (place : Nat) : Checked (Turn Lexer (Lexer × Nat)) :=
  if limit ≤ place then .ok (.stop (lexer, place))
  else do
    let (taken, after) ← lexer.stepChecked counter octets place true
    .ok (.goOn after taken.consumed)

def lexTo (counter : DepthCounter) (text : Text) (limit : Nat) (lexer : Lexer)
    (place : Nat) : Checked (Lexer × Nat) :=
  walk text.size (lexTurn counter text.octets limit) (fun lexer place =>
    (lexer, place)) lexer place

/-- Replace the counters at these offsets that begin in top-level code.  The
text in front of `copied` is done. -/
def resetFrom (counter : DepthCounter) (text : Text) :
    List (Nat × Nat) → Lexer → Nat → Nat → Text → Checked Text
  | [], _, _, copied, done => do
      let behind ← text.since copied
      .ok (done ++ behind)
  | (start, stop) :: places, lexer, place, copied, done => do
      let (lexer, place) ← lexTo counter text start lexer place
      if place = start ∧ lexer.atTopLevel = true then do
        let piece ← text.between copied start
        resetFrom counter text places lexer place stop
          (done ++ piece ++ Volatile.zeroCounter)
      else resetFrom counter text places lexer place copied done

def resetCounters (counter : DepthCounter) (text : Text) : Checked Text :=
  resetFrom counter text (Volatile.counterPlaces none 0 text) {} 0 0 []

private theorem size_le_of_lt {before behind : Text}
    (split : front ++ head :: tail = before ++ behind)
    (below : front.size < before.size) :
    front.size + head.utf8Size ≤ before.size := by
  rcases List.append_eq_append_iff.mp split with
      ⟨piece, beforeEq, pieceEq⟩ | ⟨piece, frontEq, -⟩
  · cases piece with
    | nil =>
        rw [beforeEq, List.append_nil] at below
        exact absurd below (Nat.lt_irrefl _)
    | cons first others =>
        obtain ⟨rfl, -⟩ := List.cons.inj pieceEq
        rw [beforeEq, size_append, size_cons]
        omega
  · rw [frontEq, size_append] at below
    omega

def Lexes (counter : DepthCounter) (lexer : Lexer) (_front rest : Text) :
    Prop :=
  Lexer.Tracks counter False [] lexer rest True

def IsPlace (counter : DepthCounter) (text : Text) (answer : Lexer × Nat) :
    Prop :=
  ∃ front rest, text = front ++ rest ∧ answer.2 = front.size ∧
    Lexer.Tracks counter False [] answer.1 rest True

private theorem takes_lexTo {before behind : Text}
    (whole : text = front ++ head :: tail) (limited : text = before ++ behind)
    (tracks : Lexer.Tracks counter False [] lexer (head :: tail) True) :
    Takes (lexTurn counter text.octets before.size)
      (Lexes counter) (IsPlace counter text) lexer front (head :: tail) := by
  by_cases reached : before.size ≤ front.size
  · exact .stop (lexer, front.size) (if_pos reached) ⟨front, head :: tail,
      whole, rfl, tracks⟩
  · have below :=
      size_le_of_lt (whole.symm.trans limited) (Nat.lt_of_not_le reached)
    subst whole
    cases ascii : isAscii head with
    | false =>
        apply tracks.takes_wide ascii true _ _ tracks.wide
        · intro octet _ _ stepped
          simp only [lexTurn, if_neg reached, stepped, Checked.ok_bind]
          rfl
        · intro octet place above inside _ _ stepped
          have inFront : ¬before.size ≤ place := by omega
          simp only [lexTurn, if_neg inFront, stepped, Checked.ok_bind]
          rfl
    | true =>
        obtain ⟨taken, after, stepped, sizeEq, moves⟩ :=
          tracks.step ascii front true
        apply Takes.ofCount (moves.consumed_pos moves.decided) sizeEq _
          (moves.tracks moves.decided)
        simp only [lexTurn, if_neg reached, stepped, Checked.ok_bind]

private theorem lexTo_spec {before behind : Text} (whole : text = front ++ rest)
    (limited : text = before ++ behind)
    (lexes : Lexes counter lexer front rest) :
    ∃ reached, lexTo counter text before.size lexer front.size = .ok reached ∧
      IsPlace counter text reached := by
  have ends (lexer : Lexer) (done : Lexes counter lexer text []) :
      IsPlace counter text (lexer, text.size) :=
    ⟨text, [], (List.append_nil text).symm, rfl, done⟩
  exact walk_spec ends (fun _ _ _ _ whole => takes_lexTo whole limited) lexer
    front rest whole lexes

/-- Whatever the lexer makes of the text, the places of the counters cut it
between characters. -/
theorem resetFrom_ok {before : Option Char} {place : Nat} (passed left : Text)
    (placeEq : place = passed.size) (whole : text = passed ++ left) :
    ∀ (done copied middle : Text) (lexer : Lexer) (front rest : Text),
      passed = copied ++ middle →
      text = front ++ rest → Lexes counter lexer front rest →
      ∃ result,
        resetFrom counter text (Volatile.counterPlaces before place left) lexer
          front.size
        copied.size done = .ok result := by
  fun_induction Volatile.counterPlaces before place left
    generalizing passed with
  | case1 before place =>
      intro done copied middle lexer front rest passedEq _ _
      have cut := since_append copied (middle ++ [])
      rw [← List.append_assoc, ← passedEq, ← whole] at cut
      simp only [resetFrom, cut, Checked.ok_bind]
      exact ⟨_, rfl⟩
  | case2 before place head tail rest found stop ih =>
      intro done copied middle lexer front later passedEq split lexes
      obtain ⟨label, value, counterEq, -⟩ :=
        Volatile.counter_of_afterCounter? (Volatile.counterAt_spec found).2
      obtain ⟨matched, matchedEq⟩ : ∃ matched, head :: tail = matched ++ rest :=
        ⟨label ++ value, by rw [counterEq, List.append_assoc]⟩
      have stopEq : stop = (passed ++ matched).size := by
        have sizes := congrArg Text.size matchedEq
        rw [size_append] at sizes
        rw [size_append, ← placeEq]
        omega
      have wholeThen : text = passed ++ matched ++ rest := by
        rw [whole, matchedEq, List.append_assoc]
      obtain ⟨⟨reached, reachedPlace⟩, lexed, reachedFront, reachedRest,
        reachedSplit, reachedEq, reachedLexes⟩ := lexTo_spec split whole lexes
      dsimp only at reachedEq reachedLexes
      rw [← placeEq] at lexed
      have cut := between_append copied middle (head :: tail)
      rw [← List.append_assoc, ← passedEq, ← whole, ← placeEq] at cut
      simp only [resetFrom, lexed, Checked.ok_bind, reachedEq]
      split
      · have further := ih (passed ++ matched) stopEq wholeThen
          (done ++ middle ++ Volatile.zeroCounter) (passed ++ matched)
          [] reached reachedFront
          reachedRest (List.append_nil _).symm reachedSplit reachedLexes
        rw [← stopEq] at further
        simp only [cut, Checked.ok_bind]
        exact further
      · exact ih (passed ++ matched) stopEq wholeThen done copied
          (middle ++ matched) reached
          reachedFront reachedRest (by rw [passedEq, List.append_assoc])
            reachedSplit reachedLexes
  | case3 before place head tail none ih =>
      intro done copied middle lexer front later passedEq split lexes
      have placeThen : place + head.utf8Size = (passed ++ [head]).size := by
        rw [size_append, size_cons, size_nil, placeEq, Nat.add_zero]
      have wholeThen : text = passed ++ [head] ++ tail := by
        rw [whole, List.append_assoc, List.singleton_append]
      exact ih (passed ++ [head]) placeThen wholeThen done copied
        (middle ++ [head]) lexer front
        later (by rw [passedEq, List.append_assoc]) split lexes

private theorem taken_spec (lexer : Lexer) (head : Char) (tail : Text) :
    ∃ others, (head :: tail).take (lexer.taken (head :: tail)) =
      head :: others ∧
      (∀ character ∈ others, Volatile.isFirstLetter character = false) ∧
      (Volatile.isFirstLetter head = true → others = []) := by
  have outcome := lexer.outcome_next (List.cons_ne_nil head tail)
  rw [Lexer.taken]
  generalize (lexer.step true (head :: tail)).1 = step at outcome ⊢
  generalize lexer.next (head :: tail) = after at outcome
  generalize inputEq : head :: tail = input at outcome ⊢
  cases outcome with
  | character first rest =>
      obtain ⟨rfl, rfl⟩ := List.cons.inj inputEq
      exact ⟨[], rfl, by simp, fun _ => rfl⟩
  | dashes code rest =>
      obtain ⟨rfl, rfl⟩ := List.cons.inj inputEq
      exact ⟨['-'], rfl, List.forall_mem_singleton.mpr (by decide),
        fun first => absurd first (by decide)⟩
  | marker top rest =>
      obtain ⟨rfl, rfl⟩ := List.cons.inj inputEq
      exact ⟨['*', '!'], rfl,
        List.forall_mem_cons.mpr ⟨by decide,
          List.forall_mem_singleton.mpr (by decide)⟩,
        fun first => absurd first (by decide)⟩
  | openGuard top digits rest nonempty allDigits =>
      have piece : (guardMarker ++ (digits ++ rest)).take
          (guardMarker.length + digits.length) =
          '/' :: '*' :: '!' :: digits := by
        rw [← List.length_append, ← List.append_assoc, List.take_left]
        rfl
      obtain ⟨rfl, -⟩ := List.cons.inj inputEq
      refine ⟨'*' :: '!' :: digits, piece, ?_,
        fun first => absurd first (by decide)⟩
      intro character member
      rcases List.mem_cons.mp member with rfl | member
      · decide
      · rcases List.mem_cons.mp member with rfl | member
        · decide
        · rw [← allDigits] at member
          have digit := List.all_eq_true.mp List.all_takeWhile character member
          have ascii : character.toNat < 128 := by
            simpa [isAscii] using isAscii_of_isDigit digit
          apply Volatile.isFirstLetter_of_isDecimalDigit
          rwa [isDecimalDigit, if_pos ascii]
  | openPlain code rest =>
      obtain ⟨rfl, rfl⟩ := List.cons.inj inputEq
      exact ⟨['*'], rfl, List.forall_mem_singleton.mpr (by decide),
        fun first => absurd first (by decide)⟩
  | close inside rest =>
      obtain ⟨rfl, rfl⟩ := List.cons.inj inputEq
      exact ⟨['/'], rfl, List.forall_mem_singleton.mpr (by decide),
        fun first => absurd first (by decide)⟩

theorem lexTo_next (whole : text = front ++ head :: tail)
    (tracks : Lexer.Tracks counter True [] lexer (head :: tail) True)
    (before :
      (front ++ (head :: tail).take (lexer.taken (head :: tail))).size ≤
        limit) :
    lexTo counter text limit lexer front.size =
      lexTo counter text limit (lexer.next (head :: tail))
        (front ++ (head :: tail).take (lexer.taken (head :: tail))).size := by
  subst whole
  have within : front.size < (front ++ head :: tail).size := by
    have positive := head.utf8Size_pos
    rw [size_append, size_cons]
    omega
  cases ascii : isAscii head with
  | false =>
      obtain ⟨takenEq, nextEq⟩ := Lexer.wide_eq tracks.quoting ascii tail
      rw [takenEq, List.take_succ_cons, List.take_zero, size_append, size_cons,
        size_nil, Nat.add_zero] at before ⊢
      rw [nextEq]
      have positive := head.utf8Size_pos
      have first : lexTurn counter (octets (front ++ head :: tail)) limit lexer
          front.size =
          .ok (.goOn lexer.behindWide 1) := by
        obtain ⟨octet, -, -, stepped⟩ :=
          tracks.wideTurn ascii front true (.inl rfl)
          (Nat.le_refl _) (by omega)
        have inFront : ¬limit ≤ front.size := by omega
        simp only [lexTurn, if_neg inFront, stepped, Checked.ok_bind]
        rfl
      have alike (place : Nat) (above : front.size + 1 ≤ place)
          (below : place < front.size + 1 + (head.utf8Size - 1)) :
          lexTurn counter (octets (front ++ head :: tail)) limit
            lexer.behindWide place =
            .ok (.goOn lexer.behindWide 1) := by
        obtain ⟨octet, -, -, stepped⟩ :=
          tracks.wideTurn ascii front true (.inr rfl)
          (Nat.le_of_succ_le above) (by omega)
        have inFront : ¬limit ≤ place := by omega
        simp only [lexTurn, if_neg inFront, stepped, Checked.ok_bind]
        rfl
      have through : front.size + head.utf8Size = front.size + 1 +
          (head.utf8Size - 1) := by omega
      have inText : front.size + 1 + (head.utf8Size - 1) ≤
          (front ++ head :: tail).size := by
        rw [size_append, size_cons]
        omega
      rw [lexTo, walk_goOn within first Nat.one_pos, walk_repeat inText alike,
        through]
      rfl
  | true =>
      obtain ⟨taken, after, stepped, sizeEq, moves⟩ :=
        tracks.step ascii front true
      obtain ⟨takenEq, nextEq⟩ := moves.next_eq trivial
      have positive := moves.consumed_pos moves.decided
      rw [takenEq, size_append, sizeEq] at before ⊢
      rw [nextEq]
      have inFront : ¬limit ≤ front.size := by omega
      have turn : lexTurn counter (octets (front ++ head :: tail)) limit lexer
          front.size =
          .ok (.goOn after taken.consumed) := by
        simp only [lexTurn, if_neg inFront, stepped, Checked.ok_bind]
      rw [lexTo, walk_goOn within turn positive]
      rfl

theorem tracks_next
    (tracks : Lexer.Tracks counter True [] lexer (head :: tail) True) :
    Lexer.Tracks counter True [] (lexer.next (head :: tail))
      ((head :: tail).drop (lexer.taken (head :: tail))) True := by
  cases ascii : isAscii head with
  | false =>
      obtain ⟨takenEq, nextEq⟩ := Lexer.wide_eq tracks.quoting ascii tail
      rw [takenEq, nextEq]
      exact tracks.wide
  | true =>
      obtain ⟨taken, after, -, -, moves⟩ := tracks.step ascii [] true
      obtain ⟨takenEq, nextEq⟩ := moves.next_eq trivial
      rw [takenEq, nextEq]
      exact moves.tracks moves.decided

/-- In top-level code the lexer stays the same along characters that open
nothing. -/
theorem lexTo_plains {piece : Text} (whole : text = front ++ (piece ++ rest))
    (tracks : Lexer.Tracks counter True [] lexer (piece ++ rest) True)
    (top : lexer.atTopLevel = true)
    (plain : ∀ character ∈ piece, character ∉ Lexer.openers)
    (before : (front ++ piece).size ≤ limit) :
    lexTo counter text limit lexer front.size =
      lexTo counter text limit lexer (front ++ piece).size := by
  induction piece generalizing front with
  | nil => rw [List.append_nil]
  | cons head tail ih =>
      rw [List.cons_append] at tracks whole
      have stepEq : lexer.step true (head :: (tail ++ rest)) =
          (.skip 1, lexer) :=
        Lexer.step_of_plain _ top (plain head List.mem_cons_self)
      have takenEq : lexer.taken (head :: (tail ++ rest)) = 1 := by
        rw [Lexer.taken, stepEq]
        rfl
      have nextEq : lexer.next (head :: (tail ++ rest)) = lexer := by
        rw [Lexer.next, stepEq]
      have later : Lexer.Tracks counter True [] lexer (tail ++ rest) True := by
        have moved := tracks_next tracks
        rwa [takenEq, nextEq] at moved
      have along : front ++ [head] ++ tail = front ++ head :: tail := by simp
      have wholeThen : text = front ++ [head] ++ (tail ++ rest) := by
        rw [whole]
        simp
      have inFront : (front ++ (head :: (tail ++ rest)).take
          (lexer.taken (head :: (tail ++ rest)))).size ≤ limit := by
        rw [takenEq]
        rw [← along, size_append] at before
        exact Nat.le_of_add_right_le before
      have first := lexTo_next whole tracks inFront
      rw [takenEq, nextEq] at first
      rw [first, ← along]
      apply ih wholeThen later
      · exact fun character member =>
          plain character (List.mem_cons_of_mem head member)
      · rwa [along]

private theorem resetCounters_counter {before : Option Char}
    (top : lexer.atTopLevel = true)
    (found : Volatile.counterAt before (head :: tail) = some rest) :
    Volatile.resetCounters lexer before (head :: tail) =
      Volatile.zeroCounter ++ Volatile.resetCounters lexer (some '0') rest := by
  obtain ⟨ends, counterFound⟩ := Volatile.counterAt_spec found
  have here : (if (lexer.atTopLevel && endsWord before) = true then
      Volatile.afterCounter? (head :: tail) else none) = some rest := by
    rw [top, ends, Bool.and_self, if_pos rfl, counterFound]
  rw [Volatile.resetCounters]
  split
  · next other otherFound =>
      rw [here] at otherFound
      rw [Option.some.inj otherFound]
  · next none =>
      rw [here] at none
      simp at none

private theorem resetCounters_next {before : Option Char}
    (passes : lexer.atTopLevel = false ∨
      Volatile.counterAt before (head :: tail) = none) :
    Volatile.resetCounters lexer before (head :: tail) =
      (head :: tail).take (lexer.taken (head :: tail)) ++
        Volatile.resetCounters (lexer.next (head :: tail))
          ((head :: tail).take (lexer.taken (head :: tail))).getLast?
          ((head :: tail).drop (lexer.taken (head :: tail))) := by
  have here : (if (lexer.atTopLevel && endsWord before) = true then
      Volatile.afterCounter? (head :: tail) else none) = none := by
    rcases passes with inside | none
    · rw [inside, Bool.false_and, if_neg Bool.false_ne_true]
    · unfold Volatile.counterAt at none
      cases lexer.atTopLevel
      · rfl
      · exact none
  rw [Volatile.resetCounters]
  split
  · next other otherFound =>
      rw [here] at otherFound
      simp at otherFound
  · rfl

/-- From here on the search over the bytes replaces what the search over the
characters replaces, if its lexer comes to where the lexer of the characters
is. -/
def Resets (counter : DepthCounter) (text : Text) (lexer : Lexer)
    (before : Option Char) (rest : Text) : Prop :=
  ∀ ⦃done copied middle : Text⦄ ⦃reached : Lexer⦄ ⦃reachedPlace : Nat⦄ ⦃places :
    List (Nat × Nat)⦄,
    text = copied ++ middle ++ rest →
    Volatile.Lists before (copied ++ middle).size rest places →
    (∀ limit, (copied ++ middle).size ≤ limit →
      lexTo counter text limit reached reachedPlace =
        lexTo counter text limit lexer (copied ++ middle).size) →
    resetFrom counter text places reached reachedPlace copied.size done =
      .ok (done ++ middle ++ Volatile.resetCounters lexer before rest)

private theorem resets_nil (lexer : Lexer) (before : Option Char) :
    Resets counter text lexer before [] := by
  intro done copied middle reached reachedPlace places whole lists _
  have cut := since_append copied middle
  rw [List.append_nil] at whole
  subst whole
  rw [lists.nil]
  simp only [resetFrom, cut, Checked.ok_bind, Volatile.resetCounters,
    List.append_nil]

theorem Resets.next {before : Option Char} {piece : Text}
    {places : List (Nat × Nat)} {done copied middle : Text} {reached : Lexer}
    {reachedPlace : Nat}
    (pieceEq : (head :: tail).take (lexer.taken (head :: tail)) = piece)
    (further : Resets counter text (lexer.next (head :: tail)) piece.getLast?
        ((head :: tail).drop (lexer.taken (head :: tail))))
    (tracks : Lexer.Tracks counter True [] lexer (head :: tail) True)
    (passes : lexer.atTopLevel = false ∨
      Volatile.counterAt before (head :: tail) = none)
    (whole : text = copied ++ middle ++ head :: tail)
    (lists : Volatile.Lists piece.getLast? (copied ++ middle ++ piece).size
        ((head :: tail).drop (lexer.taken (head :: tail))) places)
    (lag : ∀ limit, (copied ++ middle).size ≤ limit →
      lexTo counter text limit reached reachedPlace =
        lexTo counter text limit lexer (copied ++ middle).size) :
    resetFrom counter text places reached reachedPlace copied.size done =
      .ok (done ++ middle ++ Volatile.resetCounters lexer before
        (head :: tail)) := by
  have passedEq : copied ++ (middle ++ piece) = copied ++ middle ++ piece :=
    (List.append_assoc _ _ _).symm
  have wholeThen : text = copied ++ (middle ++ piece) ++
      (head :: tail).drop (lexer.taken (head :: tail)) := by
    rw [passedEq, List.append_assoc _ piece, ← pieceEq, List.take_append_drop,
      whole]
  have lagThen (limit : Nat) (above : (copied ++ (middle ++ piece)).size ≤
      limit) :
      lexTo counter text limit reached reachedPlace =
        lexTo counter text limit (lexer.next (head :: tail))
          (copied ++ (middle ++ piece)).size := by
    have sizes : (copied ++ middle).size ≤
        (copied ++ (middle ++ piece)).size := by
      rw [passedEq, size_append _ piece]
      exact Nat.le_add_right _ _
    rw [lag limit (Nat.le_trans sizes above)]
    rw [passedEq, ← pieceEq] at above ⊢
    exact lexTo_next whole tracks above
  rw [← passedEq] at lists
  rw [further wholeThen lists lagThen, resetCounters_next passes, pieceEq]
  simp only [List.append_assoc]

private theorem resetFrom_met {done copied middle : Text} {reached : Lexer}
    {reachedPlace : Nat} (whole : text = copied ++ middle ++ head :: tail)
    (lag : ∀ limit, (copied ++ middle).size ≤ limit →
      lexTo counter text limit reached reachedPlace =
        lexTo counter text limit lexer (copied ++ middle).size) (stop : Nat)
    (places : List (Nat × Nat)) :
    resetFrom counter text (((copied ++ middle).size, stop) :: places) reached
      reachedPlace
        copied.size done =
      if lexer.atTopLevel = true then
        resetFrom counter text places lexer (copied ++ middle).size stop
          (done ++ middle ++ Volatile.zeroCounter)
      else resetFrom counter text places lexer (copied ++ middle).size
        copied.size done := by
  have within : (copied ++ middle).size < text.size := by
    have positive := head.utf8Size_pos
    rw [whole, size_append _ (head :: tail), size_cons]
    omega
  have here : lexTo counter text (copied ++ middle).size reached reachedPlace =
      .ok (lexer, (copied ++ middle).size) := by
    rw [lag _ (Nat.le_refl _)]
    exact walk_stop within (if_pos (Nat.le_refl _))
  have cut := between_append copied middle (head :: tail)
  rw [← List.append_assoc, ← whole] at cut
  simp only [resetFrom, here, Checked.ok_bind, true_and, cut]

theorem Resets.behind {copied matched behind : Text}
    (further : Resets counter text lexer (some '0') behind)
    (tracks : Lexer.Tracks counter True [] lexer (matched ++ behind) True)
    (top : lexer.atTopLevel = true)
    (plain : ∀ character ∈ matched, character ∉ Lexer.openers)
    (whole : text = copied ++ (matched ++ behind)) (done : Text) :
    resetFrom counter text
      (Volatile.counterPlaces (some '0') (copied ++ matched).size behind) lexer
        copied.size (copied ++ matched).size done =
      .ok (done ++ Volatile.resetCounters lexer (some '0') behind) := by
  have wholeThen : text = copied ++ matched ++ [] ++ behind := by
    rw [whole]
    simp only [List.append_assoc, List.nil_append]
  have lists : Volatile.Lists (some '0') (copied ++ matched ++ []).size behind
      (Volatile.counterPlaces (some '0') (copied ++ matched).size behind) := by
    rw [List.append_nil]
    exact .search _ _ rfl
  have along (limit : Nat) (above : (copied ++ matched ++ []).size ≤ limit) :
      lexTo counter text limit lexer copied.size =
        lexTo counter text limit lexer (copied ++ matched ++ []).size := by
    rw [List.append_nil] at above ⊢
    exact lexTo_plains whole tracks top plain above
  have replaced :
      resetFrom counter text _ lexer copied.size (copied ++ matched).size done =
        .ok (done ++ [] ++ Volatile.resetCounters lexer (some '0') behind) :=
    further wholeThen lists along
  rwa [List.append_nil] at replaced

/-- The search over the bytes replaces what the search over the characters
replaces. -/
theorem resets (tracks : Lexer.Tracks counter True [] lexer rest True)
    (before : Option Char) :
    Resets counter text lexer before rest := by
  induction bound : rest.length using Nat.strongRecOn
    generalizing lexer before rest with
  | ind count ih =>
    cases rest with
    | nil => exact resets_nil lexer before
    | cons head tail =>
      intro done copied middle reached reachedPlace places whole lists lag
      obtain ⟨others, pieceEq, noFirst, alone⟩ := taken_spec lexer head tail
      have shorter : ((head :: tail).drop (lexer.taken (head :: tail))).length <
          count :=
        bound ▸ lexer.length_drop_taken_lt head tail
      have further :=
        ih _ shorter (tracks_next tracks) (head :: others).getLast? rfl
      have dropped :
          others ++ (head :: tail).drop (lexer.taken (head :: tail)) =
            tail := by
        have parts :=
          List.take_append_drop (lexer.taken (head :: tail)) (head :: tail)
        rw [pieceEq] at parts
        exact (List.cons.inj parts).2
      cases found : Volatile.counterAt before (head :: tail) with
      | none =>
          have listsThen := lists.behind found
          rw [← dropped] at listsThen
          have behind := listsThen.through noFirst
          rw [← Volatile.getLast?_cons_or, Option.or_none, Nat.add_assoc,
            ← size_cons, ← size_append] at behind
          exact Resets.next pieceEq further tracks (.inr found) whole behind lag
      | some behind =>
          obtain ⟨inner, digit, tailEq, isDigit, noFirstLater, plain⟩ :=
            Volatile.characters_of_afterCounter?
              (Volatile.counterAt_spec found).2
          obtain ⟨matched, matchedEq⟩ : ∃ matched, head :: (inner ++ [digit]) =
            matched := ⟨_, rfl⟩
          have restEq : head :: tail = matched ++ behind := by
            rw [← matchedEq, tailEq, List.cons_append]
          have stopEq :
              (copied ++ middle).size + (size (head :: tail) - size behind) =
                (copied ++ middle ++ matched).size := by
            rw [restEq, size_append matched, Nat.add_sub_cancel,
              size_append _ matched]
          rw [lists.found found, stopEq, resetFrom_met whole lag]
          by_cases top : lexer.atTopLevel = true
          · have shorterBehind : behind.length < count := by
              rw [← bound, restEq, ← matchedEq, List.length_append,
                List.length_cons]
              omega
            rw [if_pos top, resetCounters_counter top found,
              ← List.append_assoc]
            rw [restEq] at whole tracks
            have later := ih _ shorterBehind tracks.skip (some '0') rfl
            exact later.behind tracks top (matchedEq ▸ plain) whole _
          · have inside : lexer.atTopLevel = false := Bool.eq_false_iff.mpr top
            have first := Volatile.isFirstLetter_of_afterCounter?
              (Volatile.counterAt_spec found).2
            obtain rfl : others = [] := alone first
            have behindLetter :
                (head :: tail).drop (lexer.taken (head :: tail)) =
                  inner ++ [digit] ++ behind := dropped.trans tailEq
            have sameWord : endsWord (some '0') =
                endsWord ((inner ++ [digit]).getLast?.or [head].getLast?) := by
              have word : endsWord (some digit) = false := by
                simp [endsWord, isWord_of_isDecimalDigit isDigit]
              rw [List.getLast?_concat, Option.some_or, word]
              decide
            have sizes : (copied ++ middle ++ matched).size =
                (copied ++ middle ++ [head]).size +
                size (inner ++ [digit]) := by
              rw [← size_append, List.append_assoc _ [head],
                List.singleton_append, matchedEq]
            have through :
                Volatile.Lists [head].getLast? (copied ++ middle ++ [head]).size
                ((head :: tail).drop (lexer.taken (head :: tail)))
                (Volatile.counterPlaces (some '0')
                  (copied ++ middle ++ matched).size behind) := by
              rw [behindLetter, sizes]
              exact Volatile.lists_through noFirstLater sameWord
            rw [if_neg top]
            exact Resets.next pieceEq further tracks (.inl inside) whole through
              fun _ _ => rfl

/-- Counters are reset without a fault, and if the comments are counted right,
those are reset that the search over the characters resets. -/
theorem resetCounters_spec (serves : counter.Serves {} text) :
    ∃ result, resetCounters counter text = .ok result ∧
      (counter.Counts {} text →
        Volatile.resetCounters {} none text = result) := by
  have started : Lexer.Tracks counter (counter.Counts {} text) [] {}
      text True :=
    Lexer.Tracks.start serves trivial
  have lexes : Lexes counter {} [] text := started.narrow False.elim
  obtain ⟨result, resultEq⟩ :=
    resetFrom_ok [] text rfl rfl [] [] [] {} [] text rfl rfl lexes
  refine ⟨result, resultEq, fun counts => ?_⟩
  have tracks : Lexer.Tracks counter True [] {} text True :=
    started.narrow fun _ => counts
  have all : Resets counter text {} none text := resets tracks none
  have lists : Volatile.Lists none (size ([] ++ [])) text
      (Volatile.counterPlaces none 0 text) :=
    .search 0 text rfl
  have ideal : resetFrom counter text (Volatile.counterPlaces none 0 text) {} 0
      (size []) [] =
      .ok ([] ++ [] ++ Volatile.resetCounters {} none text) :=
    all rfl lists fun _ _ => rfl
  have same := resultEq.symm.trans ideal
  rw [Except.ok.inj same, List.nil_append, List.nil_append]

end Offset

end SqlDump
