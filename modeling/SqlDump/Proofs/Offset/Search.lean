import SqlDump.Lexer.Trivia
import SqlDump.Lexer.TopLevel
import SqlDump.Proofs.Offset.Advance
import SqlDump.Proofs.Text.Letter

/-!
# Searching by bytes

The searches that return a byte offset: the first token of a text, a byte in
top-level code and the parenthesis that closes another.  Each offset lies
between two characters, and if the comments are counted right it is where the
search over characters ends.
-/

namespace SqlDump

open Text

variable {counter : DepthCounter} {text front tail : Text} {lexer : Lexer}
  {head octet : Char}

theorem isAscii_of_isAsciiBlank {character : Char}
    (blank : isAsciiBlank character = true) :
    isAscii character = true := by
  simp only [isAsciiBlank, Bool.or_eq_true, beq_iff_eq] at blank
  rcases blank with (((rfl | rfl) | rfl) | rfl) | rfl <;> decide

theorem isAsciiBlank_wide {character : Char}
    (wide : isAscii character = false) :
    isAsciiBlank character = false := by
  rw [Bool.eq_false_iff]
  intro blank
  rw [isAscii_of_isAsciiBlank blank] at wide
  exact Bool.false_ne_true wide.symm

namespace Offset

def triviaTurn (counter : DepthCounter) (octets : Text) (lexer : Lexer)
    (place : Nat) :
    Checked (Turn Lexer Nat) := do
  let octet ← octets.octetAt place
  if lexer.atTopLevel && isAsciiBlank octet then .ok (.goOn lexer 1)
  else do
    let (taken, after) ← lexer.stepChecked counter octets place true
    if lexer.atTopLevel && !Lexer.beginsComment (taken, after) then
      .ok (.stop place)
    else .ok (.goOn after taken.consumed)

def statementOffset (counter : DepthCounter) (text : Text) : Checked Nat :=
  walk text.size (triviaTurn counter text.octets) (fun _ _ => text.size) {} 0

/-- The lexer of the bytes is in front of `rest`, and the trivia go on as those
of the text do. -/
def InTrivia (counter : DepthCounter) (text : Text) (lexer : Lexer)
    (front rest : Text) : Prop :=
  Lexer.Tracks counter (counter.Counts {} text) [] lexer rest
    (front.length + lexer.triviaLength rest = SqlDump.statementOffset text)

def IsTrivia (counter : DepthCounter) (text : Text) (offset : Nat) : Prop :=
  ∃ lead rest, text = lead ++ rest ∧ offset = lead.size ∧
    (counter.Counts {} text → lead.length = SqlDump.statementOffset text)

theorem inTrivia_further {taken : Step} {after : Lexer}
    (moves : Lexer.Moves counter (counter.Counts {} text) [] lexer true
        (head :: tail) (front.length + lexer.triviaLength (head :: tail) =
        SqlDump.statementOffset text) taken after)
    (noBlank : ¬(lexer.atTopLevel && isAsciiBlank head) = true)
    (noToken : ¬(lexer.atTopLevel && !Lexer.beginsComment (taken, after)) =
        true) :
    InTrivia counter text after (front ++ (head :: tail).take taken.consumed)
      ((head :: tail).drop taken.consumed) := by
  apply (moves.tracks moves.decided).imp
  intro counts same
  obtain ⟨takenEq, nextEq⟩ := moves.next_eq counts
  rw [Lexer.triviaLength, if_neg noBlank, moves.step_eq counts, if_neg noToken,
    takenEq, nextEq] at same
  rw [List.length_append, List.length_take, Nat.min_eq_left moves.consumed_le,
    Nat.add_assoc]
  exact same

private theorem takes_trivia (whole : text = front ++ head :: tail)
    (inTrivia : InTrivia counter text lexer front (head :: tail)) :
    Takes (triviaTurn counter text.octets) (InTrivia counter text)
      (IsTrivia counter text) lexer
      front (head :: tail) := by
  have here (token : counter.Counts {} text →
      lexer.triviaLength (head :: tail) = 0) :
      IsTrivia counter text front.size := by
    refine ⟨front, head :: tail, whole, rfl, fun counts => ?_⟩
    have same := (inTrivia.faithful counts).2
    rw [token counts, Nat.add_zero] at same
    exact same
  subst whole
  cases ascii : isAscii head with
  | false =>
      have moves := inTrivia.wideMoves ascii true
      have noBlank : ¬(lexer.atTopLevel && isAsciiBlank head) = true := by
        simp [isAsciiBlank_wide ascii]
      by_cases token :
          (lexer.atTopLevel &&
            !Lexer.beginsComment (.skip 1, lexer.behindWide)) = true
      · obtain ⟨octet, found, wideOctet, stepped⟩ :=
          inTrivia.wideTurn ascii front true (.inl rfl)
          (Nat.le_refl _) (Nat.lt_add_of_pos_right head.utf8Size_pos)
        apply Takes.stop front.size _ (here _)
        · simp only [triviaTurn, found, stepped, Checked.ok_bind,
            isAsciiBlank_wide wideOctet, Bool.and_false, Bool.false_eq_true,
            if_false, if_pos token]
        · intro counts
          rw [Lexer.triviaLength, if_neg noBlank, moves.step_eq counts,
            if_pos token]
      · have inside : ¬(lexer.behindWide.atTopLevel &&
            !Lexer.beginsComment (.skip 1, lexer.behindWide)) = true := by
          rwa [Lexer.atTopLevel_behindWide]
        apply inTrivia.takes_wide ascii true _ _
          (inTrivia_further moves noBlank token)
        · intro octet wideOctet found stepped
          simp only [triviaTurn, found, stepped, Checked.ok_bind,
            isAsciiBlank_wide wideOctet, Bool.and_false, Bool.false_eq_true,
            if_false, if_neg token]
          rfl
        · intro octet place _ _ wideOctet found stepped
          simp only [triviaTurn, found, stepped, Checked.ok_bind,
            isAsciiBlank_wide wideOctet, Bool.and_false, Bool.false_eq_true,
            if_false, if_neg inside]
          rfl
  | true =>
      have found : (octets (front ++ head :: tail)).octetAt front.size =
          .ok head :=
        Lexer.octetAt_ascii ascii
      obtain ⟨taken, after, stepped, sizeEq, moves⟩ :=
        inTrivia.step ascii front true
      by_cases blank : (lexer.atTopLevel && isAsciiBlank head) = true
      · have passed : InTrivia counter (front ++ head :: tail) lexer
            (front ++ [head]) tail := by
          have skipped :
              Lexer.Tracks counter (counter.Counts {} (front ++ head :: tail))
                [] lexer
              ([head] ++ tail)
                (front.length + lexer.triviaLength (head :: tail) =
                SqlDump.statementOffset (front ++ head :: tail)) := inTrivia
          apply skipped.skip.imp
          intro _ same
          rw [Lexer.triviaLength, if_pos blank] at same
          rw [List.length_append, List.length_singleton, Nat.add_assoc]
          exact same
        apply Takes.ofCount Nat.one_pos _ _ passed
        · exact size_of_ascii (by simpa using ascii)
        · simp only [triviaTurn, found, Checked.ok_bind, if_pos blank]
      · by_cases token :
          (lexer.atTopLevel && !Lexer.beginsComment (taken, after)) = true
        · apply Takes.stop front.size _ (here _)
          · simp only [triviaTurn, found, stepped, Checked.ok_bind,
            if_neg blank, if_pos token]
          · intro counts
            rw [Lexer.triviaLength, if_neg blank, moves.step_eq counts,
              if_pos token]
        · apply Takes.ofCount (moves.consumed_pos moves.decided) sizeEq _
            (inTrivia_further moves blank token)
          simp only [triviaTurn, found, stepped, Checked.ok_bind, if_neg blank,
            if_neg token]

theorem statementOffset_spec (serves : counter.Serves {} text) :
    ∃ lead rest, text = lead ++ rest ∧
      statementOffset counter text = .ok lead.size ∧
      (counter.Counts {} text →
        lead.length = SqlDump.statementOffset text) := by
  have start : InTrivia counter text {} [] text := by
    apply Lexer.Tracks.start serves
    rw [List.length_nil, Nat.zero_add]
    rfl
  have ends (lexer : Lexer) (done : InTrivia counter text lexer text []) :
      IsTrivia counter text text.size := by
    refine ⟨text, [], (List.append_nil text).symm, rfl, fun counts => ?_⟩
    have same := (done.faithful counts).2
    rwa [Lexer.triviaLength, Nat.add_zero] at same
  have walked : ∃ offset, statementOffset counter text = .ok offset ∧
      IsTrivia counter text offset :=
    walk_spec ends (fun _ _ _ _ => takes_trivia) {} [] text
      (List.nil_append text).symm start
  obtain ⟨offset, offsetEq, lead, rest, whole, rfl, same⟩ := walked
  exact ⟨lead, rest, whole, offsetEq, same⟩

def isWordCharacter (character : Char) : Bool :=
  character.isAlpha || character == '_'

def leadingWord (text : Text) : Checked Text :=
  text.upTo (text.octets.takeWhile isWordCharacter).length

theorem isAscii_of_isWordCharacter {character : Char}
    (word : isWordCharacter character = true) :
    isAscii character = true := by
  rw [isAscii, decide_eq_true_eq]
  rcases (Bool.or_eq_true _ _).mp word with letter | underscore
  · rcases (Bool.or_eq_true _ _).mp letter with upper | lower
    · have bounds := toNat_of_isUpper upper
      omega
    · have bounds := toNat_of_isLower lower
      omega
  · rw [beq_iff_eq.mp underscore]
    decide

theorem leadingWord_spec (text : Text) :
    leadingWord text = .ok (SqlDump.leadingWord text) := by
  have parts : SqlDump.leadingWord text ++ text.dropWhile isWordCharacter =
      text :=
    List.takeWhile_append_dropWhile
  have ascii : ∀ character ∈ SqlDump.leadingWord text,
      isAscii character = true :=
    fun character member =>
      isAscii_of_isWordCharacter
        (List.all_eq_true.mp List.all_takeWhile character member)
  have lengths : (text.octets.takeWhile isWordCharacter).length =
      (SqlDump.leadingWord text).size := by
    rw [takeWhile_octets (fun _ => isAscii_of_isWordCharacter),
      size_of_ascii ascii]
    rfl
  have cut :=
    upTo_append (SqlDump.leadingWord text) (text.dropWhile isWordCharacter)
  rw [leadingWord, lengths]
  rwa [parts] at cut

def findTurn (counter : DepthCounter) (octets : Text) (target : Char)
    (lexer : Lexer) (place : Nat) : Checked (Turn Lexer (Option Nat)) := do
  let octet ← octets.octetAt place
  if lexer.atTopLevel && octet == target then .ok (.stop (some place))
  else do
    let (taken, after) ← lexer.stepChecked counter octets place true
    .ok (.goOn after taken.consumed)

/-- Byte offset of the first `target` in top-level code. -/
def findTopLevel? (counter : DepthCounter) (target : Char) (text : Text) :
    Checked (Option Nat) :=
  walk text.size (findTurn counter text.octets target) (fun _ _ => none) {} 0

/-- The search from here on finds what the search over the characters finds. -/
def InSearch (counter : DepthCounter) (target : Char) (text : Text)
    (lexer : Lexer) (front rest : Text) : Prop :=
  Lexer.Tracks counter (counter.Counts {} text) [] lexer rest
    ((lexer.find? target rest).map (front.length + ·) =
        SqlDump.findTopLevel? target text)

def IsFound (counter : DepthCounter) (target : Char) (text : Text)
    (answer : Option Nat) : Prop :=
  ∃ found : Option Text, answer = found.map size ∧
    (∀ lead, found = some lead → ∃ rest, text = lead ++ target :: rest) ∧
    (counter.Counts {} text →
        SqlDump.findTopLevel? target text = found.map List.length)

theorem inSearch_further {target : Char} {taken : Step} {after : Lexer}
    (moves : Lexer.Moves counter (counter.Counts {} text) [] lexer true
        (head :: tail) ((lexer.find? target (head :: tail)).map
        (front.length + ·) = SqlDump.findTopLevel? target text) taken after)
    (other : ¬(lexer.atTopLevel && head == target) = true) :
    InSearch counter target text after
      (front ++ (head :: tail).take taken.consumed)
      ((head :: tail).drop taken.consumed) := by
  apply (moves.tracks moves.decided).imp
  intro counts same
  obtain ⟨takenEq, nextEq⟩ := moves.next_eq counts
  rw [Lexer.find?, if_neg other, takenEq, nextEq, Option.map_map] at same
  rw [← same, List.length_append, List.length_take,
    Nat.min_eq_left moves.consumed_le]
  congr 1
  funext count
  exact Nat.add_assoc _ _ _

private theorem takes_search {target : Char}
    (asciiTarget : isAscii target = true) (whole : text = front ++ head :: tail)
    (inSearch : InSearch counter target text lexer front (head :: tail)) :
    Takes (findTurn counter text.octets target) (InSearch counter target text)
      (IsFound counter target text) lexer front (head :: tail) := by
  cases ascii : isAscii head with
  | false =>
      have otherThan {character : Char} (wide : isAscii character = false)
          (state : Lexer) :
          ¬(state.atTopLevel && character == target) = true := by
        have differs := ne_of_wide wide asciiTarget
        simp [differs]
      have moves := inSearch.wideMoves ascii true
      subst whole
      apply inSearch.takes_wide ascii true _ _
        (inSearch_further moves (otherThan ascii lexer))
      · intro octet wideOctet found stepped
        simp only [findTurn, found, stepped, Checked.ok_bind,
          if_neg (otherThan wideOctet _)]
        rfl
      · intro octet place _ _ wideOctet found stepped
        simp only [findTurn, found, stepped, Checked.ok_bind,
          if_neg (otherThan wideOctet _)]
        rfl
  | true =>
      subst whole
      have found : (octets (front ++ head :: tail)).octetAt front.size =
          .ok head :=
        Lexer.octetAt_ascii ascii
      by_cases here : (lexer.atTopLevel && head == target) = true
      · apply Takes.stop (some front.size)
        · simp only [findTurn, found, Checked.ok_bind, if_pos here]
        · have sameHead : head = target := by
            rw [Bool.and_eq_true, beq_iff_eq] at here
            exact here.2
          refine ⟨some front, rfl, ?_, ?_⟩
          · rintro lead ⟨rfl⟩
            exact ⟨tail, by rw [sameHead]⟩
          · intro counts
            have same := (inSearch.faithful counts).2
            rw [Lexer.find?, if_pos here] at same
            exact same.symm
      · obtain ⟨taken, after, stepped, sizeEq, moves⟩ :=
          inSearch.step ascii front true
        apply Takes.ofCount (moves.consumed_pos moves.decided) sizeEq _
          (inSearch_further moves here)
        simp only [findTurn, found, stepped, Checked.ok_bind, if_neg here]

theorem findTopLevel?_spec {target : Char} (asciiTarget : isAscii target = true)
    (serves : counter.Serves {} text) :
    ∃ found : Option Text, findTopLevel? counter target text =
      .ok (found.map size) ∧
      (∀ lead, found = some lead → ∃ rest, text = lead ++ target :: rest) ∧
      (counter.Counts {} text →
        SqlDump.findTopLevel? target text = found.map List.length) := by
  have start : InSearch counter target text {} [] text := by
    apply Lexer.Tracks.start serves
    simp only [List.length_nil, Nat.zero_add, Option.map_id']
    rfl
  have ends (lexer : Lexer)
      (done : InSearch counter target text lexer text []) :
      IsFound counter target text none := by
    refine ⟨none, rfl, by simp, fun counts => ?_⟩
    have same := (done.faithful counts).2
    rw [Lexer.find?] at same
    exact same.symm
  have walked : ∃ answer, findTopLevel? counter target text = .ok answer ∧
      IsFound counter target text answer :=
    walk_spec ends (fun _ _ _ _ => takes_search asciiTarget) {} [] text
      (List.nil_append text).symm start
  obtain ⟨answer, answerEq, found, rfl, splits, same⟩ := walked
  exact ⟨found, answerEq, splits, same⟩

/-- The number of open parentheses behind a byte. -/
def depthBehind (lexer : Lexer) (depth : Nat) (octet : Char) : Checked Nat :=
  if lexer.atTopLevel && octet == '(' then .ok (depth + 1)
  else if lexer.atTopLevel && octet == ')' then Checked.minus depth 1
  else .ok depth

def closingTurn (counter : DepthCounter) (octets : Text) (state : Lexer × Nat)
    (place : Nat) :
    Checked (Turn (Lexer × Nat) (Option Nat)) := do
  let octet ← octets.octetAt place
  let depth ← depthBehind state.1 state.2 octet
  if state.1.atTopLevel && octet == ')' && depth == 0 then
    .ok (.stop (some place))
  else do
    let (taken, after) ← state.1.stepChecked counter octets place true
    .ok (.goOn (after, depth) taken.consumed)

def matchingParenthesis? (counter : DepthCounter) (text : Text)
    (opening : Nat) : Checked (Option Nat) :=
  walk text.size (closingTurn counter text.octets) (fun _ _ => none)
    ({}, 0) opening

/-- Inside the parentheses that `list` opens behind `lead`.  Only the first
character is met outside of them, and it opens one. -/
structure InList (counter : DepthCounter) (lead list : Text)
    (state : Lexer × Nat) (front rest : Text) : Prop where
  seen : ∃ columns, front = lead ++ columns ∧ list = columns ++ rest
  inside : 0 < state.2 ∨ (state.1.atTopLevel = true ∧ rest.head? = some '(')
  tracks : Lexer.Tracks counter (counter.Counts {} list) [] state.1 rest
    ((state.1.findClosing? state.2 rest).map (front.length + ·) =
      (SqlDump.matchingParenthesis? list).map (lead.length + ·))

def IsClosing (counter : DepthCounter) (lead list : Text)
    (answer : Option Nat) : Prop :=
  ∃ found : Option Text,
    answer = found.map (fun columns => size (lead ++ columns)) ∧
    (∀ columns, found = some columns → ∃ rest, list = columns ++ ')' :: rest) ∧
    (counter.Counts {} list →
        SqlDump.matchingParenthesis? list = found.map List.length)

/-- The depth does not fall below zero, since the first parenthesis opens. -/
theorem depthBehind_spec {depth : Nat}
    (inside : 0 < depth ∨ (lexer.atTopLevel = true ∧ head = '(')) :
    ∃ inner, depthBehind lexer depth head = .ok inner ∧
      inner = (if lexer.atTopLevel && head == '(' then depth + 1
        else if lexer.atTopLevel && head == ')' then depth - 1 else depth) ∧
      ((lexer.atTopLevel && head == ')' && inner == 0) =
        (lexer.atTopLevel && head == ')' && decide (depth ≤ 1))) ∧
      ((lexer.atTopLevel && head == ')' && inner == 0) = false →
        0 < inner) := by
  unfold depthBehind
  by_cases opens : (lexer.atTopLevel && head == '(') = true
  · have noClose : (head == ')') = false := by
      simp only [Bool.and_eq_true, beq_iff_eq] at opens
      rw [opens.2]
      decide
    simp [opens, noClose]
  · have positive : 0 < depth := inside.resolve_right fun first =>
      opens (by simp [first])
    by_cases closes : (lexer.atTopLevel && head == ')') = true
    · simp only [if_neg opens, Checked.minus, closes, Bool.true_and]
      refine ⟨depth - 1, if_pos positive, rfl, ?_, ?_⟩
      · rw [Bool.eq_iff_iff, beq_iff_eq, decide_eq_true_eq]
        omega
      · rw [beq_eq_false_iff_ne]
        omega
    · have noClose := eq_false_of_ne_true closes
      simp [opens, noClose, positive]

theorem beq_closing_wide (wide : isAscii octet = false) :
    (octet == ')') = false :=
  beq_eq_false_iff_ne.mpr (ne_of_wide wide (by decide))

theorem depthBehind_wide (lexer : Lexer) (depth : Nat)
    (wide : isAscii octet = false) :
    depthBehind lexer depth octet = .ok depth := by
  have noOpening : (octet == '(') = false :=
    beq_eq_false_iff_ne.mpr (ne_of_wide wide (by decide))
  simp [depthBehind, noOpening, beq_closing_wide wide]

theorem findClosing?_further {lead list : Text} {state : Lexer × Nat}
    {inner : Nat} {taken : Step} {after : Lexer}
    (inList : InList counter lead list state front (head :: tail))
    (moves : Lexer.Moves counter (counter.Counts {} list) [] state.1 true
        (head :: tail) ((state.1.findClosing? state.2 (head :: tail)).map
        (front.length + ·) = (SqlDump.matchingParenthesis? list).map
        (lead.length + ·)) taken after)
    (innerEq : inner = (if state.1.atTopLevel && head == '(' then state.2 + 1
      else if state.1.atTopLevel && head == ')' then state.2 - 1 else state.2))
    (goesOn : (state.1.atTopLevel && head == ')' && decide (state.2 ≤ 1)) =
        false) (positive : 0 < inner) :
    InList counter lead list (after, inner)
      (front ++ (head :: tail).take taken.consumed)
      ((head :: tail).drop taken.consumed) := by
  obtain ⟨columns, frontEq, listEq⟩ := inList.seen
  refine ⟨⟨columns ++ (head :: tail).take taken.consumed, ?_, ?_⟩,
    .inl positive, ?_⟩
  · rw [frontEq, List.append_assoc]
  · rw [listEq, List.append_assoc, List.take_append_drop]
  · apply (moves.tracks moves.decided).imp
    intro counts same
    obtain ⟨takenEq, nextEq⟩ := moves.next_eq counts
    rw [Lexer.findClosing?, if_neg (by rw [goesOn]; exact Bool.false_ne_true),
      takenEq, nextEq, Option.map_map] at same
    rw [← same, List.length_append, List.length_take,
      Nat.min_eq_left moves.consumed_le, innerEq]
    congr 1
    funext count
    exact Nat.add_assoc _ _ _

private theorem takes_list {lead list : Text} {state : Lexer × Nat}
    (whole : text = front ++ head :: tail)
    (inList : InList counter lead list state front (head :: tail)) :
    Takes (closingTurn counter text.octets) (InList counter lead list)
      (IsClosing counter lead list) state front (head :: tail) := by
  have inside : 0 < state.2 ∨ (state.1.atTopLevel = true ∧ head = '(') := by
    simpa using inList.inside
  obtain ⟨inner, depthEq, innerEq, stops, goesOn⟩ := depthBehind_spec inside
  subst whole
  cases ascii : isAscii head with
  | false =>
      have moves := inList.tracks.wideMoves ascii true
      have noClosing := beq_closing_wide ascii
      have same : inner = state.2 :=
        Except.ok.inj
          (depthEq.symm.trans (depthBehind_wide state.1 state.2 ascii))
      have further :=
        findClosing?_further inList moves innerEq (by simp [noClosing])
        (goesOn (by simp [noClosing]))
      rw [same] at further
      apply inList.tracks.takes_wide ascii true _ _ further
      · intro octet wideOctet octetFound stepped
        simp only [closingTurn, octetFound, stepped, Checked.ok_bind,
          depthBehind_wide _ _ wideOctet, beq_closing_wide wideOctet,
          Bool.and_false, Bool.false_and, Bool.false_eq_true, if_false]
        rfl
      · intro octet place _ _ wideOctet octetFound stepped
        simp only [closingTurn, octetFound, stepped, Checked.ok_bind,
          depthBehind_wide _ _ wideOctet, beq_closing_wide wideOctet,
          Bool.and_false, Bool.false_and, Bool.false_eq_true, if_false]
        rfl
  | true =>
      have found : (octets (front ++ head :: tail)).octetAt front.size =
          .ok head :=
        Lexer.octetAt_ascii ascii
      by_cases here : (state.1.atTopLevel && head == ')' && inner == 0) = true
      · apply Takes.stop (some front.size)
        · simp only [closingTurn, found, depthEq, Checked.ok_bind, if_pos here]
        · have closes : head = ')' := by
            simp only [Bool.and_eq_true, beq_iff_eq] at here
            exact here.1.2
          obtain ⟨columns, rfl, listEq⟩ := inList.seen
          refine ⟨some columns, rfl, ?_, ?_⟩
          · rintro _ ⟨rfl⟩
            exact ⟨tail, by rw [listEq, closes]⟩
          · intro counts
            have same := (inList.tracks.faithful counts).2
            rw [stops] at here
            rw [Lexer.findClosing?, if_pos here] at same
            obtain ⟨count, countEq, sum⟩ := Option.map_eq_some_iff.mp same.symm
            simp only [List.length_append, Nat.add_zero] at sum
            rw [countEq, Nat.add_left_cancel sum]
            rfl
      · obtain ⟨taken, after, stepped, sizeEq, moves⟩ :=
          inList.tracks.step ascii front true
        have open_ := eq_false_of_ne_true here
        apply Takes.ofCount (moves.consumed_pos moves.decided) sizeEq _
          (findClosing?_further inList moves innerEq (stops ▸ open_)
              (goesOn open_))
        simp only [closingTurn, found, depthEq, stepped, Checked.ok_bind,
          if_neg here]

theorem matchingParenthesis?_spec (lead columns : Text)
    (serves : counter.Serves {} ('(' :: columns)) :
    ∃ found : Option Text,
      matchingParenthesis? counter (lead ++ '(' :: columns) lead.size =
        .ok (found.map fun list => size (lead ++ list)) ∧
      (∀ list, found = some list → ∃ rest,
        '(' :: columns = list ++ ')' :: rest) ∧
      (counter.Counts {} ('(' :: columns) →
        SqlDump.matchingParenthesis? ('(' :: columns) =
          found.map List.length) := by
  have start : InList counter lead ('(' :: columns) ({}, 0) lead
      ('(' :: columns) := by
    refine ⟨⟨[], (List.append_nil lead).symm, rfl⟩, .inr ⟨rfl, rfl⟩, ?_⟩
    exact Lexer.Tracks.start serves rfl
  have ends (state : Lexer × Nat)
      (done : InList counter lead ('(' :: columns) state
      (lead ++ '(' :: columns) []) :
        IsClosing counter lead ('(' :: columns) none := by
    refine ⟨none, rfl, by simp, fun counts => ?_⟩
    have same := (done.tracks.faithful counts).2
    rw [Lexer.findClosing?] at same
    exact Option.map_eq_none_iff.mp same.symm
  have walked : ∃ answer,
      matchingParenthesis? counter (lead ++ '(' :: columns) lead.size =
        .ok answer ∧
        IsClosing counter lead ('(' :: columns) answer :=
    walk_spec ends (fun _ _ _ _ => takes_list) ({}, 0) lead ('(' :: columns) rfl
      start
  obtain ⟨answer, answerEq, found, rfl, splits, same⟩ := walked
  exact ⟨found, answerEq, splits, same⟩

end Offset

end SqlDump
