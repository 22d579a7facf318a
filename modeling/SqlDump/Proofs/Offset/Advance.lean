import SqlDump.Proofs.Offset.Lexer

/-!
# Lexing between the characters

In front of a character of ASCII the lexer of the bytes and the lexer of the
characters decide alike, and what they take has as many bytes as characters.  A
longer character is skipped byte by byte.
-/

namespace SqlDump

namespace Text

/-- The bytes of a text begin with a character of ASCII or with a byte of a
longer one. -/
theorem octets_cases (text : Text) :
    (text = [] ∧ octets text = []) ∨
      (∃ head tail, isAscii head = true ∧ text = head :: tail ∧
        octets text = head :: octets tail) ∨
      ∃ head tail octet others, isAscii head = false ∧ isAscii octet = false ∧
        text = head :: tail ∧ octets text = octet :: others := by
  cases text with
  | nil => exact .inl ⟨rfl, rfl⟩
  | cons head tail =>
      right
      rw [octets_cons]
      cases ascii : isAscii head with
      | true =>
          left
          rw [octets_ascii ascii]
          exact ⟨head, tail, ascii, rfl, rfl⟩
      | false =>
          right
          have nonempty : octets [head] ≠ [] := by
            intro empty
            have lengths := length_octets [head]
            have positive := head.utf8Size_pos
            rw [empty, size_cons, size_nil, List.length_nil] at lengths
            omega
          obtain ⟨octet, others, octetsEq⟩ :=
            List.exists_cons_of_ne_nil nonempty
          have wide : isAscii octet = false := by
            apply octets_wide ascii
            rw [octetsEq]
            exact List.mem_cons_self
          rw [octetsEq]
          exact ⟨head, tail, octet, others ++ octets tail, ascii, wide, rfl,
            rfl⟩

theorem octets_of_ascii {text : Text}
    (ascii : ∀ character ∈ text, isAscii character = true) :
    octets text = text := by
  induction text with
  | nil => rfl
  | cons head tail ih =>
      have first : isAscii head = true := ascii head List.mem_cons_self
      have rest : octets tail = tail := ih fun character member =>
        ascii character (List.mem_cons_of_mem head member)
      rw [octets_cons, octets_ascii first, rest]
      rfl

theorem size_of_ascii {text : Text}
    (ascii : ∀ character ∈ text, isAscii character = true) :
    text.size = text.length := by
  rw [← length_octets, octets_of_ascii ascii]

theorem length_le_size (text : Text) : text.length ≤ text.size := by
  induction text with
  | nil => exact Nat.le_refl 0
  | cons head tail ih =>
      have positive := head.utf8Size_pos
      rw [size_cons, List.length_cons]
      omega

theorem takeWhile_octets {keeps : Char → Bool}
    (onlyAscii : ∀ character, keeps character = true → isAscii character = true)
    (text : Text) :
    (octets text).takeWhile keeps = text.takeWhile keeps := by
  induction text with
  | nil => rfl
  | cons head tail ih =>
      obtain ⟨empty, -⟩ | ⟨first, rest, -, split, octetsEq⟩ |
        ⟨first, rest, octet, others, wideFirst, wide, split, octetsEq⟩ :=
          octets_cases (head :: tail)
      · exact absurd empty (List.cons_ne_nil head tail)
      · obtain ⟨rfl, rfl⟩ := List.cons.inj split
        rw [octetsEq, List.takeWhile_cons, List.takeWhile_cons, ih]
      · obtain ⟨rfl, rfl⟩ := List.cons.inj split
        have other {character : Char} (notAscii : isAscii character = false) :
            keeps character = false := by
          rw [Bool.eq_false_iff]
          intro kept
          rw [onlyAscii character kept] at notAscii
          exact absurd notAscii (by decide)
        rw [octetsEq, List.takeWhile_cons, List.takeWhile_cons, other wide,
          other wideFirst]
        rfl

theorem takeWhile_ne_octets {target : Char} (ascii : isAscii target = true)
    (text : Text) :
    text.octets.takeWhile (· != target) =
      octets (text.takeWhile (· != target)) := by
  induction text with
  | nil => rfl
  | cons head tail ih =>
      cases asciiHead : isAscii head with
      | true =>
          rw [octets_cons, octets_ascii asciiHead, List.singleton_append,
            List.takeWhile_cons, List.takeWhile_cons, ih]
          split
          · rw [octets_cons, octets_ascii asciiHead, List.singleton_append]
          · rfl
      | false =>
          have passed : ∀ octet ∈ octets [head], (octet != target) = true := by
            intro octet member
            exact bne_iff_ne.mpr
              (ne_of_wide (octets_wide asciiHead octet member) ascii)
          have kept : (head != target) = true :=
            bne_iff_ne.mpr (ne_of_wide asciiHead ascii)
          rw [octets_cons head tail, List.takeWhile_append_of_pos passed, ih,
            List.takeWhile_cons, if_pos kept, ← octets_cons]

theorem isAscii_of_isDigit {character : Char}
    (digit : character.isDigit = true) :
    isAscii character = true := by
  simp only [Char.isDigit, Bool.and_eq_true, decide_eq_true_eq] at digit
  have above : character.val.toNat ≤ 57 := digit.2
  simp only [isAscii, decide_eq_true_eq, Char.toNat]
  omega

theorem digits_octets (text : Text) :
    (octets text).takeWhile Char.isDigit = text.takeWhile Char.isDigit :=
  takeWhile_octets (fun _ => isAscii_of_isDigit) text

end Text

namespace Lexer

open Text

variable {counter : DepthCounter} {lexer after : Lexer} {atEnd : Bool}
  {front tail text : Text} {head octet : Char} {place : Nat}

/-- The state behind a byte, or a character, that is not ASCII. -/
def behindWide (lexer : Lexer) : Lexer :=
  match lexer.lex with
  | .escaped quote => { lexer with lex := .quoted quote }
  | _ => lexer

private theorem behindWide_behindWide (lexer : Lexer) :
    lexer.behindWide.behindWide = lexer.behindWide := by
  cases lex : lexer.lex <;> simp [behindWide, lex]

theorem step_wide (quoting : lexer.Quoting) (wide : isAscii octet = false)
    (behind : Text) :
    lexer.step atEnd (octet :: behind) = (.skip 1, lexer.behindWide) := by
  have plain : lexer.stepPlain atEnd octet behind = (.skip 1, lexer) := by
    have noQuote : isQuote octet = false := by
      rw [Bool.eq_false_iff]
      exact fun quote =>
        Bool.false_ne_true (wide.symm.trans (isAscii_of_isQuote quote))
    simp [stepPlain, ne_of_wide wide (show isAscii '*' = true by decide),
      ne_of_wide wide (show isAscii '/' = true by decide),
      ne_of_wide wide (show isAscii '#' = true by decide),
      ne_of_wide wide (show isAscii '-' = true by decide),
      ne_of_wide wide (show isAscii '\n' = true by decide), noQuote]
  simp only [step, behindWide]
  cases lex : lexer.lex with
  | quoted quote =>
      have noEnd : octet ≠ quote :=
        ne_of_wide wide (isAscii_of_isQuote (quoting quote (.inl lex)))
      have noEscape : octet ≠ backslash := ne_of_wide wide (by decide)
      simp [noEnd, noEscape]
  | escaped quote => rfl
  | code => exact plain
  | lineComment => exact plain

private theorem stepStar_octets (tail : Text) :
    lexer.stepStar atEnd (octets tail) = lexer.stepStar atEnd tail := by
  obtain ⟨rfl, octetsEq⟩ | ⟨next, rest, -, rfl, octetsEq⟩ |
    ⟨next, rest, octet, others, wideNext, wide, rfl, octetsEq⟩ :=
      octets_cases tail
  · rw [octetsEq]
  · rw [octetsEq]
    rfl
  · have slash : isAscii '/' = true := by decide
    rw [octetsEq]
    simp only [stepStar, ne_of_wide wide slash, ne_of_wide wideNext slash]

private theorem length_digits_octets (text : Text) :
    ((octets text).takeWhile Char.isDigit).length = (octets text).length ↔
      (text.takeWhile Char.isDigit).length = text.length := by
  rw [digits_octets, length_octets]
  have longer := length_le_size text
  have fits := length_takeWhile_le Char.isDigit text
  constructor
  · intro all
    omega
  · intro all
    have whole : text.takeWhile Char.isDigit = text :=
      (List.takeWhile_prefix Char.isDigit).eq_of_length all
    have ascii : ∀ character ∈ text, isAscii character = true := by
      intro character member
      rw [← whole] at member
      exact isAscii_of_isDigit
        (List.all_eq_true.mp List.all_takeWhile character member)
    rw [all, size_of_ascii ascii]

private theorem stepMarker_octets (tail : Text) :
    lexer.stepMarker atEnd (octets tail) = lexer.stepMarker atEnd tail := by
  obtain ⟨rfl, octetsEq⟩ | ⟨next, rest, -, rfl, octetsEq⟩ |
    ⟨next, rest, octet, others, wideNext, wide, rfl, octetsEq⟩ :=
      octets_cases tail
  · rw [octetsEq]
  · rw [octetsEq]
    simp only [stepMarker, length_digits_octets]
    rw [digits_octets]
  · have bang : isAscii '!' = true := by decide
    rw [octetsEq]
    simp only [stepMarker, ne_of_wide wide bang, ne_of_wide wideNext bang,
      if_false]

private theorem stepSlash_octets (tail : Text) :
    lexer.stepSlash atEnd (octets tail) = lexer.stepSlash atEnd tail := by
  obtain ⟨rfl, octetsEq⟩ | ⟨next, rest, -, rfl, octetsEq⟩ |
    ⟨next, rest, octet, others, wideNext, wide, rfl, octetsEq⟩ :=
      octets_cases tail
  · rw [octetsEq]
  · rw [octetsEq]
    simp only [stepSlash, stepMarker_octets]
  · have star : isAscii '*' = true := by decide
    rw [octetsEq]
    simp only [stepSlash, ne_of_wide wide star, ne_of_wide wideNext star,
      if_false]

private theorem stepDash_octets (tail : Text) :
    lexer.stepDash atEnd (octets tail) = lexer.stepDash atEnd tail := by
  obtain ⟨rfl, octetsEq⟩ | ⟨next, rest, -, rfl, octetsEq⟩ |
    ⟨next, rest, octet, others, wideNext, wide, rfl, octetsEq⟩ :=
      octets_cases tail
  · rw [octetsEq]
  · rw [octetsEq]
    simp only [stepDash]
    obtain ⟨rfl, octetsEq⟩ | ⟨third, later, -, rfl, octetsEq⟩ |
      ⟨third, later, octet, others, wideThird, wide, rfl, octetsEq⟩ :=
        octets_cases rest
    · rw [octetsEq]
    · rw [octetsEq]
    · have other {blank : Char} (ascii : isAscii blank = true) : octet ≠ blank ∧
          third ≠ blank :=
        ⟨ne_of_wide wide ascii, ne_of_wide wideThird ascii⟩
      have space := other (show isAscii ' ' = true by decide)
      have tab := other (show isAscii '\t' = true by decide)
      have ret := other (show isAscii '\r' = true by decide)
      have feed := other (show isAscii '\n' = true by decide)
      rw [octetsEq]
      simp only [space, tab, ret, feed, or_self, if_false]
  · have dash : isAscii '-' = true := by decide
    rw [octetsEq]
    simp only [stepDash, ne_of_wide wide dash, ne_of_wide wideNext dash,
      if_false]

private theorem step_octets (ascii : isAscii head = true) (tail : Text) :
    lexer.step atEnd (octets (head :: tail)) =
      lexer.step atEnd (head :: tail) := by
  rw [octets_cons, octets_ascii ascii, List.singleton_append]
  simp only [step, stepPlain, stepStar_octets, stepSlash_octets,
    stepDash_octets]

private theorem size_take_consumed (ascii : isAscii head = true) (tail : Text) :
    size ((head :: tail).take (lexer.step atEnd (head :: tail)).1.consumed) =
      (lexer.step atEnd (head :: tail)).1.consumed := by
  by_cases decided : (lexer.step atEnd (head :: tail)).1 = .needMore
  · rw [decided]
    rfl
  · have fits := lexer.consumed_step_le atEnd (head :: tail)
    have outcome := lexer.outcome_step decided
    generalize lexer.step atEnd (head :: tail) = stepped at outcome fits ⊢
    obtain ⟨taken, after⟩ := stepped
    have pieceAscii : ∀ character ∈ (head :: tail).take taken.consumed,
        isAscii character = true := by
      generalize restEq : head :: tail = input at outcome
      cases outcome with
      | character first rest =>
          obtain ⟨rfl, rfl⟩ := List.cons.inj restEq
          simp [Step.consumed, ascii]
      | dashes code rest => simp [Step.consumed, isAscii]
      | marker top rest => simp [Step.consumed, isAscii]
      | openGuard top digits rest nonempty allDigits =>
          have piece : (guardMarker ++ (digits ++ rest)).take
              (guardMarker.length + digits.length) = guardMarker ++ digits := by
            rw [← List.length_append, ← List.append_assoc, List.take_left]
          simp only [Step.consumed, piece, List.mem_append]
          rintro character (member | member)
          · simp only [guardMarker, List.mem_cons, List.not_mem_nil, or_false]
              at member
            rcases member with rfl | rfl | rfl <;> decide
          · rw [← allDigits] at member
            exact isAscii_of_isDigit
              (List.all_eq_true.mp List.all_takeWhile character member)
      | openPlain code rest => simp [Step.consumed, isAscii]
      | close inside rest => simp [Step.consumed, isAscii]
    rw [size_of_ascii pieceAscii, List.length_take, Nat.min_eq_left fits]

/-- The lexer of the bytes in front of `rest`, with `later` still to come.  If
`faith` holds, all comments are counted, and then it is the lexer of the
characters, for which `same` holds. -/
structure Tracks (counter : DepthCounter) (faith : Prop) (later : Text)
    (lexer : Lexer) (rest : Text) (same : Prop) : Prop where
  quoting : lexer.Quoting
  serves : counter.Serves lexer (rest ++ later)
  faithful : faith → counter.Counts lexer (rest ++ later) ∧ same

/-- What a step of the lexer of the bytes over `input` has in common with that
of the characters. -/
structure Moves (counter : DepthCounter) (faith : Prop) (later : Text)
    (lexer : Lexer) (atEnd : Bool) (input : Text) (same : Prop) (taken : Step)
    (after : Lexer) : Prop where
  taken_eq : (lexer.step atEnd input).1 = taken
  after_eq : taken ≠ .openPlain → after = (lexer.step atEnd input).2
  lex_eq : after.lex = (lexer.step atEnd input).2.lex
  guarded_eq : after.guarded = (lexer.step atEnd input).2.guarded
  step_eq : faith → lexer.step atEnd input = (taken, after)
  tracks : taken ≠ .needMore →
    Tracks counter faith later after (input.drop taken.consumed) same

variable {faith same other : Prop} {later piece rest : Text}

theorem Tracks.start (serves : counter.Serves {} text) (holds : same) :
    Tracks counter (counter.Counts {} text) [] {} text same where
  quoting := quoting_start
  serves := by rwa [List.append_nil]
  faithful := fun counts => ⟨by rwa [List.append_nil], holds⟩

theorem Tracks.of_keeps (quoting : lexer.Quoting)
    (keeps : counter.Keeps faith (lexer.depth + openings text))
    (holds : faith → same) :
    Tracks counter faith [] lexer text same where
  quoting := quoting
  serves := by
    rw [List.append_nil]
    exact keeps.serves
  faithful := fun faithful => by
    rw [List.append_nil]
    exact ⟨keeps.counts faithful, holds faithful⟩

theorem Tracks.imp (tracks : Tracks counter faith later lexer rest same)
    (implies : faith → same → other) :
    Tracks counter faith later lexer rest other :=
  ⟨tracks.quoting, tracks.serves,
    fun holds => (tracks.faithful holds).imp_right (implies holds)⟩

theorem Tracks.narrow {narrower : Prop}
    (tracks : Tracks counter faith later lexer rest same)
    (implies : narrower → faith) :
    Tracks counter narrower later lexer rest same :=
  ⟨tracks.quoting, tracks.serves, fun holds => tracks.faithful (implies holds)⟩

theorem Tracks.skip
    (tracks : Tracks counter faith later lexer (piece ++ rest) same) :
    Tracks counter faith later lexer rest same := by
  have within {text : Text}
      (counts : counter.Counts lexer (piece ++ rest ++ text)) :
      counter.Counts lexer (rest ++ text) := by
    rw [List.append_assoc] at counts
    exact counts.suffix
  exact ⟨tracks.quoting, tracks.serves.imp_right within,
    fun holds => (tracks.faithful holds).imp_left within⟩

theorem behindWide_depth (lexer : Lexer) :
    lexer.behindWide.depth = lexer.depth := by
  cases lex : lexer.lex <;> simp [behindWide, lex]

theorem behindWide_guarded (lexer : Lexer) :
    lexer.behindWide.guarded = lexer.guarded := by
  cases lex : lexer.lex <;> simp [behindWide, lex]

theorem Tracks.wide
    (tracks : Tracks counter faith later lexer (head :: tail) same) :
    Tracks counter faith later lexer.behindWide tail same := by
  have passed : Tracks counter faith later lexer ([head] ++ tail) same := tracks
  have skipped := passed.skip
  refine ⟨?_, ?_, ?_⟩
  · intro quote literal
    cases lex : lexer.lex with
    | escaped mark =>
        have same : mark = quote := by simpa [behindWide, lex] using literal
        exact tracks.quoting quote (.inr (by rw [lex, same]))
    | quoted mark =>
        exact tracks.quoting quote (by simpa [behindWide, lex] using literal)
    | code => simp [behindWide, lex] at literal
    | lineComment => simp [behindWide, lex] at literal
  · rw [DepthCounter.Serves, DepthCounter.Counts, behindWide_depth]
    exact skipped.serves
  · rw [DepthCounter.Counts, behindWide_depth]
    exact skipped.faithful

theorem drop_octets_ascii (ascii : isAscii head = true) :
    (octets (front ++ head :: tail)).drop front.size = head :: octets tail := by
  rw [drop_octets, octets_cons, octets_ascii ascii]
  rfl

/-- The bytes from inside a longer character on. -/
theorem drop_octets_wide (wide : isAscii head = false) (tail : Text)
    (above : front.size ≤ place) (below : place < front.size + head.utf8Size) :
    ∃ octet others, (octets (front ++ head :: tail)).drop place =
      octet :: others ∧
      isAscii octet = false := by
  obtain ⟨inside, rfl⟩ := Nat.exists_eq_add_of_le above
  have within : inside < (octets [head]).length := by
    rw [length_octets, size_cons, size_nil]
    omega
  obtain ⟨octet, others, split⟩ := List.exists_cons_of_ne_nil
    (fun empty => Nat.not_le_of_lt within (List.drop_eq_nil_iff.mp empty) :
      (octets [head]).drop inside ≠ [])
  have first : octet ∈ (octets [head]).drop inside := by
    rw [split]
    exact List.mem_cons_self
  have member : octet ∈ octets [head] := List.mem_of_mem_drop first
  refine ⟨octet, others ++ octets tail, ?_, octets_wide wide octet member⟩
  rw [← List.drop_drop, drop_octets, octets_cons,
    List.drop_append_of_le_length (Nat.le_of_lt within), split,
    List.cons_append]

theorem octetAt_ascii (ascii : isAscii head = true) :
    (octets (front ++ head :: tail)).octetAt front.size = .ok head :=
  octetAt_of_drop (drop_octets_ascii ascii)

theorem Tracks.wideTurn
    (tracks : Tracks counter faith later lexer (head :: tail) same)
    (wide : isAscii head = false) (front : Text) (atEnd : Bool) {state : Lexer}
    (between : state = lexer ∨ state = lexer.behindWide)
    (above : front.size ≤ place) (below : place < front.size + head.utf8Size) :
    ∃ octet, (octets (front ++ head :: tail)).octetAt place = .ok octet ∧
      isAscii octet = false ∧
      state.stepChecked counter (octets (front ++ head :: tail)) place atEnd =
        .ok (.skip 1, lexer.behindWide) := by
  have quoting : state.Quoting := by
    rcases between with rfl | rfl
    · exact tracks.quoting
    · exact (tracks.wide).quoting
  have behind : state.behindWide = lexer.behindWide := by
    rcases between with rfl | rfl
    · rfl
    · exact behindWide_behindWide lexer
  obtain ⟨octet, others, here, wideOctet⟩ :=
    drop_octets_wide wide tail above below
  refine ⟨octet, octetAt_of_drop here, wideOctet, ?_⟩
  rw [stepChecked_eq here, step_wide quoting wideOctet, behind]
  rfl

/-- A longer character is one step of the lexer of the characters. -/
theorem Tracks.wideMoves
    (tracks : Tracks counter faith later lexer (head :: tail) same)
    (wide : isAscii head = false) (atEnd : Bool) :
    Moves counter faith later lexer atEnd (head :: tail) same (.skip 1)
      lexer.behindWide := by
  have stepEq : lexer.step atEnd (head :: tail) = (.skip 1, lexer.behindWide) :=
    step_wide tracks.quoting wide tail
  refine ⟨?_, ?_, ?_, ?_, fun _ => stepEq, fun _ => tracks.wide⟩ <;>
    simp only [stepEq, implies_true]

/-- Turns that skip the bytes of a longer character: the first one may change
the state. -/
theorem Tracks.takes_wide {σ α : Type} {turn : σ → Nat → Checked (Turn σ α)}
    {inv : σ → Text → Text → Prop} {good : α → Prop} {first second : σ}
    (tracks : Tracks counter faith later lexer (head :: tail) same)
    (wide : isAscii head = false) (atEnd : Bool)
    (firstTurn : ∀ octet,
      isAscii octet = false →
      (octets (front ++ head :: tail)).octetAt front.size = .ok octet →
      lexer.stepChecked counter (octets (front ++ head :: tail)) front.size
        atEnd = .ok (.skip 1,
      lexer.behindWide) → turn first front.size = .ok (.goOn second 1))
    (laterTurn : ∀ octet place,
      front.size < place → place < front.size + head.utf8Size →
      isAscii octet = false →
        (octets (front ++ head :: tail)).octetAt place = .ok octet →
      lexer.behindWide.stepChecked counter (octets (front ++ head :: tail))
        place atEnd = .ok (.skip 1, lexer.behindWide) →
        turn second place =
          .ok (.goOn second 1)) (keeps : inv second (front ++ [head]) tail) :
    Takes turn inv good first front (head :: tail) := by
  have positive := head.utf8Size_pos
  apply Takes.character second
  · obtain ⟨octet, found, wideOctet, stepped⟩ :=
      tracks.wideTurn wide front atEnd (.inl rfl) (Nat.le_refl _) (by omega)
    exact firstTurn octet wideOctet found stepped
  · intro place above below
    obtain ⟨octet, found, wideOctet, stepped⟩ :=
      tracks.wideTurn wide front atEnd (.inr rfl) (Nat.le_of_lt above) below
    exact laterTurn octet place above below wideOctet found stepped
  · exact keeps

/-- A counted step takes what the step takes, and if its comment is counted it
is the step. -/
theorem counted_spec {input : Text} {taken : Step} {ideal : Lexer}
    (stepped : lexer.step atEnd input = (taken, ideal))
    (serves : counter.Serves lexer (input ++ later)) :
    ∃ after, lexer.counted counter (taken, ideal) = .ok (taken, after) ∧
      (taken ≠ .openPlain → after = ideal) ∧ after.lex = ideal.lex ∧
      after.guarded = ideal.guarded ∧
      (counter.Counts lexer (input ++ later) → after = ideal) := by
  by_cases opens : taken = .openPlain
  · subst opens
    have outcome := outcome_of_step stepped (by decide)
    generalize inputEq : input = rest at outcome
    cases outcome with
    | openPlain code tail noMark =>
        subst inputEq
        have positive : lexer.depth <
            lexer.depth + openings ('/' :: '*' :: tail ++ later) := by
          rw [List.cons_append, List.cons_append, openings_marker]
          omega
        have counts (all : counter.Counts lexer ('/' :: '*' :: tail ++ later)) :
            counter lexer.depth = .ok (lexer.depth + 1) :=
          all lexer.depth positive
        have counted : ∃ depth, counter lexer.depth = .ok depth := by
          rcases serves with total | all
          · exact total lexer.depth
          · exact ⟨_, counts all⟩
        obtain ⟨depth, depthEq⟩ := counted
        refine ⟨{ lexer with depth := depth }, ?_, (absurd rfl ·), rfl, rfl, ?_⟩
        · simp only [counted, openChecked, depthEq, Checked.ok_bind]
        · intro all
          have same := depthEq.symm.trans (counts all)
          rw [Except.ok.inj same]
          rfl
  · refine ⟨ideal, ?_, fun _ => rfl, rfl, rfl, fun _ => rfl⟩
    cases taken with
    | openPlain => exact absurd rfl opens
    | _ => rfl

theorem Tracks.step
    (tracks : Tracks counter faith later lexer (head :: tail) same)
    (ascii : isAscii head = true) (front : Text) (atEnd : Bool) :
    ∃ taken after,
      lexer.stepChecked counter (octets (front ++ head :: tail)) front.size
        atEnd =
        .ok (taken, after) ∧
      size ((head :: tail).take taken.consumed) = taken.consumed ∧
      Moves counter faith later lexer atEnd (head :: tail) same
        taken after := by
  have octetsEq : octets (head :: tail) = head :: octets tail := by
    rw [octets_cons, octets_ascii ascii]
    rfl
  have sizeEq :
      size ((head :: tail).take (lexer.step atEnd (head :: tail)).1.consumed) =
        (lexer.step atEnd (head :: tail)).1.consumed :=
          size_take_consumed ascii tail
  rw [stepChecked_eq (drop_octets_ascii ascii), ← octetsEq, step_octets ascii]
  rcases steppedEq : lexer.step atEnd (head :: tail) with ⟨taken, ideal⟩
  rw [steppedEq] at sizeEq
  obtain ⟨after, countedEq, others, lex, guarded, exactly⟩ :=
    counted_spec steppedEq tracks.serves
  refine ⟨taken, after, countedEq, sizeEq, ?_, ?_, ?_, ?_, ?_, ?_⟩
  · rw [steppedEq]
  · rwa [steppedEq]
  · rw [steppedEq, lex]
  · rw [steppedEq, guarded]
  · intro holds
    rw [steppedEq, exactly (tracks.faithful holds).1]
  · intro decided
    have outcome := outcome_of_step steppedEq decided
    have counts (all : counter.Counts lexer (head :: tail ++ later)) :
        counter.Counts after ((head :: tail).drop taken.consumed ++ later) := by
      rw [exactly all]
      exact all.mono (outcome.depth_add_openings_le later)
    exact ⟨(outcome.quoting tracks.quoting).of_lex lex,
      tracks.serves.imp_right counts,
      fun holds => (tracks.faithful holds).imp_left counts⟩

section

variable {input : Text} {taken : Step}

theorem Moves.consumed_le
    (moves : Moves counter faith later lexer atEnd input same taken after) :
    taken.consumed ≤ input.length :=
  moves.taken_eq ▸ lexer.consumed_step_le atEnd input

theorem Moves.consumed_pos
    (moves : Moves counter faith later lexer atEnd input same taken after)
    (decided : taken ≠ .needMore) : 0 < taken.consumed := by
  have progress := lexer.step_eq_needMore_or_consumed_pos atEnd input
  rw [moves.taken_eq] at progress
  exact progress.resolve_left decided

/-- At the end of the text every step is decided. -/
theorem Moves.decided
    (moves : Moves counter faith later lexer true (head :: tail) same taken
        after) :
    taken ≠ .needMore := by
  intro waits
  have progress := lexer.taken_pos head tail
  rw [Lexer.taken, moves.taken_eq, waits] at progress
  exact Nat.lt_irrefl 0 progress

theorem Moves.outcome
    (moves : Moves counter faith later lexer atEnd input same taken after)
    (decided : taken ≠ .needMore) :
    Outcome lexer input taken (lexer.step atEnd input).2 := by
  have stepDecided : (lexer.step atEnd input).1 ≠ .needMore := by
    rwa [moves.taken_eq]
  have outcome := lexer.outcome_step stepDecided
  rwa [moves.taken_eq] at outcome

theorem Moves.next_eq
    (moves : Moves counter faith later lexer true input same taken after)
    (holds : faith) :
    lexer.taken input = taken.consumed ∧ lexer.next input = after := by
  rw [Lexer.taken, Lexer.next, moves.step_eq holds]
  exact ⟨rfl, rfl⟩

theorem wide_eq (quoting : lexer.Quoting) (wide : isAscii head = false)
    (tail : Text) :
    lexer.taken (head :: tail) = 1 ∧
      lexer.next (head :: tail) = lexer.behindWide := by
  rw [Lexer.taken, Lexer.next, step_wide quoting wide]
  exact ⟨rfl, rfl⟩

theorem atTopLevel_behindWide (lexer : Lexer) :
    lexer.behindWide.atTopLevel = lexer.atTopLevel := by
  cases lex : lexer.lex with
  | escaped quote =>
      have other (mark : Lex) (literal : mark ≠ .code) :
          (mark == Lex.code) = false :=
        beq_eq_false_iff_ne.mpr literal
      simp only [behindWide, atTopLevel, lex]
      rw [other (.quoted quote) (by simp), other (.escaped quote) (by simp)]
  | _ => simp [behindWide, atTopLevel, lex]

end

end Lexer

end SqlDump
