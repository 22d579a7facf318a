import SqlDump.Proofs.Lexer.Trivia

/-!
# Trivia or a token

At the end of a stream a comment may stay open.  A text either is made of
trivia, the last of which may be such a comment, or has a token behind trivia.
The grammar decides that without a lexer, and the offset of the first token says
the same.
-/

namespace SqlDump

/-- Trivia up to the end of the stream, where a comment in front of the end may
lack its closing marker or its line break. -/
inductive OnlyTrivia : Text → Prop where
  | closed {text : Text} (trivia : Trivia text) : OnlyTrivia text
  | line {front last : Text} (trivia : Trivia front)
      (begins : BeginsLineComment (last ++ ['\n'])) (noBreak : '\n' ∉ last) :
      OnlyTrivia (front ++ last)
  | comment {front inner : Text} (trivia : Trivia front)
      (noMark : inner.head? ≠ some '!')
      (unclosed : ∀ body behind, inner = body ++ behind → ¬CommentText body) :
      OnlyTrivia (front ++ (commentMarker ++ inner))

/-- What begins with neither a blank nor a comment: code, or the marker of a
guard. -/
structure TokenAtStart (text : Text) : Prop where
  nonempty : text ≠ []
  noBlank : ∀ head ∈ text.head?, isAsciiBlank head = false
  noLine : ¬BeginsLineComment (text ++ ['\n'])
  noComment : ∀ behind, text = commentMarker ++ behind → behind.head? = some '!'

theorem OnlyTrivia.append {front text : Text} (trivia : Trivia front)
    (only : OnlyTrivia text) :
    OnlyTrivia (front ++ text) := by
  cases only with
  | closed later => exact .closed (trivia.append later)
  | line later begins noBreak =>
      rw [← List.append_assoc]
      exact .line (trivia.append later) begins noBreak
  | comment later noMark unclosed =>
      rw [← List.append_assoc]
      exact .comment (trivia.append later) noMark unclosed

private theorem trivia_of_beginsLine {text : Text}
    (begins : BeginsLineComment (text ++ ['\n'])) :
    OnlyTrivia text ∨ ∃ front rest, text = front ++ rest ∧ front ≠ [] ∧
      Trivia front := by
  by_cases ends : '\n' ∈ text
  · obtain ⟨line, rest, rfl, noBreak⟩ := List.eq_append_cons_of_mem ends
    have shorter : BeginsLineComment (line ++ '\n' :: (rest ++ ['\n'])) := by
      simpa using begins
    exact .inr ⟨line ++ ['\n'], rest, by simp, by simp,
      .line shorter.of_break noBreak .nil⟩
  · exact .inl (.line .nil begins ends)

private theorem trivia_of_beginsComment {inner : Text}
    (noMark : inner.head? ≠ some '!') :
    OnlyTrivia (commentMarker ++ inner) ∨
      ∃ front rest, commentMarker ++ inner = front ++ rest ∧ front ≠ [] ∧
      Trivia front := by
  by_cases closes : ∃ body behind, inner = body ++ behind ∧ CommentText body
  · obtain ⟨body, behind, rfl, comment⟩ := closes
    have plain : body.head? ≠ some '!' := by
      cases body with
      | nil => exact absurd rfl comment.ne_nil
      | cons head body => exact noMark
    exact .inr ⟨commentMarker ++ (body ++ []),
      behind, by simp, by simp [commentMarker],
      .comment plain comment .nil⟩
  · left
    apply OnlyTrivia.comment .nil noMark
    intro body behind split comment
    exact closes ⟨body, behind, split, comment⟩

/-- What begins with no token begins with trivia. -/
theorem trivia_of_not_tokenAtStart {text : Text} (nonempty : text ≠ [])
    (noToken : ¬TokenAtStart text) :
    OnlyTrivia text ∨ ∃ front rest, text = front ++ rest ∧ front ≠ [] ∧
      Trivia front := by
  by_cases line : BeginsLineComment (text ++ ['\n'])
  · exact trivia_of_beginsLine line
  by_cases comment : ∃ inner, text = commentMarker ++ inner ∧
    inner.head? ≠ some '!'
  · obtain ⟨inner, rfl, noMark⟩ := comment
    exact trivia_of_beginsComment noMark
  obtain ⟨head, tail, rfl⟩ := List.exists_cons_of_ne_nil nonempty
  cases blank : isAsciiBlank head with
  | true => exact .inr ⟨[head], tail, rfl, by simp, .blank blank .nil⟩
  | false =>
      refine absurd ⟨nonempty, ?_, line, ?_⟩ noToken
      · simpa using blank
      · intro behind split
        exact Decidable.byContradiction fun noMark =>
          comment ⟨behind, split, noMark⟩

theorem onlyTrivia_or_token (text : Text) :
    OnlyTrivia text ∨ ∃ front token, text = front ++ token ∧ Trivia front ∧
    TokenAtStart token := by
  by_cases nonempty : text = []
  · exact .inl (.closed (nonempty ▸ .nil))
  by_cases token : TokenAtStart text
  · exact .inr ⟨[], text, rfl, .nil, token⟩
  rcases trivia_of_not_tokenAtStart nonempty token with
      only | ⟨front, rest, split, more, trivia⟩
  · exact .inl only
  · rw [split]
    rcases onlyTrivia_or_token rest with
        only | ⟨later, found, rfl, triviaLater, begins⟩
    · exact .inl (only.append trivia)
    · exact .inr ⟨front ++ later, found, by simp, trivia.append triviaLater,
        begins⟩
termination_by text.length
decreasing_by
  have positive := List.length_pos_iff.mpr more
  rw [split, List.length_append]
  omega

theorem statementOffset_of_tokenAtStart {text : Text}
    (token : TokenAtStart text) :
    statementOffset text = 0 := by
  obtain ⟨head, tail, rfl⟩ := List.exists_cons_of_ne_nil token.nonempty
  have visible : isAsciiBlank head = false := token.noBlank head rfl
  have noComment :
      Lexer.beginsComment (({} : Lexer).step true (head :: tail)) = false := by
    refine Bool.eq_false_iff.mpr fun comment => ?_
    rcases Lexer.beginsComment_cases comment with
        begins | dashes | ⟨behind, split, noMark⟩
    · exact token.noLine (begins.append ['\n'])
    · refine token.noLine (.inr ⟨'\n', [], ?_, by simp⟩)
      rw [dashes]
      rfl
    · exact noMark (token.noComment behind split)
  unfold statementOffset
  rw [Lexer.triviaLength_cons]
  simp [Lexer.atTopLevel_start, visible, noComment]

/-- The line break stands for the end of the stream: two dashes are a line
comment there. -/
theorem BeginsLineComment.of_end {last : Text}
    (begins : BeginsLineComment (last ++ ['\n'])) :
    BeginsLineComment last ∨ last = ['-', '-'] := by
  rcases begins with hash | ⟨blank, behind, dashes, isBlank⟩
  · cases last with
    | nil => simp at hash
    | cons head last => exact .inl (.inl hash)
  · obtain ⟨more, rfl⟩ := dashes_of_append dashes (by simp)
    cases more with
    | nil => exact .inr rfl
    | cons third more =>
        obtain ⟨rfl, -⟩ : third = blank ∧ more ++ ['\n'] = behind := by
          simpa using dashes
        exact .inl (.inr ⟨third, more, rfl, isBlank⟩)

theorem Lexer.skips_lastLine {last : Text}
    (begins : BeginsLineComment (last ++ ['\n'])) (noBreak : '\n' ∉ last) :
    Lexer.Skips {} last [] Lexer.inLine := by
  rcases begins.of_end with line | rfl
  · exact Lexer.skips_lineStart (by rwa [List.append_nil]) noBreak (.inl rfl)
  · exact .of_step (by simp) rfl rfl fun _ => ⟨by simp [isAsciiBlank], rfl⟩

theorem statementOffset_of_onlyTrivia {text : Text} (only : OnlyTrivia text) :
    statementOffset text = text.length := by
  cases only with
  | closed trivia =>
      exact statementOffset_of_skips (Lexer.skips_trivia trivia [])
  | @line front last trivia begins noBreak =>
      have read :=
        statementOffset_of_skips (Lexer.skips_lastLine begins noBreak)
      rw [statementOffset_append trivia, read, List.length_append]
  | @comment front inner trivia noMark unclosed =>
      have unending : ({} : Lexer).openOne.triviaLength inner =
          inner.length := by
        refine (Lexer.comment_or_open Lexer.inComment_openOne
          inner).resolve_left ?_
        rintro ⟨body, behind, split, comment⟩
        exact unclosed body behind split comment
      have opening : statementOffset (commentMarker ++ inner) = _ :=
        Lexer.skips_opening noMark
      rw [statementOffset_append trivia, opening, unending]
      simp only [List.length_append]

/-- The offset of the first token is inside the text exactly if a token stands
behind trivia. -/
theorem statementOffset_lt_iff {text : Text} :
    statementOffset text < text.length ↔
      ∃ front token, text = front ++ token ∧ Trivia front ∧
      TokenAtStart token := by
  constructor
  · intro inside
    refine (onlyTrivia_or_token text).resolve_left fun only => ?_
    rw [statementOffset_of_onlyTrivia only] at inside
    exact Nat.lt_irrefl _ inside
  · rintro ⟨front, token, rfl, trivia, begins⟩
    have positive := List.length_pos_iff.mpr begins.nonempty
    rw [statementOffset_append trivia, statementOffset_of_tokenAtStart begins,
      List.length_append]
    omega

theorem trivia_take_statementOffset (text : Text)
    (token : text.drop (statementOffset text) ≠ []) :
    Trivia (text.take (statementOffset text)) := by
  have inside : statementOffset text < text.length := by
    have positive := List.length_pos_iff.mpr token
    rw [List.length_drop] at positive
    omega
  obtain ⟨front, found, rfl, trivia, begins⟩ := statementOffset_lt_iff.mp inside
  rw [statementOffset_append trivia, statementOffset_of_tokenAtStart begins,
    Nat.add_zero, List.take_left]
  exact trivia

theorem onlyTrivia_iff {text : Text} :
    OnlyTrivia text ↔ ¬statementOffset text < text.length := by
  constructor
  · intro only
    rw [statementOffset_of_onlyTrivia only]
    exact Nat.lt_irrefl _
  · intro outside
    exact (onlyTrivia_or_token text).resolve_right fun token =>
      outside (statementOffset_lt_iff.mpr token)

end SqlDump
