import SqlDump.Proofs.Statement.Chunks
import SqlDump.Proofs.Unwrap.Pieces

/-!
# Unwrapping whole lines

A line break settles what the unwrapper owes, so an unwrapper owes nothing at
the end of a line and gives the results of the pieces of that line.
-/

namespace SqlDump

/-- A text that ends a line does not end with a guard. -/
theorem exists_break_of_endsLine {before following : Text} {guard : Guard}
    (ends : endsLine (before ++ (guard.raw ++ following)) = true) :
    ∃ front, following = front ++ ['\n'] := by
  rcases List.eq_nil_or_concat following with rfl | ⟨front, last, rfl⟩
  · obtain ⟨more, textEq⟩ :=
      (endsLine_iff.mp ends).resolve_left (by simp [Guard.raw, closingMarker])
    have lasts := congrArg List.getLast? textEq
    simp [Guard.raw, closingMarker] at lasts
  · obtain ⟨more, textEq⟩ := (endsLine_iff.mp ends).resolve_left (by simp)
    have lasts := congrArg List.getLast? textEq
    simp only [List.concat_eq_append, ← List.append_assoc, List.getLast?_concat,
      Option.some.injEq] at lasts
    exact ⟨front, by rw [lasts, List.concat_eq_append]⟩

namespace Unwrapper

variable {unwrapper : Unwrapper}

private theorem pending_acceptText_lineFeed (unwrapper : Unwrapper) :
    (unwrapper.acceptText ['\n']).1.pending = .none := by
  cases owed : unwrapper.pending with
  | none => rw [acceptText_of_none _ owed, owed]
  | body body =>
      rw [acceptText_of_body [] owed (by decide)]
      rfl
  | lineBreak =>
      rw [acceptText_of_lineBreak (List.cons_ne_nil _ _) owed,
        dropLineBreak_lineFeed]
      rfl
  | lineFeed =>
      rw [acceptText_of_lineFeed [] owed]
      rfl

/-- Nothing is owed behind a text that ends with a line break. -/
theorem pending_acceptText_of_break (unwrapper : Unwrapper) (front : Text) :
    (unwrapper.acceptText (front ++ ['\n'])).1.pending = .none := by
  rw [acceptText_append]
  exact pending_acceptText_lineFeed _

theorem sameMode_acceptAll (unwrapper : Unwrapper) (segments : List Segment) :
    (unwrapper.acceptAll segments).1.threshold = unwrapper.threshold ∧
      (unwrapper.acceptAll segments).1.collapse = unwrapper.collapse := by
  induction segments generalizing unwrapper with
  | nil => exact ⟨rfl, rfl⟩
  | cons segment segments ih =>
      obtain ⟨threshold, collapse⟩ := unwrapper.sameMode_accept segment
      obtain ⟨thresholdThen, collapseThen⟩ := ih (unwrapper.accept segment).1
      exact ⟨thresholdThen.trans threshold, collapseThen.trans collapse⟩

theorem pending_acceptAll_of_endsLine {segments : List Segment}
    (idle : unwrapper.pending = .none)
    (ends : endsLine (Document.ofSegments segments).text = true) :
    (unwrapper.acceptAll segments).1.pending = .none := by
  rw [← acceptAll_ofSegments]
  generalize Document.ofSegments segments = document at ends
  obtain ⟨lead, blocks⟩ := document
  rcases List.eq_nil_or_concat blocks with
      rfl | ⟨earlier, ⟨guard, following⟩, rfl⟩
  · change (unwrapper.acceptText lead).1.pending = .none
    rw [acceptText_of_none lead idle, idle]
  · obtain ⟨front, rfl⟩ : ∃ front, following = front ++ ['\n'] := by
      have last :
          endsLine
            ((lead ++ earlier.flatMap fun block => block.1.raw ++ block.2) ++
          (guard.raw ++ following)) = true := by
            simpa [Document.text] using ends
      exact exists_break_of_endsLine last
    have split :
        Document.segments ⟨lead, earlier.concat (guard, front ++ ['\n'])⟩ =
          (Document.segments ⟨lead, earlier⟩ ++ [.guard guard 0]) ++
          [.text (front ++ ['\n'])] := by
      simp [Document.segments]
    rw [split, acceptAll_append]
    exact pending_acceptText_of_break _ front

/-- At the end of a line what left is the results of the pieces. -/
theorem acceptAll_of_endsLine {segments : List Segment}
    (idle : unwrapper.pending = .none)
    (ends : endsLine (Document.ofSegments segments).text = true) :
    (unwrapper.acceptAll segments).2 =
      results ((Document.ofSegments segments).pieces unwrapper.threshold
        unwrapper.collapse) := by
  have settled := pending_acceptAll_of_endsLine idle ends
  rw [← unwrap_of_none segments idle]
  simp only [unwrap, Unwrapper.finish, settled, heldBack, List.append_nil]

end Unwrapper

end SqlDump
