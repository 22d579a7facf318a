import SqlDump.Proofs.Lexer.Place
import SqlDump.Proofs.Segment.Document
import SqlDump.Proofs.Unwrap.Cuts

/-!
# What is copied and what is replaced

Unwrapping takes a text apart into pieces.  A guard that loses its markers is
replaced by its body, together with a terminator that moves onto the body and
the line break that this makes redundant.  Everything else is copied.  In the
text every cut between two pieces lies in top-level code.
-/

namespace SqlDump

inductive Piece where
  | copied (text : Text)
  | replaced (original freed : Text)
deriving DecidableEq, Repr

namespace Piece

def original : Piece → Text
  | .copied text => text
  | .replaced original _ => original

def result : Piece → Text
  | .copied text => text
  | .replaced _ freed => freed

end Piece

/-- The text that the pieces were taken from. -/
def originals (pieces : List Piece) : Text :=
  pieces.flatMap Piece.original

/-- The text that leaves for the pieces. -/
def results (pieces : List Piece) : Text :=
  pieces.flatMap Piece.result

@[simp] theorem originals_cons (piece : Piece) (pieces : List Piece) :
    originals (piece :: pieces) = piece.original ++ originals pieces := rfl

@[simp] theorem originals_append (first second : List Piece) :
    originals (first ++ second) = originals first ++ originals second := by
  simp [originals]

@[simp] theorem results_nil : results [] = [] := rfl

@[simp] theorem results_cons (piece : Piece) (pieces : List Piece) :
    results (piece :: pieces) = piece.result ++ results pieces := rfl

@[simp] theorem results_append (first second : List Piece) :
    results (first ++ second) = results first ++ results second := by
  simp [results]

def lineBreakLength (collapse : Collapse) : Text → Nat
  | '\n' :: _ => 1
  | '\r' :: '\n' :: _ => if collapse = .any then 2 else 0
  | _ => 0

/-- Length of the line break that a moved terminator makes redundant. -/
def redundantLength (collapse : Collapse) (body rest : Text) : Nat :=
  if collapse = .off ∨
    Text.endsWith (body.drop body.trimEnd.length) ['\n'] = false then 0
  else lineBreakLength collapse rest

namespace Document

def blockPieces (threshold : Nat) (collapse : Collapse) (block : Guard × Text) :
    List Piece :=
  let (guard, following) := block
  if shouldUnwrap guard.version threshold then
    let body := Unwrapper.strippedInner guard
    match following with
    | ';' :: rest =>
        let gone := redundantLength collapse body rest
        [.replaced (guard.raw ++ ';' :: rest.take gone)
          (Unwrapper.terminated body), .copied (rest.drop gone)]
    | _ => [.replaced guard.raw body, .copied following]
  else [.copied (guard.raw ++ following)]

def pieces (threshold : Nat) (collapse : Collapse) (document : Document) :
    List Piece :=
  .copied document.lead :: document.blocks.flatMap
    (blockPieces threshold collapse)

def segments (document : Document) : List Segment :=
  .text document.lead ::
    document.blocks.flatMap fun block => [.guard block.1 0, .text block.2]

variable {threshold : Nat} {collapse : Collapse}

/-- How a guard and the text behind it leave. -/
inductive Leaves (threshold : Nat) (collapse : Collapse) (guard : Guard) :
    Text → List Piece → Prop where
  | kept (following : Text)
      (keeps : shouldUnwrap guard.version threshold = false) :
      Leaves threshold collapse guard following
        [.copied (guard.raw ++ following)]
  | freed (following : Text)
      (unwraps : shouldUnwrap guard.version threshold = true)
      (noTerminator : following.head? ≠ some ';') :
      Leaves threshold collapse guard following
        [.replaced guard.raw (Unwrapper.strippedInner guard), .copied following]
  | terminated (gone kept : Text)
      (unwraps : shouldUnwrap guard.version threshold = true)
      (redundant : gone.length = redundantLength collapse
          (Unwrapper.strippedInner guard) (gone ++ kept)) :
      Leaves threshold collapse guard (';' :: (gone ++ kept))
        [.replaced (guard.raw ++ ';' :: gone)
            (Unwrapper.terminated (Unwrapper.strippedInner guard)),
          .copied kept]

private theorem lineBreakLength_le (collapse : Collapse) (rest : Text) :
    lineBreakLength collapse rest ≤ rest.length := by
  unfold lineBreakLength
  split
  · simp
  · split <;> simp
  · exact Nat.zero_le _

private theorem redundantLength_le (collapse : Collapse) (body rest : Text) :
    redundantLength collapse body rest ≤ rest.length := by
  unfold redundantLength
  split
  · exact Nat.zero_le _
  · exact lineBreakLength_le collapse rest

theorem leaves_blockPieces (guard : Guard) (following : Text) :
    Leaves threshold collapse guard following
      (blockPieces threshold collapse (guard, following)) := by
  cases unwraps : shouldUnwrap guard.version threshold with
  | false =>
      simp only [blockPieces, unwraps]
      exact .kept following unwraps
  | true =>
      simp only [blockPieces, unwraps, if_true]
      split
      · next rest =>
          generalize goneEq : redundantLength collapse
            (Unwrapper.strippedInner guard) rest = gone
          have fits :=
            redundantLength_le collapse (Unwrapper.strippedInner guard) rest
          have parts := List.take_append_drop gone rest
          rw [goneEq] at fits
          have leaves :
              Leaves threshold collapse guard
                (';' :: (rest.take gone ++ rest.drop gone))
              _ := .terminated (rest.take gone) (rest.drop gone) unwraps (by
                rw [parts, goneEq, List.length_take, Nat.min_eq_left fits])
          rwa [parts] at leaves
      · next noTerminator =>
          refine .freed following unwraps fun terminator => ?_
          obtain ⟨rest, same⟩ := List.head?_eq_some_iff.mp terminator
          exact noTerminator rest same

theorem Leaves.originals {guard : Guard} {following : Text}
    {pieces : List Piece}
    (leaves : Leaves threshold collapse guard following pieces) :
    originals pieces = guard.raw ++ following := by
  cases leaves with
  | kept following keeps => simp [SqlDump.originals, Piece.original]
  | freed following unwraps noTerminator =>
      simp [SqlDump.originals, Piece.original]
  | terminated gone kept unwraps redundant =>
      simp [SqlDump.originals, Piece.original]

theorem originals_pieces (document : Document) :
    originals (document.pieces threshold collapse) = document.text := by
  unfold pieces text
  rw [originals_cons, originals, List.flatMap_assoc]
  congr 1
  congr 1
  funext block
  exact (leaves_blockPieces block.1 block.2).originals

/-- Lexed from the start of any piece, the text is in code at the end of the
piece. -/
def CutsInCode : List Piece → Prop
  | [] => True
  | piece :: pieces =>
      (pieces ≠ [] →
        ({} : Lexer).inCodeAt (originals (piece :: pieces))
          piece.original.length = true) ∧
        CutsInCode pieces

private theorem lineBreak_cases (collapse : Collapse) (rest : Text) :
    let gone := rest.take (lineBreakLength collapse rest)
    gone = [] ∨ gone = ['\n'] ∨ (gone = ['\r', '\n'] ∧ collapse = .any) := by
  unfold lineBreakLength
  split
  · exact .inr (.inl rfl)
  · split
    · next any => exact .inr (.inr ⟨rfl, any⟩)
    · exact .inl rfl
  · exact .inl rfl

/-- Nothing is redundant, or a whole line break that the mode drops. -/
theorem redundant_cases {collapse : Collapse} {body gone kept : Text}
    (redundant : gone.length = redundantLength collapse body (gone ++ kept)) :
    gone = [] ∨ (gone = ['\n'] ∧ collapse ≠ .off) ∨
      (gone = ['\r', '\n'] ∧ collapse = .any) := by
  unfold redundantLength at redundant
  split at redundant
  · exact .inl (List.length_eq_zero_iff.mp redundant)
  · next drops =>
      have goneCases := lineBreak_cases collapse (gone ++ kept)
      rw [← redundant, List.take_left] at goneCases
      rcases goneCases with empty | feed | pair
      · exact .inl empty
      · exact .inr (.inl ⟨feed, fun off => drops (.inl off)⟩)
      · exact .inr (.inr pair)

theorem mem_redundant {collapse : Collapse} {body gone kept : Text}
    (redundant : gone.length = redundantLength collapse body (gone ++ kept)) :
    ∀ character ∈ gone, character = '\n' ∨ character = '\r' := by
  intro character member
  rcases redundant_cases redundant with rfl | ⟨rfl, -⟩ | ⟨rfl, -⟩
  · exact absurd member List.not_mem_nil
  · exact .inl (List.mem_singleton.mp member)
  · simpa [or_comm] using member

private theorem cutsInCode_leaves {guard : Guard} {following : Text}
    {pieces rest : List Piece} {steps : List Step}
    (leaves : Leaves threshold collapse guard following pieces)
    (crossed : Lexer.Reads {} (guard.raw ++ (following ++ originals rest)) steps
        {} (following ++ originals rest))
    (behind : CutsInCode (.copied following :: rest)) :
    CutsInCode (pieces ++ rest) := by
  have atGuard := crossed.inCodeAt_append
  have through (more : Nat) :=
    Lexer.inCodeAt_add more Lexer.proper_start atGuard
  rw [List.drop_left] at through
  obtain ⟨atEnd, later⟩ := behind
  cases leaves with
  | kept following keeps =>
      refine ⟨fun more => ?_, later⟩
      change ({} : Lexer).inCodeAt ((guard.raw ++ following) ++ originals rest)
        (guard.raw ++ following).length = true
      rw [List.length_append, List.append_assoc, through]
      exact atEnd more
  | freed following unwraps noTerminator =>
      exact ⟨fun _ => atGuard, atEnd, later⟩
  | terminated gone kept unwraps redundant =>
      have plain : ∀ character ∈ ';' :: gone, character ∉ Lexer.openers := by
        intro character member
        rcases List.mem_cons.mp member with rfl | member
        · decide
        · rcases mem_redundant redundant character member with
              rfl | rfl <;> decide
      have skips (more : Nat) :=
        Lexer.inCodeAt_plains (kept ++ originals rest) Lexer.atTopLevel_start
          plain more
      have joined : ';' :: (gone ++ kept) ++ originals rest =
          (';' :: gone) ++ (kept ++ originals rest) := by simp
      rw [joined] at through
      refine ⟨fun _ => ?_, fun more => ?_, later⟩
      · change ({} : Lexer).inCodeAt
          ((guard.raw ++ ';' :: gone) ++ (kept ++ originals rest))
          (guard.raw ++ ';' :: gone).length = true
        rw [List.length_append, List.append_assoc, through]
        exact (skips 0).trans (Lexer.inCodeAt_zero _ _)
      · have ends := atEnd more
        change ({} : Lexer).inCodeAt (';' :: (gone ++ kept) ++ originals rest)
          (';' :: (gone ++ kept)).length = true at ends
        rw [joined, ← List.cons_append, List.length_append, skips] at ends
        exact ends

theorem originals_mk (threshold : Nat) (collapse : Collapse) (lead : Text)
    (blocks : List (Guard × Text)) :
    lead ++ originals (blocks.flatMap (blockPieces threshold collapse)) =
      text ⟨lead, blocks⟩ :=
  originals_pieces ⟨lead, blocks⟩

theorem Lexed.cutsInCode {document : Document} (lexed : document.Lexed) :
    CutsInCode (document.pieces threshold collapse) := by
  induction lexed with
  | lead text => exact ⟨fun more => absurd rfl more, trivial⟩
  | @block lead following guard blocks toGuard throughGuard reached crossed
      behind ih =>
      have split : Document.text ⟨lead, (guard, following) :: blocks⟩ =
          lead ++ (guard.raw ++ Document.text ⟨following, blocks⟩) := by
            simp [text]
      rw [split] at reached
      rw [← originals_mk threshold collapse] at crossed
      constructor
      · intro _
        have whole :=
          originals_mk threshold collapse lead ((guard, following) :: blocks)
        change ({} : Lexer).inCodeAt (lead ++ originals _) lead.length = true
        rw [whole, split]
        exact reached.inCodeAt_append
      · exact cutsInCode_leaves (leaves_blockPieces guard following) crossed ih

end Document

namespace Unwrapper

variable {unwrapper : Unwrapper}

/-- What leaves for a text, and what is held back behind it if no text
follows. -/
def textOut (unwrapper : Unwrapper) (text : Text) : Text :=
  (unwrapper.acceptText text).2 ++
  heldBack (unwrapper.acceptText text).1.pending

private theorem textOut_of_none (text : Text)
    (idle : unwrapper.pending = .none) :
    unwrapper.textOut text = text := by
  rw [textOut, acceptText_of_none text idle, idle, heldBack, List.append_nil]

private theorem textOut_of_body {body text : Text}
    (owed : unwrapper.pending = .body body)
    (noTerminator : text.head? ≠ some ';') :
    unwrapper.textOut text = body ++ text := by
  cases text with
  | nil =>
      rw [textOut, acceptText, owed, heldBack, List.nil_append, List.append_nil]
  | cons head tail =>
      have other : head ≠ ';' := by simpa using noTerminator
      rw [textOut, acceptText_of_body tail owed other, settled, heldBack,
        List.append_nil]

private theorem dropLineBreak_out (rest : Text) :
    (unwrapper.dropLineBreak rest).2 ++
        heldBack (unwrapper.dropLineBreak rest).1.pending =
      rest.drop (lineBreakLength unwrapper.collapse rest) := by
  unfold lineBreakLength
  split
  · rw [dropLineBreak_lineFeed, settled, heldBack, List.append_nil]
    rfl
  · rw [dropLineBreak_pair, settled, heldBack, List.append_nil]
    split <;> rfl
  · next noFeed noPair =>
      by_cases alone : rest = ['\r']
      · rw [alone, dropLineBreak_carriageReturn]
        split <;> rfl
      · have noFeedHead : rest.head? ≠ some '\n' := by
          intro feed
          obtain ⟨later, same⟩ := List.head?_eq_some_iff.mp feed
          exact noFeed later same
        have noPairTake : rest.take 2 ≠ ['\r', '\n'] := by
          intro pair
          apply noPair (rest.drop 2)
          rw [← List.take_append_drop 2 rest, pair]
          rfl
        rw [dropLineBreak_other noFeedHead noPairTake alone, settled, heldBack,
          List.append_nil, List.drop_zero]

private theorem textOut_of_terminator {body : Text} (rest : Text)
    (owed : unwrapper.pending = .body body) :
    unwrapper.textOut (';' :: rest) =
      terminated body ++
      rest.drop (redundantLength unwrapper.collapse body rest) := by
  rw [textOut, acceptText_terminator rest owed]
  by_cases keeps : unwrapper.KeepsLineBreak body
  · have none : redundantLength unwrapper.collapse body rest = 0 := if_pos keeps
    rw [reattach_of_keeps rest keeps, none, counted, heldBack, List.append_nil,
      List.drop_zero]
  · have some : redundantLength unwrapper.collapse body rest =
        lineBreakLength unwrapper.collapse rest := if_neg keeps
    by_cases empty : rest = []
    · subst empty
      rw [reattach_nil keeps, heldBack, List.append_nil, List.drop_nil,
        List.append_nil]
    · rw [reattach_of_drops keeps empty, List.append_assoc, dropLineBreak_out,
        some]
      rfl

theorem settled_dropLineBreak (text : Text) :
    (unwrapper.dropLineBreak text).1.settled = unwrapper.settled := by
  unfold dropLineBreak
  split
  · rfl
  · split <;> rfl
  · split <;> rfl
  · rfl

theorem settled_reattach (body rest : Text) :
    (unwrapper.reattach body rest).1.settled = unwrapper.counted := by
  by_cases keeps : unwrapper.KeepsLineBreak body
  · rw [reattach_of_keeps rest keeps]
    rfl
  · by_cases empty : rest = []
    · rw [empty, reattach_nil keeps]
      rfl
    · rw [reattach_of_drops keeps empty]
      exact settled_dropLineBreak rest

/-- Apart from what it owes, a text changes an unwrapper only if a terminator
moves. -/
theorem settled_acceptText (unwrapper : Unwrapper) (text : Text) :
    (unwrapper.acceptText text).1.settled = unwrapper.settled ∨
      (unwrapper.acceptText text).1.settled = unwrapper.counted := by
  cases text with
  | nil => exact .inl rfl
  | cons head tail =>
      cases owed : unwrapper.pending with
      | none =>
          rw [acceptText_of_none _ owed]
          exact .inl rfl
      | body body =>
          by_cases terminator : head = ';'
          · rw [terminator, acceptText_terminator tail owed]
            exact .inr (settled_reattach body tail)
          · rw [acceptText_of_body tail owed terminator]
            exact .inl rfl
      | lineBreak =>
          rw [acceptText_of_lineBreak (List.cons_ne_nil head tail) owed]
          exact .inl (settled_dropLineBreak (head :: tail))
      | lineFeed =>
          rw [acceptText_of_lineFeed tail owed]
          exact .inl rfl

/-- A text does not change which guards are taken off, and counts none. -/
theorem sameMode_acceptText (unwrapper : Unwrapper) (text : Text) :
    (unwrapper.acceptText text).1.threshold = unwrapper.threshold ∧
      (unwrapper.acceptText text).1.collapse = unwrapper.collapse ∧
      (unwrapper.acceptText text).1.unwrapped = unwrapper.unwrapped ∧
      (unwrapper.acceptText text).1.kept = unwrapper.kept := by
  rcases unwrapper.settled_acceptText text with same | moved
  · simp only [settled, Unwrapper.mk.injEq] at same
    obtain ⟨threshold, collapse, -, unwrapped, kept, -⟩ := same
    exact ⟨threshold, collapse, unwrapped, kept⟩
  · simp only [settled, counted, Unwrapper.mk.injEq] at moved
    obtain ⟨threshold, collapse, -, unwrapped, kept, -⟩ := moved
    exact ⟨threshold, collapse, unwrapped, kept⟩

theorem sameMode_accept (unwrapper : Unwrapper) (segment : Segment) :
    (unwrapper.accept segment).1.threshold = unwrapper.threshold ∧
      (unwrapper.accept segment).1.collapse = unwrapper.collapse := by
  cases segment with
  | text text =>
      obtain ⟨threshold, collapse, -, -⟩ := unwrapper.sameMode_acceptText text
      exact ⟨threshold, collapse⟩
  | guard guard line =>
      unfold accept acceptGuard
      dsimp only
      split <;> exact ⟨rfl, rfl⟩

private theorem acceptGuard_then_text (unwrapper : Unwrapper) (guard : Guard)
    (following : Text) {pieces : List Piece}
    (leaves : Document.Leaves unwrapper.threshold unwrapper.collapse guard
        following pieces) :
    (unwrapper.acceptGuard guard).2 ++ (unwrapper.acceptGuard guard).1.textOut
      following =
      heldBack unwrapper.pending ++ results pieces := by
  cases leaves with
  | kept following keeps =>
      simp only [acceptGuard, keeps, Bool.false_eq_true, if_false]
      rw [textOut_of_none following rfl]
      simp [results, Piece.result]
  | freed following unwraps noTerminator =>
      simp only [acceptGuard, unwraps, if_true]
      rw [textOut_of_body rfl noTerminator]
      simp [results, Piece.result]
  | terminated gone kept unwraps redundant =>
      simp only [acceptGuard, unwraps, if_true]
      rw [textOut_of_terminator _ rfl, ← redundant, List.drop_left]
      simp [results, Piece.result]

theorem unwrap_cons (unwrapper : Unwrapper) (segment : Segment)
    (segments : List Segment) :
    (unwrapper.unwrap (segment :: segments)).2 =
      (unwrapper.accept segment).2 ++
      ((unwrapper.accept segment).1.unwrap segments).2 := by
  simp only [unwrap, acceptAll, List.append_assoc]

private theorem unwrap_blocks (unwrapper : Unwrapper)
    (blocks : List (Guard × Text)) :
    (unwrapper.unwrap (blocks.flatMap fun block =>
      [.guard block.1 0, .text block.2])).2 =
        heldBack unwrapper.pending ++
          results (blocks.flatMap
            (Document.blockPieces unwrapper.threshold unwrapper.collapse)) := by
  induction blocks generalizing unwrapper with
  | nil => exact (List.append_nil _).symm
  | cons block blocks ih =>
      obtain ⟨guard, following⟩ := block
      have guarded := unwrapper.acceptGuard_then_text guard following
        (Document.leaves_blockPieces guard following)
      have mode : (unwrapper.acceptGuard guard).1.threshold =
          unwrapper.threshold ∧
          (unwrapper.acceptGuard guard).1.collapse = unwrapper.collapse :=
        unwrapper.sameMode_accept (.guard guard 0)
      have modeText :=
        sameMode_acceptText (unwrapper.acceptGuard guard).1 following
      have later := ih ((unwrapper.acceptGuard guard).1.acceptText following).1
      rw [modeText.1, modeText.2.1, mode.1, mode.2] at later
      rw [List.flatMap_cons, List.flatMap_cons, List.cons_append,
        List.singleton_append, unwrap_cons, unwrap_cons, results_append,
        ← List.append_assoc (heldBack _), ← guarded, textOut, List.append_assoc,
        List.append_assoc, ← later]
      rfl

/-- The line on which a guard stands and the cuts through text do not matter. -/
theorem acceptAll_ofSegments (unwrapper : Unwrapper) (segments : List Segment) :
    unwrapper.acceptAll (Document.ofSegments segments).segments =
      unwrapper.acceptAll segments := by
  induction segments generalizing unwrapper with
  | nil => rfl
  | cons segment segments ih =>
      cases segment with
      | text piece =>
          have cut :=
            unwrapper.acceptText_append piece
              (Document.ofSegments segments).lead
          have later := ih (unwrapper.acceptText piece).1
          simp only [Document.segments, acceptAll, accept] at later
          simp only [Document.ofSegments, Document.segments, acceptAll, accept,
            cut, ← later, List.append_assoc]
      | guard guard line =>
          have later := ih (unwrapper.acceptGuard guard).1
          simp only [Document.segments, acceptAll, accept] at later
          simp only [Document.ofSegments, Document.segments, List.flatMap_cons,
            acceptAll, accept, acceptText, List.cons_append, List.nil_append,
            ← later]

theorem unwrap_of_none (segments : List Segment)
    (idle : unwrapper.pending = .none) :
    (unwrapper.unwrap segments).2 =
      results ((Document.ofSegments segments).pieces unwrapper.threshold
        unwrapper.collapse) := by
  have canonical : unwrapper.unwrap segments =
      unwrapper.unwrap (Document.ofSegments segments).segments := by
    rw [unwrap, ← acceptAll_ofSegments]
    rfl
  rw [canonical, Document.segments, unwrap_cons, Document.pieces, results_cons]
  rw [show unwrapper.accept (.text (Document.ofSegments segments).lead) =
      (unwrapper, (Document.ofSegments segments).lead)
    from acceptText_of_none _ idle, unwrap_blocks, idle]
  rfl

end Unwrapper

/-- Unwrapping gives the results of the pieces. -/
theorem unwrap_eq_results (threshold : Nat) (collapse : Collapse)
    (segments : List Segment) :
    (Unwrapper.unwrap { threshold := threshold, collapse := collapse }
      segments).2 =
      results ((Document.ofSegments segments).pieces threshold collapse) :=
  Unwrapper.unwrap_of_none segments rfl

theorem unwrap_segmentsOf (threshold : Nat) (collapse : Collapse)
    (text : Text) :
    (Unwrapper.unwrap { threshold := threshold, collapse := collapse }
      (segmentsOf text)).2 =
      results ((documentOf text).pieces threshold collapse) :=
  unwrap_eq_results threshold collapse (segmentsOf text)

end SqlDump
