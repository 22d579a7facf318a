import SqlDump.Proofs.Segment.Opening
import SqlDump.Proofs.Text.Rank
import SqlDump.Proofs.Text.Trim
import SqlDump.Proofs.Unwrap.Pieces

/-!
# Guards that stay

Unwrapping copies a text exactly if it takes no guard off.  A guard that it
takes off is larger than what it leaves of it, so no change makes up for another
one.
-/

namespace SqlDump

/-- A guard that is taken off. -/
def Segment.below (threshold : Nat) : Segment → Bool
  | .text _ => false
  | .guard found _ => shouldUnwrap found.version threshold

/-- No guard of the text is taken off. -/
def GuardsStay (threshold : Nat) (text : Text) : Prop :=
  ∀ guard line, .guard guard line ∈ segmentsOf text → threshold ≤ guard.version

namespace Unwrapper

/-- Guards that reach the threshold are copied like text. -/
theorem acceptAll_of_kept (unwrapper : Unwrapper) (segments : List Segment)
    (idle : unwrapper.pending = .none)
    (kept : ∀ guard line, .guard guard line ∈ segments →
        unwrapper.threshold ≤ guard.version) :
    (unwrapper.acceptAll segments).2 = segments.flatMap Segment.raw ∧
      (unwrapper.acceptAll segments).1.pending = .none ∧
      (unwrapper.acceptAll segments).1.reattached = unwrapper.reattached := by
  induction segments generalizing unwrapper with
  | nil => exact ⟨rfl, idle, rfl⟩
  | cons segment segments ih =>
      have keptLater : ∀ guard line, .guard guard line ∈ segments →
          unwrapper.threshold ≤ guard.version := fun guard line member =>
        kept guard line (.tail segment member)
      cases segment with
      | text text =>
          obtain ⟨output, rest⟩ := ih unwrapper idle keptLater
          simp only [acceptAll, accept, acceptText_of_none text idle, output]
          exact ⟨rfl, rest⟩
      | guard guard line =>
          have stays : shouldUnwrap guard.version unwrapper.threshold =
              false := by
            simpa [shouldUnwrap] using kept guard line (.head segments)
          have copied : unwrapper.acceptGuard guard =
              ({ unwrapper with pending := .none, kept := unwrapper.kept + 1 },
                guard.raw) := by
            simp [acceptGuard, stays, idle, heldBack]
          obtain ⟨output, rest⟩ :=
            ih { unwrapper with pending := .none, kept := _ } rfl keptLater
          simp only [acceptAll, accept, copied]
          exact ⟨congrArg (guard.raw ++ ·) output, rest⟩

theorem accept_count (unwrapper : Unwrapper) (segment : Segment) :
    (unwrapper.accept segment).1.threshold = unwrapper.threshold ∧
      (unwrapper.accept segment).1.unwrapped =
        unwrapper.unwrapped + if segment.below unwrapper.threshold then 1
          else 0 := by
  cases segment with
  | text text =>
      obtain ⟨threshold, -, unwrapped, -⟩ := unwrapper.sameMode_acceptText text
      exact ⟨threshold, unwrapped⟩
  | guard guard line =>
      unfold accept acceptGuard Segment.below
      dsimp only
      split <;> exact ⟨rfl, rfl⟩

theorem acceptAll_count (unwrapper : Unwrapper) (segments : List Segment) :
    (unwrapper.acceptAll segments).1.unwrapped =
      unwrapper.unwrapped + segments.countP
        (Segment.below unwrapper.threshold) := by
  induction segments generalizing unwrapper with
  | nil => rfl
  | cons segment segments ih =>
      obtain ⟨threshold, counted⟩ := unwrapper.accept_count segment
      rw [acceptAll, List.countP_cons]
      dsimp only
      rw [ih, threshold, counted]
      omega

end Unwrapper

theorem unwrapped_eq_zero_iff (threshold : Nat) (collapse : Collapse)
    (text : Text) :
    (Unwrapper.unwrap { threshold := threshold, collapse := collapse }
        (segmentsOf text)).1.unwrapped = 0 ↔ GuardsStay threshold text := by
  have counted :=
    Unwrapper.acceptAll_count { threshold := threshold, collapse := collapse }
    (segmentsOf text)
  rw [show (Unwrapper.unwrap _ _).1.unwrapped = _ from counted, Nat.zero_add,
    List.countP_eq_zero]
  constructor
  · intro stay guard line member
    simpa [Segment.below, shouldUnwrap] using stay _ member
  · intro stay segment member
    cases segment with
    | text text => exact Bool.false_ne_true
    | guard guard line =>
        simpa [Segment.below, shouldUnwrap] using stay guard line member

theorem unwrap_of_kept {threshold : Nat} (collapse : Collapse) {text : Text}
    (kept : GuardsStay threshold text) :
    let unwrapped :=
      Unwrapper.unwrap { threshold := threshold, collapse := collapse }
        (segmentsOf text)
    unwrapped.2 = text ∧ unwrapped.1.unwrapped = 0 ∧
      unwrapped.1.reattached = 0 := by
  obtain ⟨output, idle, reattached⟩ := Unwrapper.acceptAll_of_kept
    { threshold := threshold, collapse := collapse } (segmentsOf text) rfl kept
  rw [← Document.text_ofSegments, ← documentOf, text_documentOf] at output
  refine ⟨?_, (unwrapped_eq_zero_iff threshold collapse text).mpr kept,
    reattached⟩
  simp only [Unwrapper.unwrap, Unwrapper.finish, output, idle,
    Unwrapper.heldBack, List.append_nil]

namespace Unwrapper

private theorem rank_strippedInner_lt (guard : Guard) :
    Text.rank (strippedInner guard) < Text.rank guard.raw := by
  have sublist : (strippedInner guard).Sublist guard.inner := by
    obtain ⟨padding, split, -⟩ :=
      Text.dropEndWhile_spec isPadding (guard.inner.dropWhile isPadding)
    have front := List.sublist_append_left (strippedInner guard) padding
    exact (split ▸ front).trans (List.dropWhile_sublist _)
  have inner := (Text.lowered_of_sublist sublist).rank_le
  have marker : 0 < Text.rank guardMarker := by decide
  simp only [Guard.raw, Text.rank_append]
  omega

/-- A terminator is all that a freed text gets. -/
theorem rank_terminated_le (body : Text) :
    (terminated body).rank ≤ body.rank + Text.rank [';'] := by
  have parts := congrArg Text.rank body.trimEnd_append_drop.1
  unfold terminated
  dsimp only
  split
  · exact Nat.le_add_right _ _
  · rw [Text.rank_append] at parts
    rw [← List.singleton_append, Text.rank_append, Text.rank_append]
    omega

end Unwrapper

namespace Document

variable {threshold : Nat} {collapse : Collapse} {guard : Guard}
  {following : Text} {pieces : List Piece}

theorem Leaves.rank_lt
    (leaves : Leaves threshold collapse guard following pieces)
    (unwraps : shouldUnwrap guard.version threshold = true) :
    Text.rank (results pieces) < Text.rank (guard.raw ++ following) := by
  have smaller := Unwrapper.rank_strippedInner_lt guard
  cases leaves with
  | kept following keeps => simp [unwraps] at keeps
  | freed following unwraps noTerminator =>
      simp only [results_cons, results_nil, Piece.result, Text.rank_append,
        List.append_nil]
      omega
  | terminated gone kept unwraps redundant =>
      have terminator :=
        Unwrapper.rank_terminated_le (Unwrapper.strippedInner guard)
      rw [show ';' :: (gone ++ kept) = [';'] ++ (gone ++ kept) from rfl]
      simp only [results_cons, results_nil, Piece.result, Text.rank_append,
        List.append_nil]
      omega

theorem Leaves.results_of_stays
    (leaves : Leaves threshold collapse guard following pieces)
    (stays : shouldUnwrap guard.version threshold = false) :
    results pieces = guard.raw ++ following := by
  cases leaves with
  | kept following keeps => exact List.append_nil _
  | freed following unwraps noTerminator => simp [stays] at unwraps
  | terminated gone kept unwraps redundant => simp [stays] at unwraps

theorem Leaves.lowered
    (leaves : Leaves threshold collapse guard following pieces) :
    Text.Lowered (guard.raw ++ following) (results pieces) ∧
      (results pieces = guard.raw ++ following ↔
        shouldUnwrap guard.version threshold = false) := by
  cases unwraps : shouldUnwrap guard.version threshold with
  | false =>
      have same := leaves.results_of_stays unwraps
      exact ⟨.inl same, iff_of_true same rfl⟩
  | true =>
      have lower := leaves.rank_lt unwraps
      refine ⟨.inr lower, iff_of_false (fun same => ?_) Bool.true_eq_false.mp⟩
      exact Nat.ne_of_lt lower (congrArg Text.rank same)

/-- What leaves is the text if no guard is taken off, and of a lower rank
otherwise. -/
theorem lowered_results (threshold : Nat) (collapse : Collapse)
    (document : Document) :
    Text.Lowered document.text (results (document.pieces threshold collapse)) ∧
      (results (document.pieces threshold collapse) = document.text ↔
        ∀ block ∈ document.blocks, shouldUnwrap block.1.version threshold =
          false) := by
  obtain ⟨lead, blocks⟩ := document
  have lowered :
      Text.Lowered (blocks.flatMap fun block => block.1.raw ++ block.2)
      (results (blocks.flatMap (blockPieces threshold collapse))) ∧
      (results (blocks.flatMap (blockPieces threshold collapse)) =
          (blocks.flatMap fun block => block.1.raw ++ block.2) ↔
        ∀ block ∈ blocks, shouldUnwrap block.1.version threshold = false) := by
    induction blocks with
    | nil => exact ⟨.refl [], iff_of_true rfl (List.forall_mem_nil _)⟩
    | cons block blocks ih =>
        obtain ⟨guard, following⟩ := block
        have leaves : Leaves threshold collapse guard following _ :=
          leaves_blockPieces guard following
        obtain ⟨first, firstSame⟩ := leaves.lowered
        rw [List.flatMap_cons, List.flatMap_cons, results_append]
        refine ⟨first.append ih.1, ?_⟩
        rw [first.append_eq_iff ih.1, firstSame, ih.2, List.forall_mem_cons]
  refine ⟨(Text.Lowered.refl lead).append lowered.1, ?_⟩
  rw [← lowered.2]
  exact List.append_right_inj lead

theorem mem_ofSegments {segments : List Segment} {guard : Guard} :
    (∃ line, .guard guard line ∈ segments) ↔
      ∃ following, (guard, following) ∈ (ofSegments segments).blocks := by
  induction segments with
  | nil => simp [ofSegments]
  | cons segment segments ih =>
      cases segment with
      | text piece => simpa [ofSegments] using ih
      | guard first line =>
          simp only [ofSegments, List.mem_cons, Segment.guard.injEq,
            Prod.mk.injEq, exists_or, ih]
          simp

end Document

/-- Unwrapping returns the text exactly if no guard is taken off. -/
theorem unwrap_lowered (threshold : Nat) (collapse : Collapse) (text : Text) :
    let freed :=
      (Unwrapper.unwrap { threshold := threshold, collapse := collapse }
        (segmentsOf text)).2
    Text.Lowered text freed ∧ (freed = text ↔ GuardsStay threshold text) := by
  intro freed
  have freedEq :
      freed = results ((documentOf text).pieces threshold collapse) :=
    unwrap_segmentsOf threshold collapse text
  obtain ⟨lowered, same⟩ :=
    Document.lowered_results threshold collapse (documentOf text)
  rw [text_documentOf, ← freedEq] at lowered same
  refine ⟨lowered, same.trans ?_⟩
  constructor
  · intro stay guard line member
    obtain ⟨following, blockMember⟩ := Document.mem_ofSegments.mp ⟨line, member⟩
    simpa [shouldUnwrap] using stay (guard, following) blockMember
  · rintro stay ⟨guard, following⟩ member
    obtain ⟨line, segmentMember⟩ :=
      Document.mem_ofSegments.mpr ⟨following, member⟩
    simpa [shouldUnwrap] using stay guard line segmentMember

theorem guardsStay_of_noMarker {threshold : Nat} {text : Text}
    (noMarker : ∀ place, ({} : Lexer).inCodeAt text place = true →
      ¬guardMarker <+: text.drop place) : GuardsStay threshold text := by
  intro guard line member
  obtain ⟨following, blockMember⟩ := Document.mem_ofSegments.mp ⟨line, member⟩
  change (guard, following) ∈ (documentOf text).blocks at blockMember
  have lexed := lexed_documentOf text
  have joined := text_documentOf text
  generalize documentOf text = document at blockMember lexed joined
  cases lexed with
  | lead lead => exact absurd blockMember List.not_mem_nil
  | @block lead following first blocks toGuard throughGuard reached
      crossed behind =>
      -- The first guard begins behind the lead, where the text is in code.
      have whole : lead ++ (first.raw ++ Document.text ⟨following, blocks⟩) =
          text := by
        rw [← joined]
        simp [Document.text]
      have inCode := (joined.trans whole.symm ▸ reached).inCodeAt_append
      rw [whole] at inCode
      refine absurd ?_ (noMarker lead.length inCode)
      rw [← whole, List.drop_left, Guard.raw, List.append_assoc,
        List.append_assoc, List.append_assoc]
      exact List.prefix_append _ _

theorem guardsStay_of_scan {threshold : Nat} {text rest : Text} {guard : Guard}
    (complete : Guard.scan text = .complete guard rest)
    (stays : threshold ≤ guard.version) (noSlash : '/' ∉ rest) :
    GuardsStay threshold text := by
  have start : ({} : Scanner).lexer = {} := rfl
  obtain ⟨behind, behindText, document⟩ :=
    Scanner.document_of_scan start complete
  have same : documentOf text = (behind.withGuard guard).withEarlier [] := by
    rw [documentOf, segmentsOf_eq]
    exact document
  have noBlock : behind.blocks = [] := by
    refine List.eq_nil_iff_forall_not_mem.mpr fun block member => noSlash ?_
    rw [← behindText, Document.text]
    refine List.mem_append_right _ (List.mem_flatMap.mpr ⟨block, member, ?_⟩)
    simp [Guard.raw, guardMarker]
  intro other line member
  obtain ⟨following, blockMember⟩ := Document.mem_ofSegments.mp ⟨line, member⟩
  change (other, following) ∈ (documentOf text).blocks at blockMember
  rw [same] at blockMember
  simp only [Document.withEarlier, Document.withGuard, noBlock,
    List.mem_singleton, Prod.mk.injEq] at blockMember
  rw [blockMember.1]
  exact stays

end SqlDump
