import SqlDump.Proofs.Unwrap.Kept

/-!
# What unwrapping conserves

Apart from the markers of the guards that it takes off, unwrapping touches only
blanks, line breaks and terminators.  `Edited` lines the text that leaves up
with the text that came: padding goes, a terminator goes behind a guard and
comes back on its text, and a line break goes as a whole.  Such an alignment is
given for every guard with the text behind it, and alignments join.
-/

namespace SqlDump

/-- What of a guard can leave: its text if it is taken off, and all of it
otherwise. -/
def Guard.content (threshold : Nat) (guard : Guard) : Text :=
  if shouldUnwrap guard.version threshold then guard.inner else guard.raw

namespace Segment

def content (threshold : Nat) : Segment → Text
  | .text piece => piece
  | .guard found _ => found.content threshold

def isGuard : Segment → Bool
  | .text _ => false
  | .guard _ _ => true

end Segment

/-- The characters that unwrapping never adds and never drops. -/
def isSteady (character : Char) : Bool :=
  character ∉ [' ', '\t', '\r', '\n', ';']

/-- The second text is the first one with padding and terminators dropped,
terminators set, and line breaks dropped as the mode allows.  Counted are the
terminators dropped, the terminators set and the line breaks dropped. -/
inductive Edited (collapse : Collapse) :
    Text → Text → Nat → Nat → Nat → Prop where
  | nil : Edited collapse [] [] 0 0 0
  | keep {input output : Text} {taken set breaks : Nat} (character : Char)
      (behind : Edited collapse input output taken set breaks) :
      Edited collapse (character :: input) (character :: output) taken set
        breaks
  | dropPadding {input output : Text} {taken set breaks : Nat}
      {character : Char} (padding : isPadding character = true)
      (behind : Edited collapse input output taken set breaks) :
      Edited collapse (character :: input) output taken set breaks
  | dropTerminator {input output : Text} {taken set breaks : Nat}
      (behind : Edited collapse input output taken set breaks) :
      Edited collapse (';' :: input) output (taken + 1) set breaks
  | setTerminator {input output : Text} {taken set breaks : Nat}
      (behind : Edited collapse input output taken set breaks) :
      Edited collapse input (';' :: output) taken (set + 1) breaks
  | dropLineFeed {input output : Text} {taken set breaks : Nat}
      (allowed : collapse ≠ .off)
      (behind : Edited collapse input output taken set breaks) :
      Edited collapse ('\n' :: input) output taken set (breaks + 1)
  /-- A carriage return goes together with the line feed behind it. -/
  | dropLineBreak {input output : Text} {taken set breaks : Nat}
      (allowed : collapse = .any)
      (behind : Edited collapse input output taken set breaks) :
      Edited collapse ('\r' :: '\n' :: input) output taken set (breaks + 1)

namespace Edited

variable {collapse : Collapse} {input output : Text} {taken set breaks : Nat}

theorem refl (text : Text) : Edited collapse text text 0 0 0 := by
  induction text with
  | nil => exact .nil
  | cons head tail ih => exact .keep head ih

theorem padding {blanks : Text}
    (padding : ∀ character ∈ blanks, isPadding character = true) :
    Edited collapse blanks [] 0 0 0 := by
  induction blanks with
  | nil => exact .nil
  | cons head tail ih =>
      exact .dropPadding (padding head (.head tail))
        (ih fun character member => padding character (.tail head member))

theorem append {laterInput laterOutput : Text}
    {laterTaken laterSet laterBreaks : Nat}
    (first : Edited collapse input output taken set breaks)
    (second : Edited collapse laterInput laterOutput laterTaken laterSet
        laterBreaks) :
    Edited collapse (input ++ laterInput) (output ++ laterOutput)
      (taken + laterTaken)
      (set + laterSet) (breaks + laterBreaks) := by
  induction first with
  | nil => simpa using second
  | keep character behind ih => exact .keep character ih
  | dropPadding padding behind ih => exact .dropPadding padding ih
  | dropTerminator behind ih =>
      rw [Nat.add_right_comm]
      exact .dropTerminator ih
  | setTerminator behind ih =>
      rw [Nat.add_right_comm]
      exact .setTerminator ih
  | dropLineFeed allowed behind ih =>
      rw [Nat.add_right_comm]
      exact .dropLineFeed allowed ih
  | dropLineBreak allowed behind ih =>
      rw [Nat.add_right_comm]
      exact .dropLineBreak allowed ih

private theorem steady
    (edited : Edited collapse input output taken set breaks) :
    output.filter isSteady = input.filter isSteady := by
  induction edited with
  | nil => rfl
  | keep character behind ih => rw [List.filter_cons, List.filter_cons, ih]
  | dropPadding padding behind ih =>
      have loose := padding
      simp only [isPadding, Bool.or_eq_true, beq_iff_eq] at loose
      rw [ih, List.filter_cons_of_neg]
      rcases loose with rfl | rfl <;> decide
  | dropTerminator behind ih => exact ih
  | setTerminator behind ih => exact ih
  | dropLineFeed allowed behind ih => exact ih
  | dropLineBreak allowed behind ih => exact ih

/-- Every other character than padding is as frequent as before, apart from the
terminators and the line breaks; the `pairs` are the line breaks that hold a
carriage return. -/
theorem counts (edited : Edited collapse input output taken set breaks) :
    ∃ pairs ≤ breaks, ∀ character, isPadding character = false →
      input.count character + [';'].count character * set =
        output.count character + [';'].count character * taken +
          ['\n'].count character * breaks + ['\r'].count character * pairs := by
  induction edited with
  | nil => exact ⟨0, Nat.le_refl 0, fun character _ => rfl⟩
  | keep first behind ih =>
      obtain ⟨pairs, within, same⟩ := ih
      refine ⟨pairs, within, fun character visible => ?_⟩
      have later := same character visible
      have counted (text : Text) : (first :: text).count character =
          text.count character + if first == character then 1 else 0 :=
            List.count_cons
      rw [counted, counted]
      omega
  | @dropPadding _ _ _ _ _ first padding behind ih =>
      obtain ⟨pairs, within, same⟩ := ih
      refine ⟨pairs, within, fun character visible => ?_⟩
      have other : first ≠ character := by
        rintro rfl
        exact Bool.false_ne_true (visible.symm.trans padding)
      rw [List.count_cons_of_ne other]
      exact same character visible
  | dropTerminator behind ih =>
      obtain ⟨pairs, within, same⟩ := ih
      refine ⟨pairs, within, fun character visible => ?_⟩
      have later := same character visible
      simp only [List.count_cons, List.count_nil, Nat.mul_succ] at later ⊢
      omega
  | setTerminator behind ih =>
      obtain ⟨pairs, within, same⟩ := ih
      refine ⟨pairs, within, fun character visible => ?_⟩
      have later := same character visible
      simp only [List.count_cons, List.count_nil, Nat.mul_succ] at later ⊢
      omega
  | dropLineFeed allowed behind ih =>
      obtain ⟨pairs, within, same⟩ := ih
      refine ⟨pairs, Nat.le_succ_of_le within, fun character visible => ?_⟩
      have later := same character visible
      simp only [List.count_cons, List.count_nil, Nat.mul_succ] at later ⊢
      omega
  | dropLineBreak allowed behind ih =>
      obtain ⟨pairs, within, same⟩ := ih
      refine ⟨pairs + 1, Nat.succ_le_succ within, fun character visible => ?_⟩
      have later := same character visible
      simp only [List.count_cons, List.count_nil, Nat.mul_succ] at later ⊢
      omega

private theorem count_semicolon
    (edited : Edited collapse input output taken set breaks) :
    input.count ';' + set = output.count ';' + taken := by
  obtain ⟨pairs, -, same⟩ := edited.counts
  simpa using same ';' rfl

private theorem count_lineFeed
    (edited : Edited collapse input output taken set breaks) :
    input.count '\n' = output.count '\n' + breaks := by
  obtain ⟨pairs, -, same⟩ := edited.counts
  simpa using same '\n' rfl

private theorem count_carriageReturn
    (edited : Edited collapse input output taken set breaks) :
    ∃ pairs ≤ breaks, input.count '\r' = output.count '\r' + pairs := by
  obtain ⟨pairs, within, same⟩ := edited.counts
  exact ⟨pairs, within, by simpa using same '\r' rfl⟩

private theorem breaks_eq_zero (off : collapse = .off)
    (edited : Edited collapse input output taken set breaks) : breaks = 0 := by
  induction edited with
  | nil => rfl
  | keep character behind ih => exact ih
  | dropPadding padding behind ih => exact ih
  | dropTerminator behind ih => exact ih
  | setTerminator behind ih => exact ih
  | dropLineFeed allowed behind ih => exact absurd off allowed
  | dropLineBreak allowed behind ih =>
      exact absurd (off.symm.trans allowed) (by decide)

end Edited

/-- Terminators are moved: all that are dropped are set again, apart from the
`doubled` ones, and no more line breaks than terminators are dropped. -/
def Rearranged (collapse : Collapse) (input output : Text)
    (moved doubled : Nat) : Prop :=
  ∃ set breaks, set + doubled = moved ∧ breaks ≤ moved ∧
    Edited collapse input output moved set breaks

namespace Rearranged

variable {collapse : Collapse} {input output : Text} {moved doubled : Nat}

theorem refl (text : Text) : Rearranged collapse text text 0 0 :=
  ⟨0, 0, rfl, Nat.le_refl 0, .refl text⟩

theorem append {laterInput laterOutput : Text} {laterMoved laterDoubled : Nat}
    (first : Rearranged collapse input output moved doubled)
    (second : Rearranged collapse laterInput laterOutput laterMoved
        laterDoubled) :
    Rearranged collapse (input ++ laterInput) (output ++ laterOutput)
      (moved + laterMoved)
      (doubled + laterDoubled) := by
  obtain ⟨set, breaks, accounted, within, edited⟩ := first
  obtain ⟨laterSet, laterBreaks, laterAccounted, laterWithin, laterEdited⟩ :=
    second
  exact ⟨set + laterSet, breaks + laterBreaks, by omega, by omega,
    edited.append laterEdited⟩

end Rearranged

/-- A terminator follows the guard that is taken off. -/
def reattaches (threshold : Nat) (block : Guard × Text) : Bool :=
  shouldUnwrap block.1.version threshold && block.2.head? == some ';'

/-- A terminator follows a text that has its own one in front of its blanks. -/
def doubles (threshold : Nat) (block : Guard × Text) : Bool :=
  reattaches threshold block &&
    Text.endsWith (Unwrapper.strippedInner block.1).trimEnd [';']

namespace Unwrapper

theorem edited_inner {collapse : Collapse} {guard : Guard} {output : Text}
    {taken set breaks : Nat}
    (edited : Edited collapse (strippedInner guard) output taken set breaks) :
    Edited collapse guard.inner output taken set breaks := by
  obtain ⟨back, split, backPadding⟩ :=
    Text.dropEndWhile_spec isPadding (guard.inner.dropWhile isPadding)
  have frontPadding : ∀ character ∈ guard.inner.takeWhile isPadding,
      isPadding character = true :=
    fun character member =>
      List.all_eq_true.mp List.all_takeWhile character member
  have innerEq : guard.inner =
      guard.inner.takeWhile isPadding ++ (strippedInner guard ++ back) := by
    rw [strippedInner, ← split, List.takeWhile_append_dropWhile]
  have padded :=
    (Edited.padding frontPadding).append (edited.append (.padding backPadding))
  rw [← innerEq] at padded
  simpa using padded

private theorem edited_terminated (collapse : Collapse) (body : Text) :
    Edited collapse body (terminated body) 0
      (!Text.endsWith body.trimEnd [';']).toNat 0 := by
  have split := body.trimEnd_append_drop.1
  unfold terminated
  dsimp only
  generalize body.drop body.trimEnd.length = blanks at split ⊢
  cases Text.endsWith body.trimEnd [';'] with
  | true => exact .refl body
  | false =>
      have parts : Edited collapse (body.trimEnd ++ blanks) _ _ _ _ :=
        (Edited.refl body.trimEnd).append (.setTerminator (.refl blanks))
      rwa [← split] at parts

end Unwrapper

namespace Document

variable {threshold : Nat} {collapse : Collapse} {guard : Guard}
  {following : Text} {pieces : List Piece}

private theorem edited_redundant {body gone kept : Text}
    (redundant : gone.length = redundantLength collapse body (gone ++ kept)) :
    ∃ breaks ≤ 1, Edited collapse gone [] 0 0 breaks := by
  rcases redundant_cases redundant with rfl | ⟨rfl, mode⟩ | ⟨rfl, mode⟩
  · exact ⟨0, Nat.zero_le 1, .nil⟩
  · exact ⟨1, Nat.le_refl 1, .dropLineFeed mode .nil⟩
  · exact ⟨1, Nat.le_refl 1, .dropLineBreak mode .nil⟩

/-- What leaves for a guard and the text behind it. -/
theorem Leaves.rearranged
    (leaves : Leaves threshold collapse guard following pieces) :
    Rearranged collapse (guard.content threshold ++ following) (results pieces)
      (if reattaches threshold (guard, following) then 1 else 0)
      (if doubles threshold (guard, following) then 1 else 0) := by
  cases leaves with
  | kept following keeps =>
      have none : reattaches threshold (guard, following) = false := by
        simp [reattaches, keeps]
      rw [doubles, none, Guard.content, keeps, results_cons, results_nil,
        List.append_nil]
      exact .refl _
  | freed following unwraps noTerminator =>
      have none : reattaches threshold (guard, following) = false := by
        simp [reattaches, noTerminator]
      have freed : Edited collapse _ _ 0 0 0 :=
        Unwrapper.edited_inner (.refl (Unwrapper.strippedInner guard))
      rw [doubles, none, Guard.content, if_pos unwraps, results_cons,
        results_cons, results_nil, List.append_nil]
      exact ⟨0, 0, rfl, Nat.le_refl 0, freed.append (.refl following)⟩
  | terminated gone kept unwraps redundant =>
      have one : reattaches threshold (guard, ';' :: (gone ++ kept)) =
          true := by
        simp [reattaches, unwraps]
      obtain ⟨breaks, atMostOne, goes⟩ := edited_redundant redundant
      have freed := Unwrapper.edited_inner
        (Unwrapper.edited_terminated collapse (Unwrapper.strippedInner guard))
      have edited := freed.append (.dropTerminator (goes.append (.refl kept)))
      rw [doubles, one, Guard.content, if_pos unwraps, results_cons,
        results_cons, results_nil, List.append_nil]
      generalize Text.endsWith (Unwrapper.strippedInner guard).trimEnd [';'] =
        ended at edited ⊢
      refine ⟨(!ended).toNat, breaks, ?_, atMostOne, ?_⟩
      · cases ended <;> rfl
      · simpa [Piece.result] using edited

def content (threshold : Nat) (document : Document) : Text :=
  document.lead ++ document.blocks.flatMap fun block =>
    block.1.content threshold ++ block.2

private theorem content_ofSegments (threshold : Nat) (segments : List Segment) :
    (ofSegments segments).content threshold =
      segments.flatMap (Segment.content threshold) := by
  induction segments with
  | nil => rfl
  | cons segment segments ih =>
      rw [List.flatMap_cons, ← ih]
      cases segment with
      | text piece => simp [ofSegments, content, Segment.content]
      | guard guard line => simp [ofSegments, content, Segment.content]

private theorem rearranged_pieces (threshold : Nat) (collapse : Collapse)
    (document : Document) :
    Rearranged collapse (document.content threshold)
      (results (document.pieces threshold collapse))
      (document.blocks.countP (reattaches threshold))
      (document.blocks.countP (doubles threshold)) := by
  obtain ⟨lead, blocks⟩ := document
  have joined : Rearranged collapse
      (blocks.flatMap fun block => block.1.content threshold ++ block.2)
      (results (blocks.flatMap (blockPieces threshold collapse)))
      (blocks.countP (reattaches threshold))
        (blocks.countP (doubles threshold)) := by
    induction blocks with
    | nil => exact .refl []
    | cons block blocks ih =>
        have leaves : Leaves threshold collapse block.1 block.2 _ :=
          leaves_blockPieces block.1 block.2
        rw [List.flatMap_cons, List.flatMap_cons, results_append,
          List.countP_cons, List.countP_cons, Nat.add_comm,
          Nat.add_comm (blocks.countP (doubles threshold))]
        exact leaves.rearranged.append ih
  have whole := (Rearranged.refl lead).append joined
  rwa [Nat.zero_add, Nat.zero_add] at whole

end Document

namespace Unwrapper

variable {unwrapper : Unwrapper}

/-- A guard and the text behind it count one terminator if it moves. -/
theorem reattached_block (unwrapper : Unwrapper) (guard : Guard)
    (following : Text) :
    ((unwrapper.acceptGuard guard).1.acceptText following).1.reattached =
      unwrapper.reattached +
        if reattaches unwrapper.threshold (guard, following) then 1 else 0 := by
  cases unwraps : shouldUnwrap guard.version unwrapper.threshold with
  | false =>
      simp only [acceptGuard, unwraps, reattaches]
      rw [acceptText_of_none following rfl]
      rfl
  | true =>
      simp only [acceptGuard, unwraps, if_true, reattaches, Bool.true_and]
      cases following with
      | nil => rfl
      | cons head tail =>
          by_cases terminator : head = ';'
          · rw [terminator, acceptText_terminator tail rfl]
            exact congrArg Unwrapper.reattached (settled_reattach _ tail)
          · rw [acceptText_of_body tail rfl terminator]
            simp [terminator, settled]

private theorem reattached_blocks (unwrapper : Unwrapper)
    (blocks : List (Guard × Text)) :
    (unwrapper.acceptAll
        (blocks.flatMap fun block =>
          [.guard block.1 0, .text block.2])).1.reattached =
      unwrapper.reattached + blocks.countP
        (reattaches unwrapper.threshold) := by
  induction blocks generalizing unwrapper with
  | nil => rfl
  | cons block blocks ih =>
      obtain ⟨guard, following⟩ := block
      have counted := unwrapper.reattached_block guard following
      have mode :
          ((unwrapper.acceptGuard guard).1.acceptText following).1.threshold =
            unwrapper.threshold := by
        rw [(sameMode_acceptText _ following).1]
        exact (unwrapper.accept_count (.guard guard 0)).1
      have both : (unwrapper.acceptAll [.guard guard 0, .text following]).1 =
          ((unwrapper.acceptGuard guard).1.acceptText following).1 := rfl
      rw [List.flatMap_cons, acceptAll_append, ih, both, counted, mode,
        List.countP_cons]
      omega

/-- Counted are the guards that are taken off and that a terminator follows. -/
theorem reattached_unwrap (threshold : Nat) (collapse : Collapse)
    (segments : List Segment) :
    (unwrap { threshold := threshold, collapse := collapse }
      segments).1.reattached =
      (Document.ofSegments segments).blocks.countP (reattaches threshold) := by
  let unwrapper : Unwrapper := { threshold := threshold, collapse := collapse }
  change (unwrapper.acceptAll segments).1.reattached = _
  rw [← acceptAll_ofSegments, Document.segments, acceptAll]
  rw [show unwrapper.accept (.text (Document.ofSegments segments).lead) =
    (unwrapper,
    (Document.ofSegments segments).lead) from acceptText_of_none _ rfl]
  exact (unwrapper.reattached_blocks _).trans (Nat.zero_add _)

private theorem countP_blocks (threshold : Nat) (segments : List Segment) :
    (Document.ofSegments segments).blocks.countP
        (fun block => shouldUnwrap block.1.version threshold) =
      segments.countP (Segment.below threshold) := by
  induction segments with
  | nil => rfl
  | cons segment segments ih =>
      cases segment with
      | text piece => exact ih
      | guard guard line =>
          rw [List.countP_cons, ← ih]
          exact List.countP_cons

private theorem accept_guards (unwrapper : Unwrapper) (segment : Segment) :
    (unwrapper.accept segment).1.unwrapped + (unwrapper.accept segment).1.kept =
      unwrapper.unwrapped + unwrapper.kept + if segment.isGuard then 1
        else 0 := by
  cases segment with
  | text text =>
      obtain ⟨-, -, unwrapped, kept⟩ := unwrapper.sameMode_acceptText text
      rw [accept, unwrapped, kept]
      rfl
  | guard guard line =>
      unfold accept acceptGuard
      dsimp only
      split
      · exact Nat.add_right_comm _ 1 _
      · rfl

theorem acceptAll_guards (unwrapper : Unwrapper) (segments : List Segment) :
    (unwrapper.acceptAll segments).1.unwrapped +
        (unwrapper.acceptAll segments).1.kept =
      unwrapper.unwrapped + unwrapper.kept +
        segments.countP Segment.isGuard := by
  induction segments generalizing unwrapper with
  | nil => rfl
  | cons segment segments ih =>
      have first := unwrapper.accept_guards segment
      have later := ih (unwrapper.accept segment).1
      rw [List.countP_cons]
      simp only [acceptAll]
      omega

/-- Whatever the segments, unwrapping keeps every character but blanks, line
breaks and terminators.  A terminator is lost where it follows a text that has
its own one.  At most one line break is lost for each terminator that moves,
none if the mode is off, and a carriage return only together with the line feed
behind it.  Every guard is counted, and without one below the threshold the
output is the input. -/
theorem unwrap_conserves (threshold : Nat) (collapse : Collapse)
    (segments : List Segment) :
    let unwrapped :=
      unwrap { threshold := threshold, collapse := collapse } segments
    let input := segments.flatMap (Segment.content threshold)
    let output := unwrapped.2
    let stats := unwrapped.1
    let blocks := (Document.ofSegments segments).blocks
    output.filter isSteady = input.filter isSteady ∧
      input.count ';' = output.count ';' + blocks.countP (doubles threshold) ∧
      (output.count '\n' ≤ input.count '\n' ∧
        input.count '\n' ≤ output.count '\n' + stats.reattached ∧
        (collapse = .off → output.count '\n' = input.count '\n')) ∧
      (output.count '\r' ≤ input.count '\r' ∧
        input.count '\r' - output.count '\r' ≤
          input.count '\n' - output.count '\n' ∧
        ∃ set breaks, Edited collapse input output stats.reattached
          set breaks) ∧
      stats.reattached = blocks.countP (reattaches threshold) ∧
      stats.unwrapped + stats.kept = segments.countP Segment.isGuard ∧
      stats.reattached ≤ stats.unwrapped ∧
      ((∀ guard line, .guard guard line ∈ segments →
          threshold ≤ guard.version) →
        output = segments.flatMap Segment.raw) := by
  intro unwrapped input output stats blocks
  have moved : stats.reattached = blocks.countP (reattaches threshold) :=
    reattached_unwrap threshold collapse segments
  obtain ⟨set, breaks, accounted, within, edited⟩ :
      Rearranged collapse input output stats.reattached
        (blocks.countP (doubles threshold)) := by
    have rearranged :=
      Document.rearranged_pieces threshold collapse
        (Document.ofSegments segments)
    rw [Document.content_ofSegments, ← unwrap_eq_results] at rearranged
    rwa [moved]
  have semicolons := edited.count_semicolon
  have lineFeeds := edited.count_lineFeed
  obtain ⟨pairs, paired, carriageReturns⟩ := edited.count_carriageReturn
  refine ⟨edited.steady, by omega, ⟨by omega, by omega, fun off => ?_⟩,
    ⟨by omega, by omega, set, breaks, edited⟩, moved, ?_, ?_, fun kept => ?_⟩
  · rw [lineFeeds, edited.breaks_eq_zero off, Nat.add_zero]
  · exact (acceptAll_guards _ segments).trans (Nat.zero_add _)
  · have counted :
        stats.unwrapped = segments.countP (Segment.below threshold) :=
      (acceptAll_count _ segments).trans (Nat.zero_add _)
    rw [moved, counted, ← countP_blocks]
    apply List.countP_mono_left
    intro block _ reattaches
    simp only [SqlDump.reattaches, Bool.and_eq_true] at reattaches
    exact reattaches.1
  · obtain ⟨same, idle, -⟩ := acceptAll_of_kept
      { threshold := threshold, collapse := collapse } segments rfl kept
    change (acceptAll _ segments).2 ++
      heldBack (acceptAll _ segments).1.pending = _
    rw [same, idle]
    exact List.append_nil _

end Unwrapper

end SqlDump
