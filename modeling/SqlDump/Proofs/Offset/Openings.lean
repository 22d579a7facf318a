import Mathlib.Algebra.GroupWithZero.Nat
import Mathlib.Algebra.Order.BigOperators.Group.List
import Mathlib.Algebra.Order.Group.Nat
import SqlDump.Pipeline
import SqlDump.Proofs.Offset.Lexer
import SqlDump.Proofs.Pipeline.Edits
import SqlDump.Proofs.Pipeline.History
import SqlDump.Proofs.Pipeline.Suppression

/-!
# Opening markers in what is written

Taking guards off and rewriting statements brings no opening marker into a text.
A marker may arise where two pieces meet, but then a longer piece with a marker
of its own has gone.  Only the options that a table gets bring in theirs.
-/

namespace SqlDump

open Text

variable {front behind text new old laterNew laterOld : Text}

/-- The opening marker that begins in one text and ends in the next. -/
def seam (front behind : Text) : Nat :=
  if front.getLast? = some '/' ∧ behind.head? = some '*' then 1 else 0

theorem seam_le_one (front behind : Text) : seam front behind ≤ 1 := by
  unfold seam
  split <;> simp

theorem seam_of_head (front : Text) (other : behind.head? ≠ some '*') :
    seam front behind = 0 :=
  if_neg fun marker => other marker.2

theorem seam_of_last (behind : Text) (other : front.getLast? ≠ some '/') :
    seam front behind = 0 :=
  if_neg fun marker => other marker.1

theorem openings_cons (head : Char) (behind : Text) :
    openings (head :: behind) = seam [head] behind + openings behind := by
  have begins : commentMarker <+: head :: behind ↔
      [head].getLast? = some '/' ∧ behind.head? = some '*' := by
    cases behind with
    | nil =>
        have longer : ¬commentMarker <+: [head] := fun marker =>
          absurd marker.length_le (by simp [commentMarker])
        simp [longer]
    | cons next tail => simp [commentMarker, eq_comm]
  simp only [openings, seam, begins]

private theorem openings_singleton (head : Char) : openings [head] = 0 := by
  rw [openings_cons, seam_of_head _ (by simp)]
  rfl

theorem openings_append (front behind : Text) :
    openings (front ++ behind) = openings front + seam front behind +
      openings behind := by
  induction front with
  | nil => simp [openings, seam]
  | cons head tail ih =>
      cases tail with
      | nil =>
          rw [List.singleton_append, openings_cons, openings_singleton,
            Nat.zero_add]
      | cons next tail =>
          have sameSeam : seam (head :: next :: tail) behind =
              seam (next :: tail) behind := by
            simp [seam]
          have sameStart : seam [head] (next :: tail ++ behind) =
              seam [head] (next :: tail) := rfl
          rw [List.cons_append, openings_cons, openings_cons head, ih, sameSeam,
            sameStart]
          omega

theorem openings_of_no_slash (noSlash : '/' ∉ text) : openings text = 0 := by
  induction text with
  | nil => rfl
  | cons head tail ih =>
      simp only [List.mem_cons, not_or] at noSlash
      have other : [head].getLast? ≠ some '/' := by
        simpa using Ne.symm noSlash.1
      rw [openings_cons, seam_of_last _ other, ih noSlash.2]

theorem not_mem_of_isAllBlank (blank : text.isAllBlank = true)
    {character : Char} (visible : isBlank character = false) :
    character ∉ text :=
  fun member =>
    Bool.false_ne_true (visible.symm.trans (List.all_eq_true.mp blank _ member))

theorem head?_of_isAllBlank (blank : text.isAllBlank = true) :
    text.head? ≠ some '*' :=
  fun begins =>
    not_mem_of_isAllBlank blank (by decide) (List.mem_of_head? begins)

private theorem openings_append_blanks (front : Text)
    (blank : text.isAllBlank = true) :
    openings (front ++ text) = openings front := by
  rw [openings_append, seam_of_head front (head?_of_isAllBlank blank),
    openings_of_no_slash (not_mem_of_isAllBlank blank (by decide))]
  rfl

/-- Wherever the new text takes the place of the old one, there are no more
opening markers. -/
def OpensNoMore (new old : Text) : Prop :=
  ∀ front behind, openings (front ++ (new ++ behind)) ≤
    openings (front ++ (old ++ behind))

namespace OpensNoMore

theorem refl (text : Text) : OpensNoMore text text :=
  fun _ _ => Nat.le_refl _

theorem append (first : OpensNoMore new old)
    (later : OpensNoMore laterNew laterOld) :
    OpensNoMore (new ++ laterNew) (old ++ laterOld) := by
  intro front behind
  have inner := later (front ++ new) behind
  have outer := first front (laterOld ++ behind)
  simp only [List.append_assoc] at inner outer ⊢
  exact inner.trans outer

theorem openings_le (fewer : OpensNoMore new old) :
    openings new ≤ openings old := by
  simpa using fewer [] []

/-- A text that meets its neighbours in no marker takes the place of any text
with as many. -/
theorem of_apart (nonempty : new ≠ []) (head : new.head? ≠ some '*')
    (last : new.getLast? ≠ some '/') (fewer : openings new ≤ openings old) :
    OpensNoMore new old := by
  intro front behind
  obtain ⟨first, others, rfl⟩ := List.exists_cons_of_ne_nil nonempty
  have outer := openings_add_le front (old ++ behind)
  have inner := openings_add_le old behind
  have begins : seam front (first :: others ++ behind) = 0 :=
    seam_of_head _ head
  rw [openings_append front, openings_append (first :: others), begins,
    seam_of_last _ last]
  omega

theorem pieces {pieces : List Piece}
    (replaced : ∀ original freed, .replaced original freed ∈ pieces →
      OpensNoMore freed original) :
    OpensNoMore (results pieces) (originals pieces) := by
  induction pieces with
  | nil => exact .refl []
  | cons piece pieces ih =>
      have later := ih fun original freed member =>
        replaced original freed (List.mem_cons_of_mem piece member)
      refine .append ?_ later
      cases piece with
      | copied text => exact .refl text
      | replaced original freed =>
          exact replaced original freed List.mem_cons_self

end OpensNoMore

namespace Unwrapper

variable {guard : Guard} {body : Text}

theorem openings_raw (guard : Guard) (behind : Text) :
    1 + openings (strippedInner guard) + openings ('/' :: behind) ≤
      openings (guard.raw ++ behind) := by
  obtain ⟨before, innerEq⟩ : ∃ before, guard.inner =
    before ++ guard.inner.dropWhile isPadding :=
    ⟨_, List.takeWhile_append_dropWhile.symm⟩
  obtain ⟨after, keptEq, -⟩ :=
    dropEndWhile_spec isPadding (guard.inner.dropWhile isPadding)
  have rawEq : guard.raw ++ behind =
      '/' :: '*' :: (('!' :: guard.digits ++ before) ++
        (strippedInner guard ++ ((after ++ ['*']) ++ '/' :: behind))) := by
    rw [Guard.raw, innerEq, keptEq, strippedInner]
    simp [guardMarker, closingMarker]
  have outer := openings_add_le ('!' :: guard.digits ++ before)
    (strippedInner guard ++ ((after ++ ['*']) ++ '/' :: behind))
  have inner :=
    openings_add_le (strippedInner guard) ((after ++ ['*']) ++ '/' :: behind)
  have last := openings_add_le (after ++ ['*']) ('/' :: behind)
  rw [rawEq, openings_marker]
  omega

private theorem opensNoMore_stripped (guard : Guard) :
    OpensNoMore (strippedInner guard) guard.raw := by
  intro front behind
  have outer := openings_add_le front (guard.raw ++ behind)
  have gone := openings_raw guard behind
  have begins := seam_le_one front (strippedInner guard ++ behind)
  have ends : seam (strippedInner guard) behind ≤ seam ['/'] behind := by
    unfold seam
    split
    · next marker => rw [if_pos ⟨rfl, marker.2⟩]
    · exact Nat.zero_le _
  rw [openings_cons] at gone
  rw [openings_append front, openings_append (strippedInner guard)]
  omega

private theorem terminated_spec (body : Text) :
    terminated body ≠ [] ∧ (terminated body).getLast? ≠ some '/' ∧
      openings (terminated body) ≤ openings body := by
  obtain ⟨parts, blank⟩ := trimEnd_append_drop body
  generalize blanksEq : body.drop body.trimEnd.length = blanks at parts blank
  have noSlash : '/' ∉ ';' :: blanks := by
    have inBlanks : '/' ∉ blanks :=
      not_mem_of_isAllBlank (List.all_eq_true.mpr blank) (by decide)
    simp [inBlanks]
  have ends (start : Text) : (start ++ ';' :: blanks).getLast? ≠ some '/' := by
    intro last
    rw [List.getLast?_append_of_ne_nil _ (List.cons_ne_nil _ _)] at last
    exact noSlash (List.mem_of_getLast? last)
  unfold terminated
  dsimp only
  split
  · next ended =>
      obtain ⟨start, codeEq⟩ := List.isSuffixOf_iff_suffix.mp ended
      have bodyEq : body = start ++ ';' :: blanks := by
        rw [parts, ← codeEq]
        simp
      refine ⟨?_, bodyEq ▸ ends start, Nat.le_refl _⟩
      rw [bodyEq]
      simp
  · rw [blanksEq]
    have whole := openings_add_le body.trimEnd blanks
    rw [← parts] at whole
    refine ⟨by simp, ends _, ?_⟩
    rw [openings_append, seam_of_head _ (by simp), openings_of_no_slash noSlash]
    omega

private theorem opensNoMore_terminated (guard : Guard) (gone : Text) :
    OpensNoMore (terminated (strippedInner guard))
      (guard.raw ++ ';' :: gone) := by
  intro front behind
  obtain ⟨nonempty, last, fewer⟩ := terminated_spec (strippedInner guard)
  have outer := openings_add_le front (guard.raw ++ (';' :: gone ++ behind))
  have lost := openings_raw guard (';' :: gone ++ behind)
  have kept := openings_add_le ['/'] (';' :: gone ++ behind)
  have later := openings_add_le (';' :: gone) behind
  have begins := seam_le_one front (terminated (strippedInner guard) ++ behind)
  rw [List.append_assoc guard.raw, openings_append front,
    openings_append (terminated (strippedInner guard)),
    seam_of_last behind last]
  rw [List.singleton_append] at kept
  omega

theorem openings_unwrap_le (threshold : Nat) (collapse : Collapse)
    (text : Text) :
    openings (Unwrapper.unwrap { threshold := threshold, collapse := collapse }
      (segmentsOf text)).2 ≤ openings text := by
  have fewer :
      OpensNoMore (results ((documentOf text).pieces threshold collapse))
      (originals ((documentOf text).pieces threshold collapse)) := by
    apply OpensNoMore.pieces
    intro original freed member
    have inBlocks : .replaced original freed ∈
        (documentOf text).blocks.flatMap
          (Document.blockPieces threshold collapse) :=
      (List.mem_cons.mp member).resolve_left (by simp)
    obtain ⟨⟨guard, following⟩, -, inBlock⟩ := List.mem_flatMap.mp inBlocks
    have leaves : Document.Leaves threshold collapse guard following _ :=
      Document.leaves_blockPieces guard following
    generalize Document.blockPieces threshold collapse (guard, following) =
      pieces
      at inBlock leaves
    cases leaves with
    | kept following keeps => simp at inBlock
    | freed following unwraps noTerminator =>
        obtain ⟨rfl, rfl⟩ : original = guard.raw ∧
          freed = strippedInner guard := by
          simpa using inBlock
        exact opensNoMore_stripped guard
    | terminated gone kept unwraps redundant =>
        obtain ⟨rfl, rfl⟩ : original = guard.raw ++ ';' :: gone ∧
            freed = terminated (strippedInner guard) := by simpa using inBlock
        exact opensNoMore_terminated guard gone
  rw [Document.originals_pieces, text_documentOf] at fewer
  rw [unwrap_segmentsOf]
  exact fewer.openings_le

end Unwrapper

namespace TimeZone

theorem openings_apply_le (atLineStart : Bool) (state : PipelineState)
    (text : Text) :
    openings (apply atLineStart state text).2 ≤ openings text := by
  have parts := (splitStatement_spec text).1
  unfold apply
  generalize splitStatement text = split at parts
  obtain ⟨lead, body⟩ := split
  dsimp only at parts ⊢
  split
  · split
    · next normalized changed =>
        obtain ⟨assignment, literal, ending, rfl, rfl, -⟩ :=
          normalize?_spec changed
        have literalFewer : OpensNoMore offsetLiteral literal :=
          .of_apart (by decide) (by decide) (by decide) (Nat.zero_le _)
        rw [parts]
        have fewer := literalFewer (lead ++ assignment) ending
        simpa only [List.append_assoc] using fewer
    · exact Nat.le_refl _
  · exact Nat.le_refl _

end TimeZone

namespace DropStatement

/-- What remains of a guard and the text behind it lies behind the guard. -/
theorem openings_remainder (body : Text) (guarded ownLine : Bool) :
    remainder body guarded ownLine = [] ∨
      1 + openings (remainder body guarded ownLine) ≤ openings body := by
  unfold remainder
  split
  · split
    · next guard behind scanned =>
        dsimp only
        have suffix :
            (if ownLine then dropLineBreak (behind.dropWhile (· == ';'))
            else behind.dropWhile (· == ';')) <:+ behind := by
          have terminators := List.dropWhile_suffix (l := behind) (· == ';')
          split
          · obtain ⟨front, split, -⟩ :=
              dropLineBreak_spec (behind.dropWhile (· == ';'))
            exact .trans ⟨front, split.symm⟩ terminators
          · exact terminators
        obtain ⟨front, split⟩ := suffix
        have kept := openings_add_le front (if ownLine then
          dropLineBreak (behind.dropWhile (· == ';'))
            else behind.dropWhile (· == ';'))
        have gone := Unwrapper.openings_raw guard behind
        have closing := openings_add_le ['/'] behind
        rw [split] at kept
        rw [← (Guard.begins_of_scan scanned).split] at gone
        rw [List.singleton_append] at closing
        right
        omega
    · exact .inl rfl
  · exact .inl rfl

private theorem openings_suppress_le (lead body : Text)
    (guarded ownLine : Bool) :
    openings (suppress lead body guarded ownLine) ≤
      openings (lead ++ body) := by
  obtain ⟨padding, leadEq, -⟩ := dropEndWhile_spec isPadding lead
  have kept := openings_add_le (lead.dropEndWhile isPadding) padding
  have whole := openings_add_le lead body
  rw [← leadEq] at kept
  unfold suppress
  dsimp only
  split
  · have blank : Text.isAllBlank (if ownLine then [] else finalLineBreak body) =
        true := by
      split
      · rfl
      · exact isAllBlank_finalLineBreak body
    rw [openings_append_blanks _ blank]
    omega
  · next visible =>
      have remains := (openings_remainder body guarded ownLine).resolve_left
        fun nothing =>
          visible (by rw [nothing]; rfl)
      have glue := seam_le_one (lead.dropEndWhile isPadding)
        (remainder body guarded ownLine)
      rw [openings_append]
      omega

theorem openings_apply_le (atLineStart : Bool) (state : PipelineState)
    (text : Text) :
    openings (apply atLineStart state text).2 ≤ openings text := by
  cases found : find? (text.drop (statementOffset text)) with
  | none => rw [apply, found]
  | some drop =>
      obtain ⟨body, guarded⟩ := drop
      obtain ⟨lead, rfl, -, -⟩ := passed_of_find? found
      rw [apply_of_find? atLineStart state found]
      exact openings_suppress_le lead body guarded _

end DropStatement

namespace Volatile

private theorem opensNoMore_timeEdits (atLineStart : Bool) (text : Text) :
    OpensNoMore (results (timeEdits atLineStart text)) text := by
  induction atLineStart, text using time_induction with
  | nil atLineStart =>
      rw [timeEdits]
      exact .refl []
  | comment rest ih =>
      -- The comment stays in front of the time, and behind it no marker can
      -- begin.
      have comment : OpensNoMore completedComment
          (completedComment ++ (timeStart ++ rest.takeWhile staysOnLine)) :=
        .of_apart (by decide) (by decide) (by decide) (Nat.zero_le _)
      have whole := comment.append ih
      simpa only [timeEdits_comment, results_cons, Piece.result,
        List.nil_append, List.append_assoc,
        List.takeWhile_append_dropWhile] using whole
  | character atLineStart head tail noComment ih =>
      rw [timeEdits_cons noComment, results_cons]
      exact (OpensNoMore.refl [head]).append ih

private theorem opensNoMore_counterEdits (lexer : Lexer) (before : Option Char)
    (text : Text) :
    OpensNoMore (results (counterEdits lexer before text)) text := by
  have fewer : OpensNoMore (results (counterEdits lexer before text))
      (originals (counterEdits lexer before text)) := by
    apply OpensNoMore.pieces
    intro original freed member
    obtain ⟨pieces, later, split⟩ := List.append_of_mem member
    obtain ⟨rfl, -⟩ := counterAt_of_replaced split
    exact .of_apart (by decide) (by decide) (by decide) (Nat.zero_le _)
  rwa [originals_counterEdits] at fewer

theorem openings_apply_le (state : PipelineState) (text : Text) :
    openings (apply state text).2 ≤ openings text := by
  have parts := (splitStatement_spec text).1
  have lead := opensNoMore_timeEdits true (splitStatement text).1
  have body :
      OpensNoMore (results (if Ddl.isCreateTable (splitStatement text).2 then
      counterEdits {} none (splitStatement text).2
        else [.copied (splitStatement text).2]))
      (splitStatement text).2 := by
    split
    · exact opensNoMore_counterEdits {} none _
    · simpa [results, Piece.result]
        using OpensNoMore.refl (splitStatement text).2
  have whole := lead.append body
  rw [← parts, ← results_append] at whole
  rw [← results_edits]
  exact whole.openings_le

end Volatile

/-- Opening markers in the options of a table. -/
def TableInfo.openings (info : TableInfo) : Nat :=
  (TableOption.all.map fun option =>
    SqlDump.openings ((option.value? info).getD [])).sum

def Catalog.openings (catalog : Catalog) : Nat :=
  (catalog.entries.map fun entry => entry.info.openings).sum

theorem Catalog.openings_of_mem {catalog : Catalog} {entry : CatalogEntry}
    (member : entry ∈ catalog.entries) :
    entry.info.openings ≤ catalog.openings :=
  List.le_sum_of_mem (List.mem_map_of_mem member)

namespace TableOption

variable {info : TableInfo} {option : TableOption}

private theorem openings_written (info : TableInfo) (option : TableOption) :
    openings (option.written info) =
      openings ((option.value? info).getD []) := by
  have last : option.label.getLast? ≠ some '/' := by cases option <;> decide
  have none : openings option.label = 0 := by cases option <;> decide
  rw [written, openings_append, seam_of_last _ last, none, Nat.zero_add]

private theorem openings_flatMap_written (info : TableInfo)
    (options : List TableOption) :
    openings (options.flatMap (written info)) =
      (options.map fun option =>
        openings ((option.value? info).getD [])).sum := by
  induction options with
  | nil => rfl
  | cons option options ih =>
      have space : (options.flatMap (written info)).head? ≠ some '*' := by
        cases options with
        | nil => simp
        | cons next later =>
            obtain ⟨tail, begins⟩ := written_eq_space info next
            simp [begins]
      rw [List.flatMap_cons, openings_append, seam_of_head _ space, ih,
        openings_written, Nat.add_zero, List.map_cons, List.sum_cons]

end TableOption

namespace TableOptions

open TableOption (lacking written)

variable {info : TableInfo} {behind : Text}

private theorem openings_insertion_le (info : TableInfo) (behind : Text) :
    openings (insertion info behind) ≤ info.openings := by
  have some : (lacking (optionsOf behind) info).Sublist TableOption.all :=
    List.filter_sublist
  rw [insertion, TableOption.openings_flatMap_written]
  exact (some.map _).sum_le_sum fun _ _ => Nat.zero_le _

/-- What is inserted stands in front of a blank, of a terminator, or of the
end. -/
theorem head?_afterOptions (behind : Text) :
    (afterOptions behind).head? ≠ some '*' := by
  obtain ⟨blanks, rest, -, afterEq, -, blank, line⟩ := options_parts behind
  rw [afterEq]
  cases blanks with
  | nil =>
      rcases line.ends with rfl | feed | terminator
      · simp
      · simp [feed]
      · have here := (Lexer.standsAt_iff.mp terminator).2
        rw [List.append_nil, List.nil_append,
          List.getElem?_append_right (Nat.le_refl _), Nat.sub_self,
          ← List.head?_eq_getElem?] at here
        simp [here]
  | cons first others =>
      have begins := head?_of_isAllBlank blank
      simpa using begins

/-- Completing a statement adds the markers of the options that it gets. -/
theorem openings_completed_le (front : Text) (info : TableInfo)
    (behind : Text) :
    openings (front ++ completed info behind) ≤ openings (front ++ behind) +
      info.openings := by
  by_cases nothing : lacking (optionsOf behind) info = []
  · rw [completed_of_lacking nothing]
    exact Nat.le_add_right _ _
  · obtain ⟨tail, begins⟩ := insertion_eq_space nothing
    have space : (insertion info behind ++ afterOptions behind).head? ≠
      some '*' := by
      simp [begins]
    have whole :=
      openings_add_le (front ++ keptOptions behind) (afterOptions behind)
    have inserted := openings_insertion_le info behind
    rw [List.append_assoc, keptOptions_append] at whole
    rw [completed, ← List.append_assoc,
      openings_append _ (insertion info behind ++ _), seam_of_head _ space,
      openings_append (insertion info behind),
      seam_of_head _ (head?_afterOptions behind)]
    omega

theorem openings_apply_le (state : PipelineState) (text : Text) :
    openings (apply state text).2 ≤ openings text + state.catalog.openings := by
  by_cases same : (apply state text).2 = text
  · rw [same]
    exact Nat.le_add_right _ _
  · obtain ⟨lead, named, columns, behind, info, create, completes, -⟩ :=
      exists_completes same
    obtain ⟨schema, found⟩ := completes.found
    obtain ⟨entry, member, rfl⟩ := Catalog.mem_of_resolve found
    have known := Catalog.openings_of_mem member
    have added := openings_completed_le (throughList lead named columns)
      entry.info behind
    rw [throughList_append _ _ _ behind, ← completes.creates.text_eq] at added
    rw [apply_text completes]
    omega

end TableOptions

namespace Stage

variable {stages : List Stage}

/-- How many opening markers the stages may bring into a text. -/
def room (stages : List Stage) (catalog : Catalog) : Nat :=
  stages.count .tableOptions * catalog.openings

theorem catalog_apply (stage : Stage) (atLineStart : Bool)
    (state : PipelineState) (text : Text) :
    (stage.apply atLineStart state text).1.catalog = state.catalog := by
  by_cases table : stage = .tableOptions
  · subst table
    exact (TableOptions.apply_remembers state text).1
  · obtain ⟨counts, same⟩ := apply_later table atLineStart state text
    rw [same]

private theorem catalog_applyAll (stages : List Stage) (atLineStart : Bool)
    (state : PipelineState) (text : Text) :
    (applyAll atLineStart stages state text).1.catalog = state.catalog := by
  induction stages generalizing state text with
  | nil => rfl
  | cons stage stages ih =>
      cases text with
      | nil => rfl
      | cons head tail =>
          exact (ih _ _).trans (catalog_apply stage atLineStart state _)

theorem openings_apply_le (stage : Stage) (stages : List Stage)
    (atLineStart : Bool) (state : PipelineState) (text : Text) :
    openings (stage.apply atLineStart state text).2 +
        room stages (stage.apply atLineStart state text).1.catalog ≤
      openings text + room (stage :: stages) state.catalog := by
  rw [catalog_apply]
  cases stage with
  | tableOptions =>
      have added := TableOptions.openings_apply_le state text
      simp only [room, List.count_cons_self, Nat.succ_mul, apply]
      omega
  | timeZone =>
      exact Nat.add_le_add_right
        (TimeZone.openings_apply_le atLineStart state text) _
  | dropStatement =>
      exact Nat.add_le_add_right
        (DropStatement.openings_apply_le atLineStart state text) _
  | volatile =>
      exact Nat.add_le_add_right (Volatile.openings_apply_le state text) _

end Stage

namespace Pipeline

def room (pipeline : Pipeline) : Nat :=
  Stage.room pipeline.stages pipeline.state.catalog

theorem room_process (pipeline : Pipeline) (unit : StatementUnit) :
    (pipeline.process unit).1.room = pipeline.room := by
  unfold process
  split
  · rfl
  · simp only [room, Stage.catalog_applyAll]

theorem room_processAll (pipeline : Pipeline) (units : List StatementUnit) :
    (pipeline.processAll units).1.room = pipeline.room := by
  induction units generalizing pipeline with
  | nil => rfl
  | cons unit units ih => exact (ih _).trans (pipeline.room_process unit)

end Pipeline

end SqlDump
