import SqlDump.Pipeline
import SqlDump.Proofs.Offset.Counters
import SqlDump.Proofs.Offset.Openings
import SqlDump.Proofs.Offset.Table
import SqlDump.Proofs.Pipeline.Suppression

/-!
# The stages by bytes

The pipeline of a program that cuts every unit at byte offsets.  It comes to the
end of every unit, and if all comments are counted right the texts that it
returns are those of the pipeline.
-/

namespace SqlDump

open Text

namespace Offset

variable {counter : DepthCounter} {text body : Text}

def timeZone (counter : DepthCounter) (atLineStart : Bool)
    (state : PipelineState) (text : Text) :
    Checked (PipelineState × Text) := do
  let offset ← statementPlace counter text
  if ← startsLine text offset atLineStart then do
    let body ← text.since offset
    match TimeZone.normalize? body with
    | none => .ok (state, text)
    | some normalized => do
        let lead ← text.upTo offset
        .ok ({ state with
          counts := { state.counts with
            timeZonesNormalized := state.counts.timeZonesNormalized + 1 } },
          lead ++ normalized)
  else .ok (state, text)

private theorem timeZone_spec (atLineStart : Bool) (state : PipelineState)
    (serves : counter.Serves {} text) :
    ∃ result, timeZone counter atLineStart state text = .ok result ∧
      (counter.Counts {} text →
        TimeZone.apply atLineStart state text = result) := by
  obtain ⟨lead, body, rfl, placeEq, ideal⟩ := statementPlace_spec serves
  refine ⟨if beginsLine lead atLineStart then
      (TimeZone.normalize? body).elim (state, lead ++ body) fun normalized =>
        ({ state with
          counts := { state.counts with
            timeZonesNormalized := state.counts.timeZonesNormalized + 1 } },
          lead ++ normalized)
    else (state, lead ++ body), ?_, fun counts => ?_⟩
  · simp only [timeZone, placeEq, Checked.ok_bind, startsLine_append,
      since_append, upTo_append]
    cases beginsLine lead atLineStart with
    | false => rfl
    | true => cases TimeZone.normalize? body <;> rfl
  · simp only [TimeZone.apply, ideal counts]
    cases beginsLine lead atLineStart with
    | false => rfl
    | true => cases TimeZone.normalize? body <;> rfl

def dropTurn (counter : DepthCounter) (text : Text) (_ : Unit) (offset : Nat) :
    Checked (Turn Unit (Option (Nat × Bool))) := do
  let body ← text.since offset
  let (word, guarded) ← firstKeyword counter body
  if sameAsciiWord word DropStatement.keyword then
    .ok (.stop (some (offset, guarded)))
  else if guarded then do
    match ← skipGuard counter text offset with
    | some next => .ok (.goOn () (next - offset))
    | none => .ok (.stop none)
  else .ok (.stop none)

/-- Byte offset of the first statement or guard that drops something, from the
offset on, and whether it is a guard. -/
def dropPlace? (counter : DepthCounter) (text : Text) (offset : Nat) :
    Checked (Option (Nat × Bool)) :=
  walk (text.size + 1) (dropTurn counter text) (fun _ _ => none) () offset

def dropRemainder (counter : DepthCounter) (body : Text)
    (guarded ownLine : Bool) : Checked Text :=
  if guarded then do
    match ← scanGuard counter body with
    | .complete _ _ _ finish => do
        let behind ← body.since finish
        let rest := behind.dropWhile (· == ';')
        .ok (if ownLine then DropStatement.dropLineBreak rest else rest)
    | _ => .ok []
  else .ok []

def dropStatement (counter : DepthCounter) (atLineStart : Bool)
    (state : PipelineState) (text : Text) : Checked (PipelineState × Text) := do
  match ← dropPlace? counter text (← statementOffset counter text) with
  | none => .ok (state, text)
  | some (offset, guarded) => do
      let body ← text.since offset
      let ownLine ← startsLine text offset atLineStart
      let rest ← dropRemainder counter body guarded ownLine
      let lead ← text.upTo offset
      let kept ← text.upTo (lead.dropEndWhile isPadding).size
      .ok ({ state with
        counts := { state.counts with
          dropsSuppressed := state.counts.dropsSuppressed + 1 } },
        kept ++
          if rest.isAllBlank then
            (if ownLine then [] else DropStatement.finalLineBreak body)
          else rest)

private theorem behind?_of_unguarded
    (unguarded : (SqlDump.firstKeyword body).2 = false) :
    Guard.behind? body = none := by
  unfold SqlDump.firstKeyword at unguarded
  unfold Guard.behind?
  split at unguarded
  · simp at unguarded
  · rfl

private theorem find?_passes
    (other : ¬sameAsciiWord (SqlDump.firstKeyword body).1
        DropStatement.keyword = true) :
    DropStatement.find? body =
      (Guard.behind? body).bind DropStatement.find? := by
  rw [DropStatement.find?]
  simp only [if_neg other]
  split
  · next rest found => rw [found, Option.bind_some]
  · next none => rw [none, Option.bind_none]

/-- Behind `lead` the search over bytes finds what the search over characters
finds: the text that it passes over and, from there on, what is dropped. -/
structure DropFound (counter : DepthCounter) (lead body : Text)
    (found : Option (Text × Text × Bool)) : Prop where
  place_eq : dropPlace? counter (lead ++ body) lead.size =
    .ok (found.map fun parts => (size (lead ++ parts.1), parts.2.2))
  splits : ∀ skipped rest guarded, found = some (skipped, rest, guarded) →
    body = skipped ++ rest
  ideal : counter.Counts {} body → DropStatement.find? body = found.map Prod.snd

theorem lead_within (lead body : Text) :
    lead.size < (lead ++ body).size + 1 := by
  rw [size_append]
  omega

theorem DropFound.none {lead : Text}
    (turn : dropTurn counter (lead ++ body) () lead.size = .ok (.stop none))
    (ideal : counter.Counts {} body → DropStatement.find? body = none) :
    DropFound counter lead body none where
  place_eq := walk_stop (lead_within lead body) turn
  splits := by simp
  ideal := ideal

theorem DropFound.here {lead word : Text} {guarded : Bool}
    (wordEq : firstKeyword counter body = .ok (word, guarded))
    (ideal : counter.Counts {} body →
        SqlDump.firstKeyword body = (word, guarded))
    (drops : sameAsciiWord word DropStatement.keyword = true) :
    DropFound counter lead body (some ([], body, guarded)) where
  place_eq := by
    have turn : dropTurn counter (lead ++ body) () lead.size =
        .ok (.stop (some (lead.size, guarded))) := by
      simp only [dropTurn, since_append, Checked.ok_bind, wordEq, if_pos drops]
    rw [dropPlace?, walk_stop (lead_within lead body) turn, Option.map_some,
      List.append_nil]
  splits := by
    rintro skipped rest other ⟨rfl, rfl, rfl⟩
    rfl
  ideal counts := by
    rw [DropStatement.find?, ideal counts]
    exact if_pos drops

/-- Behind a guard that it passes over the search goes on. -/
theorem DropFound.behind {lead skipped rest : Text}
    {found : Option (Text × Text × Bool)}
    (further : DropFound counter (lead ++ skipped) rest found)
    (nonempty : skipped ≠ [])
    (turn : dropTurn counter (lead ++ (skipped ++ rest)) () lead.size =
        .ok (.goOn () skipped.size))
    (passes : counter.Counts {} (skipped ++ rest) →
      DropStatement.find? (skipped ++ rest) = DropStatement.find? rest) :
    DropFound counter lead (skipped ++ rest)
      (found.map fun parts => (skipped ++ parts.1, parts.2)) where
  place_eq := by
    have placeEq := further.place_eq
    rw [List.append_assoc] at placeEq
    rw [dropPlace?,
      walk_goOn (lead_within lead (skipped ++ rest)) turn (size_pos nonempty),
      ← size_append, ← dropPlace?, placeEq]
    simp only [Option.map_map, Function.comp_def, List.append_assoc]
  splits := by
    intro passed last guarded foundEq
    obtain ⟨⟨later, found⟩, rfl, partsEq⟩ := Option.map_eq_some_iff.mp foundEq
    obtain ⟨rfl, rfl⟩ := Prod.mk.inj partsEq
    rw [further.splits later last guarded rfl, List.append_assoc]
  ideal counts := by
    rw [passes counts, further.ideal counts.suffix, Option.map_map]
    rfl

private theorem dropPlace?_spec (lead body : Text)
    (serves : counter.Serves {} body) :
    ∃ found, DropFound counter lead body found := by
  induction bound : body.length using Nat.strongRecOn
    generalizing lead body with
  | ind count ih =>
    obtain ⟨⟨word, guarded⟩, wordEq, idealWord⟩ := firstKeyword_spec serves
    by_cases drops : sameAsciiWord word DropStatement.keyword = true
    · exact ⟨_, .here wordEq idealWord drops⟩
    · have passes (counts : counter.Counts {} body) :
          DropStatement.find? body =
            (Guard.behind? body).bind DropStatement.find? := by
        apply find?_passes
        rwa [idealWord counts]
      cases guarded with
      | false =>
          refine ⟨none, .none ?_ fun counts => ?_⟩
          · simp only [dropTurn, since_append, Checked.ok_bind, wordEq,
              if_neg drops, Bool.false_eq_true, if_false]
          · have unguarded : (SqlDump.firstKeyword body).2 = false := by
              rw [idealWord counts]
            rw [passes counts, behind?_of_unguarded unguarded, Option.bind_none]
      | true =>
          obtain ⟨behind, behindEq, splits, ideal⟩ := skipGuard_spec lead serves
          cases behind with
          | none =>
              refine ⟨none, .none ?_ fun counts => ?_⟩
              · simp only [dropTurn, since_append, Checked.ok_bind, wordEq,
                  if_neg drops, if_true, behindEq, Option.map_none]
              · rw [passes counts, ideal counts, Option.map_none,
                  Option.bind_none]
          | some parts =>
              obtain ⟨skipped, rest⟩ := parts
              obtain ⟨rfl, nonempty⟩ := splits skipped rest rfl
              have shorter : rest.length < count := by
                have positive := List.length_pos_iff.mpr nonempty
                rw [List.length_append] at bound
                omega
              obtain ⟨found, further⟩ :=
                ih rest.length shorter (lead ++ skipped) rest serves.suffix rfl
              refine ⟨_, further.behind nonempty ?_ fun counts => ?_⟩
              · simp only [dropTurn, since_append, Checked.ok_bind, wordEq,
                  if_neg drops, if_true, behindEq, Option.map_some, size_append,
                  Nat.add_sub_cancel_left]
              · rw [passes counts, ideal counts, Option.map_some,
                  Option.bind_some]

private theorem dropRemainder_spec (guarded ownLine : Bool)
    (serves : counter.Serves {} body) :
    ∃ rest, dropRemainder counter body guarded ownLine = .ok rest ∧
      (counter.Counts {} body →
        DropStatement.remainder body guarded ownLine = rest) := by
  cases guarded with
  | false => exact ⟨[], rfl, fun _ => rfl⟩
  | true =>
      obtain ⟨scan, scanEq, splits, ideal⟩ := scanGuard_spec serves
      cases scan with
      | complete guard behind =>
          have cut := since_append guard.raw behind
          rw [← splits guard behind rfl] at cut
          refine ⟨if ownLine then
            DropStatement.dropLineBreak (behind.dropWhile (· == ';'))
            else behind.dropWhile (· == ';'), ?_, fun counts => ?_⟩
          · simp only [dropRemainder, if_true, scanEq, Checked.ok_bind,
              Guard.Scan.places, cut]
          · simp only [DropStatement.remainder, if_true, ideal counts]
      | notGuard =>
          refine ⟨[], ?_, fun counts => ?_⟩
          · simp only [dropRemainder, if_true, scanEq, Checked.ok_bind,
              Guard.Scan.places]
          · simp only [DropStatement.remainder, if_true, ideal counts]
      | incomplete =>
          refine ⟨[], ?_, fun counts => ?_⟩
          · simp only [dropRemainder, if_true, scanEq, Checked.ok_bind,
              Guard.Scan.places]
          · simp only [DropStatement.remainder, if_true, ideal counts]

private theorem dropStatement_spec (atLineStart : Bool) (state : PipelineState)
    (serves : counter.Serves {} text) :
    ∃ result, dropStatement counter atLineStart state text = .ok result ∧
      (counter.Counts {} text →
        DropStatement.apply atLineStart state text = result) := by
  obtain ⟨trivia, token, rfl, triviaEq, triviaIdeal⟩ :=
    statementOffset_spec serves
  obtain ⟨found, foundEq, splits, ideal⟩ :=
    dropPlace?_spec trivia token serves.suffix
  have idealFound (counts : counter.Counts {} (trivia ++ token)) :
      DropStatement.find?
        ((trivia ++ token).drop (SqlDump.statementOffset (trivia ++ token))) =
        found.map Prod.snd := by
    rw [← triviaIdeal counts, List.drop_left, ideal counts.suffix]
  cases found with
  | none =>
      refine ⟨(state, trivia ++ token), ?_, fun counts => ?_⟩
      · simp only [dropStatement, triviaEq, Checked.ok_bind, foundEq,
          Option.map_none]
      · simp only [DropStatement.apply, idealFound counts, Option.map_none]
  | some parts =>
      obtain ⟨skipped, body, guarded⟩ := parts
      obtain rfl := splits skipped body guarded rfl
      obtain ⟨lead, leadEq⟩ : ∃ lead, trivia ++ skipped = lead := ⟨_, rfl⟩
      have whole : trivia ++ (skipped ++ body) = lead ++ body := by
        rw [← leadEq, List.append_assoc]
      simp only [Option.map_some, leadEq] at foundEq
      rw [whole] at serves foundEq triviaEq idealFound ⊢
      obtain ⟨rest, restEq, idealRest⟩ :=
        dropRemainder_spec guarded (beginsLine lead atLineStart) serves.suffix
      obtain ⟨padding, leadParts, -⟩ := dropEndWhile_spec isPadding lead
      have cutKept : upTo (lead ++ body) (lead.dropEndWhile isPadding).size =
          .ok (lead.dropEndWhile isPadding) := by
        have cut := upTo_append (lead.dropEndWhile isPadding) (padding ++ body)
        rwa [← List.append_assoc, ← leadParts] at cut
      refine ⟨({ state with
        counts := { state.counts with
          dropsSuppressed := state.counts.dropsSuppressed + 1 } },
        lead.dropEndWhile isPadding ++
          if rest.isAllBlank then
            (if beginsLine lead atLineStart then []
              else DropStatement.finalLineBreak body)
          else rest), ?_, fun counts => ?_⟩
      · simp only [dropStatement, triviaEq, Checked.ok_bind, foundEq,
          since_append, startsLine_append, restEq, upTo_append, cutKept]
      · have lengths : (lead ++ body).length - body.length = lead.length := by
          rw [List.length_append, Nat.add_sub_cancel]
        simp only [DropStatement.apply, idealFound counts, Option.map_some,
          lengths, List.take_left, DropStatement.suppress,
          idealRest counts.suffix]

def resetTable (counter : DepthCounter) (body : Text) : Checked Text :=
  if Ddl.isCreateTable body then resetCounters counter body else .ok body

def volatile (counter : DepthCounter) (state : PipelineState) (text : Text) :
    Checked (PipelineState × Text) := do
  let offset ← statementPlace counter text
  let (lead, body) ← text.cutAt offset
  let newBody ← resetTable counter body
  let newLead := Volatile.stripTimes true lead
  let changed :=
    (if newLead = lead then 0 else 1) + (if newBody = body then 0 else 1)
  if changed = 0 then .ok (state, text)
  else .ok ({ state with
    counts := { state.counts with
      valuesSanitized := state.counts.valuesSanitized + changed } },
    newLead ++ newBody)

private theorem resetTable_spec (serves : counter.Serves {} body) :
    ∃ newBody, resetTable counter body = .ok newBody ∧
      (counter.Counts {} body →
        (if Ddl.isCreateTable body then Volatile.resetCounters {} none body
          else body) =
          newBody) := by
  unfold resetTable
  split
  · exact resetCounters_spec serves
  · exact ⟨body, rfl, fun _ => rfl⟩

private theorem volatile_spec (state : PipelineState)
    (serves : counter.Serves {} text) :
    ∃ result, volatile counter state text = .ok result ∧
      (counter.Counts {} text → Volatile.apply state text = result) := by
  obtain ⟨lead, body, rfl, placeEq, ideal⟩ := statementPlace_spec serves
  obtain ⟨newBody, bodyEq, idealBody⟩ := resetTable_spec serves.suffix
  have ended : volatile counter state (lead ++ body) = .ok ({ state with
      counts := { state.counts with
        valuesSanitized := state.counts.valuesSanitized +
          ((if Volatile.stripTimes true lead = lead then 0 else 1) +
            (if newBody = body then 0 else 1)) } },
      Volatile.stripTimes true lead ++ newBody) := by
    simp only [volatile, placeEq, Checked.ok_bind, cutAt_append, bodyEq]
    by_cases sameLead : Volatile.stripTimes true lead = lead
    · by_cases sameBody : newBody = body
      · simp only [sameLead, sameBody, if_true, Nat.add_zero]
      · simp only [sameLead, if_true, if_neg sameBody, Nat.zero_add,
          Nat.one_ne_zero, if_false]
    · have changed (more : Nat) : 1 + more ≠ 0 := by omega
      simp only [if_neg sameLead, if_neg (changed _)]
  refine ⟨_, ended, fun counts => ?_⟩
  simp only [Volatile.apply, ideal counts, idealBody counts.suffix]

def apply (counter : DepthCounter) (stage : Stage) (atLineStart : Bool)
    (state : PipelineState) (text : Text) : Checked (PipelineState × Text) :=
  match stage with
  | .tableOptions => tableOptions counter state text
  | .timeZone => timeZone counter atLineStart state text
  | .dropStatement => dropStatement counter atLineStart state text
  | .volatile => volatile counter state text

def applyAll (counter : DepthCounter) (atLineStart : Bool) :
    List Stage → PipelineState → Text → Checked (PipelineState × Text)
  | [], state, text => .ok (state, text)
  | _ :: _, state, [] => .ok (state, [])
  | stage :: stages, state, head :: tail => do
      let (after, text) ← apply counter stage atLineStart state (head :: tail)
      applyAll counter atLineStart stages after text

def process (counter : DepthCounter) (pipeline : Pipeline)
    (unit : StatementUnit) : Checked (Pipeline × Text) :=
  match unit.kind with
  | .directive => .ok (pipeline, unit.text)
  | _ => do
      let (state, text) ←
        applyAll counter unit.atLineStart pipeline.stages pipeline.state
          unit.text
      .ok ({ pipeline with state := state }, text)

theorem apply_spec (stage : Stage) (atLineStart : Bool) (state : PipelineState)
    (serves : counter.Serves {} text) :
    ∃ result, apply counter stage atLineStart state text = .ok result ∧
      (counter.Counts {} text →
        stage.apply atLineStart state text = result) := by
  cases stage with
  | tableOptions => exact tableOptions_spec state serves
  | timeZone => exact timeZone_spec atLineStart state serves
  | dropStatement => exact dropStatement_spec atLineStart state serves
  | volatile => exact volatile_spec state serves

variable {faith : Prop}

private theorem applyAll_spec (atLineStart : Bool) (stages : List Stage)
    (state : PipelineState) (text : Text)
    (keeps :
      counter.Keeps faith (openings text + Stage.room stages state.catalog)) :
    ∃ result, applyAll counter atLineStart stages state text = .ok result ∧
      (faith → Stage.applyAll atLineStart stages state text = result) := by
  induction stages generalizing state text with
  | nil => exact ⟨(state, text), rfl, fun _ => rfl⟩
  | cons stage stages ih =>
      cases text with
      | nil => exact ⟨(state, []), rfl, fun _ => rfl⟩
      | cons head tail =>
          have keepsText :
              counter.Keeps faith
                (({} : Lexer).depth + openings (head :: tail)) := by
            rw [Nat.zero_add]
            exact keeps.mono fun _ => Nat.le_add_right _ _
          obtain ⟨⟨after, middle⟩, applied, ideal⟩ :=
            apply_spec stage atLineStart state keepsText.serves
          have idealEq (holds : faith) := ideal (keepsText.counts holds)
          have keepsLater :
              counter.Keeps faith
                (openings middle + Stage.room stages after.catalog) := by
            apply keeps.mono
            intro holds
            have reserved :=
              stage.openings_apply_le stages atLineStart state (head :: tail)
            rwa [idealEq holds] at reserved
          obtain ⟨result, later, idealLater⟩ := ih after middle keepsLater
          refine ⟨result, ?_, fun holds => ?_⟩
          · simp only [applyAll, applied, Checked.ok_bind, later]
          · simp only [Stage.applyAll, idealEq holds, idealLater holds]

theorem process_spec (pipeline : Pipeline) (unit : StatementUnit)
    (keeps : counter.Keeps faith (openings unit.text + pipeline.room)) :
    ∃ result, process counter pipeline unit = .ok result ∧
      (faith → pipeline.process unit = result) := by
  obtain ⟨⟨state, text⟩, applied, ideal⟩ :=
    applyAll_spec unit.atLineStart pipeline.stages pipeline.state unit.text
      keeps
  cases kind : unit.kind with
  | directive =>
      exact ⟨(pipeline, unit.text), by simp only [process, kind], fun _ => by
        simp only [Pipeline.process, kind]⟩
  | statement =>
      refine ⟨({ pipeline with state := state }, text), ?_, fun holds => ?_⟩
      · simp only [process, kind, applied, Checked.ok_bind]
      · simp only [Pipeline.process, kind, ideal holds]
  | trailing =>
      refine ⟨({ pipeline with state := state }, text), ?_, fun holds => ?_⟩
      · simp only [process, kind, applied, Checked.ok_bind]
      · simp only [Pipeline.process, kind, ideal holds]

end Offset

end SqlDump
