import SqlDump.Pipeline.TableOptions
import SqlDump.Proofs.Ddl.Reading
import SqlDump.Proofs.Offset.Guard
import SqlDump.Proofs.Text.Trim

/-!
# Completing table options by bytes

The options are looked for between the byte behind the parenthesis that closes
the column list and the end of its line, and what is missing goes in behind the
last byte of an option.
-/

namespace SqlDump

open Text

namespace Offset

variable {counter : DepthCounter}

def optionsOf (counter : DepthCounter) (line : Text) : Checked Text := do
  match ← findTopLevel? counter ';' line with
  | some terminator => line.upTo terminator
  | none => .ok line

/-- Where options are added, and which ones, given the offset behind the column
list. -/
def planBehind (counter : DepthCounter) (body : Text) (start : Nat)
    (info : TableInfo) :
    Checked (Option (Nat × Text)) := do
  let behind ← body.octets.octetsSince start
  let line ← body.between start (start + (behind.takeWhile (· != '\n')).length)
  let options ← optionsOf counter line
  match TableOptions.additions options info with
  | [] => .ok none
  | added => .ok (some (start + options.trimEnd.size, added))

/-- The byte offset in a statement at which options are added, and what is
added; `none` if nothing is missing or the statement has no column list.  The
table name ends at `nameEnd`. -/
def planAdditions (counter : DepthCounter) (body : Text) (nameEnd : Nat)
    (info : TableInfo) :
    Checked (Option (Nat × Text)) := do
  let behindName ← body.since nameEnd
  let blanks ← Checked.minus behindName.size behindName.trimStart.size
  if body.octets[nameEnd + blanks]? = some '(' then
    match ← matchingParenthesis? counter body (nameEnd + blanks) with
    | none => .ok none
    | some closing => planBehind counter body (closing + 1) info
  else .ok none

/-- Complete the statement that begins at the offset and creates the named
table. -/
def augment (counter : DepthCounter) (state : PipelineState) (text : Text)
    (offset : Nat) (body : Text) (create : Ddl.CreateTable) :
    Checked (PipelineState × Text) :=
  let schema := create.schema.or state.schema
  match state.catalog.resolve schema create.table with
  | .missing => .ok (state.warn (.missingTable schema create.table), text)
  | .ambiguous candidates =>
      .ok (state.warn (.ambiguousTable create.table candidates), text)
  | .found _ info =>
      match info.missing with
      | [] => do
          match ← planAdditions counter body (body.size - create.rest.size)
            info with
          | none => .ok (state, text)
          | some (place, added) => do
              let front ← text.upTo (offset + place)
              let behind ← text.since (offset + place)
              .ok ({ state with
                counts := { state.counts with
                  tablesAugmented := state.counts.tablesAugmented + 1 } },
                front ++ added ++ behind)
      | missing =>
          .ok (state.warn
            (.incompleteTable (schema.getD []) create.table missing), text)

def tableOptions (counter : DepthCounter) (state : PipelineState)
    (text : Text) :
    Checked (PipelineState × Text) := do
  let offset ← statementPlace counter text
  let body ← text.since offset
  match Ddl.useTarget? body with
  | some schema => .ok ({ state with schema := some schema }, text)
  | none =>
      match Ddl.dropViewTarget? body with
      | some view => .ok (state.markPlaceholder view, text)
      | none =>
          match Ddl.createTable? body with
          | none => .ok (state, text)
          | some create =>
              if state.placeholders.contains create.table then
                .ok (state.dropPlaceholder create.table, text)
              else if state.catalog.isEmpty then .ok (state, text)
              else augment counter state text offset body create

private theorem optionsOf_spec {line : Text} (serves : counter.Serves {} line) :
    ∃ options rest, line = options ++ rest ∧
      optionsOf counter line = .ok options ∧
      (counter.Counts {} line → (match SqlDump.findTopLevel? ';' line with
        | some terminator => line.take terminator
        | none => line) = options) := by
  have ascii : isAscii ';' = true := by decide
  obtain ⟨found, foundEq, splits, ideal⟩ := findTopLevel?_spec ascii serves
  cases found with
  | none =>
      refine ⟨line, [], (List.append_nil line).symm, ?_, fun counts => ?_⟩
      · simp only [optionsOf, foundEq, Checked.ok_bind, Option.map_none]
      · simp only [ideal counts, Option.map_none]
  | some options =>
      obtain ⟨rest, lineEq⟩ := splits options rfl
      have cut := upTo_append options (';' :: rest)
      rw [← lineEq] at cut
      refine ⟨options, ';' :: rest, lineEq, ?_, fun counts => ?_⟩
      · simp only [optionsOf, foundEq, Checked.ok_bind, Option.map_some, cut]
      · simp only [ideal counts, Option.map_some]
        rw [lineEq, List.take_left]

private theorem head?_octets {target : Char} (ascii : isAscii target = true)
    (text : Text) :
    (octets text).head? = some target ↔ text.head? = some target := by
  obtain ⟨rfl, octetsEq⟩ | ⟨head, tail, -, rfl, octetsEq⟩ |
    ⟨head, tail, octet, others, wideHead, wide, rfl, octetsEq⟩ :=
      octets_cases text
  · rw [octetsEq]
  · rw [octetsEq, List.head?_cons, List.head?_cons]
  · rw [octetsEq]
    simp only [List.head?_cons, Option.some.injEq, ne_of_wide wide ascii,
      ne_of_wide wideHead ascii]

private theorem planBehind_spec (closed behind : Text) (info : TableInfo)
    (serves : counter.Serves {} behind) :
    ∃ options rest, behind = options ++ rest ∧
      planBehind counter (closed ++ behind) closed.size info =
        (match TableOptions.additions options info with
        | [] => .ok none
        | added => .ok (some (closed.size + options.trimEnd.size, added))) ∧
      (counter.Counts {} behind → TableOptions.optionsOf behind = options) := by
  have bytes := octetsSince_append closed behind
  obtain ⟨line, lineEq⟩ : ∃ line : Text, line = behind.takeWhile (· != '\n') :=
    ⟨_, rfl⟩
  have parts : line ++ behind.dropWhile (· != '\n') = behind := by
    rw [lineEq]
    exact List.takeWhile_append_dropWhile
  have lineBytes : (behind.octets.takeWhile (· != '\n')).length =
      line.size := by
    rw [takeWhile_ne_octets (by decide), length_octets, lineEq]
  have cutLine := between_append closed line (behind.dropWhile (· != '\n'))
  rw [parts, size_append] at cutLine
  have inLine {text : Text} (whole : text = behind) :
      [] ++ (line ++ behind.dropWhile (· != '\n')) = text := by
    rw [List.nil_append, parts, whole]
  have lineServes : counter.Serves {} line := by
    rw [← inLine rfl] at serves
    exact serves.infix
  obtain ⟨options, rest, optionsEq, searchEq, ideal⟩ :=
    optionsOf_spec lineServes
  refine ⟨options, rest ++ behind.dropWhile (· != '\n'), ?_, ?_,
    fun counts => ?_⟩
  · rw [← List.append_assoc, ← optionsEq, parts]
  · simp only [planBehind, bytes, lineBytes, cutLine, searchEq, Checked.ok_bind]
  · rw [← inLine rfl] at counts
    rw [← ideal counts.infix, lineEq]
    rfl

/-- The parts of a statement in front of the planned place and behind it, and
what goes between them. -/
structure IsPlan (planned : Checked (Option (Nat × Text))) (body : Text)
    (plan : Option (Text × Text × Text)) : Prop where
  planned_eq : planned = .ok (plan.map fun parts => (parts.1.size, parts.2.1))
  splits : ∀ front added behind, plan = some (front, added, behind) →
    body = front ++ behind

theorem isPlan_none (body : Text) : IsPlan (.ok none) body none :=
  ⟨rfl, by simp⟩

private theorem planBehind_plan (closed behind : Text) (info : TableInfo)
    (serves : counter.Serves {} behind) :
    ∃ plan, IsPlan (planBehind counter (closed ++ behind) closed.size info)
      (closed ++ behind) plan ∧
      (counter.Counts {} behind → ∀ rest,
        TableOptions.behindColumns? rest = some behind →
        TableOptions.complete? (closed ++ behind) rest info =
          plan.map fun parts => parts.1 ++ parts.2.1 ++ parts.2.2) := by
  obtain ⟨options, last, behindEq, planEq, ideal⟩ :=
    planBehind_spec closed behind info serves
  obtain ⟨spare, trimmed, -⟩ := dropEndWhile_spec isBlank options
  have place : closed ++ behind = closed ++ options.trimEnd ++
      (spare ++ last) := by
    rw [behindEq]
    conv => lhs; rw [trimmed]
    simp only [List.append_assoc, trimEnd]
  rw [planEq]
  cases added : TableOptions.additions options info with
  | nil =>
      refine ⟨none, isPlan_none _, fun counts rest columns => ?_⟩
      simp only [TableOptions.complete?, columns, ideal counts, added,
        Option.map_none]
  | cons first others =>
      refine ⟨some (closed ++ options.trimEnd, first :: others, spare ++ last),
        ⟨?_, ?_⟩, fun counts rest columns => ?_⟩
      · simp only [Option.map_some, size_append]
      · rintro front added behind ⟨rfl, rfl, rfl⟩
        exact place
      · have lengths : (closed ++ behind).length - behind.length +
            options.trimEnd.length =
            (closed ++ options.trimEnd).length := by
          rw [List.length_append, Nat.add_sub_cancel, ← List.length_append]
        simp only [TableOptions.complete?, columns, ideal counts, added,
          Option.map_some, lengths]
        rw [place, List.take_left, List.drop_left]

/-- The byte behind the blanks that follow the name tells whether a list begins
there. -/
theorem planAdditions_eq (counter : DepthCounter) (named : Text)
    {blanks rest : Text} (parts : rest = blanks ++ rest.trimStart)
    (info : TableInfo) :
    planAdditions counter (named ++ rest) named.size info =
      if rest.trimStart.head? = some '(' then do
        match ← matchingParenthesis? counter (named ++ rest)
          (named ++ blanks).size with
        | none => .ok none
        | some closing => planBehind counter (named ++ rest) (closing + 1) info
      else .ok none := by
  have blankSize : Checked.minus rest.size rest.trimStart.size =
      .ok blanks.size := by
    have sizes := congrArg Text.size parts
    rw [size_append] at sizes
    rw [sizes, Checked.minus_add_right]
  have opening : (octets (named ++ rest))[named.size + blanks.size]? =
      (octets rest.trimStart).head? := by
    conv => lhs; rw [parts]
    rw [← size_append, ← List.append_assoc, octets_append, ← length_octets,
      List.getElem?_append_right (Nat.le_refl _), Nat.sub_self,
      List.head?_eq_getElem?]
  simp only [planAdditions, since_append, Checked.ok_bind, blankSize, opening,
    head?_octets (show isAscii '(' = true by decide), size_append]

private theorem planAdditions_spec (named rest : Text) (info : TableInfo)
    (serves : counter.Serves {} rest) :
    ∃ plan, IsPlan (planAdditions counter (named ++ rest) named.size info)
      (named ++ rest) plan ∧
      (counter.Counts {} rest →
        TableOptions.complete? (named ++ rest) rest info =
          plan.map fun parts => parts.1 ++ parts.2.1 ++ parts.2.2) := by
  obtain ⟨blanks, restEq, -⟩ := trimStart_spec rest
  rw [planAdditions_eq counter named restEq]
  by_cases opens : ∃ list, rest.trimStart = '(' :: list
  · obtain ⟨list, listEq⟩ := opens
    have paren : rest.trimStart.head? = some '(' := by
      rw [listEq, List.head?_cons]
    have bodyEq : named ++ rest = (named ++ blanks) ++ '(' :: list := by
      rw [List.append_assoc, ← listEq, ← restEq]
    rw [listEq] at restEq
    have listServes : counter.Serves {} ('(' :: list) := by
      rw [restEq] at serves
      exact serves.suffix
    have listCounts (counts : counter.Counts {} rest) :
        counter.Counts {} ('(' :: list) := by
      rw [restEq] at counts
      exact counts.suffix
    obtain ⟨found, foundEq, splits, ideal⟩ :=
      matchingParenthesis?_spec (named ++ blanks) list listServes
    rw [← bodyEq] at foundEq
    have columnsEq (counts : counter.Counts {} rest) :
        TableOptions.behindColumns? rest =
          found.map fun columns => ('(' :: list).drop (columns.length + 1) := by
      simp only [TableOptions.behindColumns?, listEq, ideal (listCounts counts),
        Option.map_map]
      rfl
    rw [if_pos paren, foundEq]
    cases found with
    | none =>
        refine ⟨none, isPlan_none _, fun counts => ?_⟩
        simp only [TableOptions.complete?, columnsEq counts, Option.map_none]
    | some columns =>
        obtain ⟨behind, splitList⟩ := splits columns rfl
        have joined : '(' :: list = (columns ++ [')']) ++ behind := by
          rw [splitList, List.append_assoc, List.singleton_append]
        have closedEq : named ++ rest =
            (named ++ blanks ++ (columns ++ [')'])) ++ behind := by
          rw [bodyEq, joined, List.append_assoc (named ++ blanks)]
        have columnsEnd : ('(' :: list).drop (columns.length + 1) = behind := by
          rw [joined]
          exact List.drop_left' (by simp)
        rw [joined] at listServes listCounts
        obtain ⟨plan, isPlan, idealPlan⟩ :=
          planBehind_plan (named ++ blanks ++ (columns ++ [')'])) behind info
            listServes.suffix
        rw [← closedEq] at isPlan idealPlan
        refine ⟨plan, ?_,
          fun counts => idealPlan (listCounts counts).suffix rest ?_⟩
        · have closing : (named ++ blanks ++ (columns ++ [')'])).size =
              (named ++ blanks ++ columns).size + 1 := by
            rw [← List.append_assoc, size_append _ [')']]
            rfl
          rwa [closing] at isPlan
        · rw [columnsEq counts, Option.map_some, columnsEnd]
  · have noParen : rest.trimStart.head? ≠ some '(' := fun paren =>
      opens (List.head?_eq_some_iff.mp paren)
    have noColumns : TableOptions.behindColumns? rest = none := by
      unfold TableOptions.behindColumns?
      split
      · next list same => exact absurd ⟨list, same⟩ opens
      · rfl
    rw [if_neg noParen]
    refine ⟨none, isPlan_none _, fun counts => ?_⟩
    simp only [TableOptions.complete?, noColumns, Option.map_none]

private theorem augment_spec (state : PipelineState) (lead : Text) {body : Text}
    {create : Ddl.CreateTable} (named : create.rest <:+ body)
    (serves : counter.Serves {} body) :
    ∃ result, augment counter state (lead ++ body) lead.size body create =
      .ok result ∧
      (counter.Counts {} body →
        TableOptions.augment state lead body create = result) := by
  unfold augment TableOptions.augment
  dsimp only
  cases state.catalog.resolve (create.schema.or state.schema) create.table with
  | missing => exact ⟨_, rfl, fun _ => rfl⟩
  | ambiguous candidates => exact ⟨_, rfl, fun _ => rfl⟩
  | found schema info =>
      dsimp only
      cases info.missing with
      | cons first others => exact ⟨_, rfl, fun _ => rfl⟩
      | nil =>
          obtain ⟨name, bodyEq⟩ := named
          have nameEnd : body.size - create.rest.size = size name := by
            rw [← bodyEq, size_append, Nat.add_sub_cancel]
          have restServes : counter.Serves {} create.rest := by
            rw [← bodyEq] at serves
            exact serves.suffix
          obtain ⟨plan, ⟨planEq, splits⟩, ideal⟩ :=
            planAdditions_spec name create.rest info restServes
          rw [bodyEq] at planEq splits ideal
          have idealEq (counts : counter.Counts {} body) := by
            rw [← bodyEq] at counts
            exact ideal counts.suffix
          rw [nameEnd, planEq]
          cases plan with
          | none =>
              refine ⟨(state, lead ++ body), rfl, fun counts => ?_⟩
              rw [idealEq counts]
              rfl
          | some parts =>
              obtain ⟨front, added, behind⟩ := parts
              obtain rfl := splits front added behind rfl
              have cutFront := upTo_append (lead ++ front) behind
              have cutBehind := since_append (lead ++ front) behind
              rw [List.append_assoc, size_append] at cutFront cutBehind
              refine ⟨({ state with
                counts := { state.counts with
                  tablesAugmented := state.counts.tablesAugmented + 1 } },
                lead ++ front ++ added ++ behind), ?_, fun counts => ?_⟩
              · simp only [Option.map_some, Checked.ok_bind, cutFront,
                  cutBehind]
              · rw [idealEq counts]
                simp only [Option.map_some, List.append_assoc]

theorem tableOptions_spec (state : PipelineState) {text : Text}
    (serves : counter.Serves {} text) :
    ∃ result, tableOptions counter state text = .ok result ∧
      (counter.Counts {} text → TableOptions.apply state text = result) := by
  obtain ⟨lead, body, rfl, placeEq, ideal⟩ := statementPlace_spec serves
  have cut := since_append lead body
  simp only [tableOptions, placeEq, cut, Checked.ok_bind]
  cases use : Ddl.useTarget? body with
  | some schema =>
      exact ⟨_, rfl,
        fun counts => by simp only [TableOptions.apply, ideal counts, use]⟩
  | none =>
      cases drop : Ddl.dropViewTarget? body with
      | some view =>
          exact ⟨_, rfl,
            fun counts => by
            simp only [TableOptions.apply, ideal counts, use, drop]⟩
      | none =>
          cases created : Ddl.createTable? body with
          | none =>
              exact ⟨_, rfl, fun counts => by
                simp only [TableOptions.apply, ideal counts, use,
                  drop, created]⟩
          | some create =>
              dsimp only
              split
              · next placeholder =>
                  exact ⟨_, rfl, fun counts => by
                    simp only [TableOptions.apply, ideal counts, use,
                      drop, created, if_pos placeholder]⟩
              · next noPlaceholder =>
                  split
                  · next empty =>
                      exact ⟨_, rfl, fun counts => by
                        simp only [TableOptions.apply, ideal counts, use,
                          drop, created, if_neg noPlaceholder, if_pos empty]⟩
                  · next nonempty =>
                      obtain ⟨result, augmented, idealAugmented⟩ :=
                        augment_spec state lead
                          (Ddl.readsTo_createTable? created).suffix
                          serves.suffix
                      refine ⟨result, augmented, fun counts => ?_⟩
                      simp only [TableOptions.apply, ideal counts, use, drop,
                        created, if_neg noPlaceholder, if_neg nonempty]
                      exact idealAugmented counts.suffix

end Offset

end SqlDump
