import SqlDump.Proofs.Pipeline.Lowering

/-!
# What a removal leaves

A unit that has something to drop loses one guard with the terminators behind
it, or its plain statement.  Everything else that is visible stays in its order,
nothing is added, and a unit that ended its line still does.
-/

namespace SqlDump

def Text.visible (text : Text) : Text :=
  text.filter fun character => !isBlank character

namespace Text

@[simp] theorem visible_append (first second : Text) :
    (first ++ second).visible = first.visible ++ second.visible :=
  List.filter_append ..

theorem visible_of_isAllBlank {text : Text} (blank : text.isAllBlank = true) :
    text.visible = [] := by
  rw [isAllBlank, List.all_eq_true] at blank
  simpa [visible] using blank

end Text

namespace DropStatement

variable {text body lead rest : Text} {guarded : Bool}

/-- What the stage removes in front of `rest`: a whole guard, or a plain
statement, which goes to the end of its unit. -/
inductive Removed : Text → Text → Prop where
  | guard {guard : Guard} {rest : Text}
      (complete : Guard.scan (guard.raw ++ rest) = .complete guard rest)
      (drops :
        Text.sameAsciiWord
          (leadingWord (guard.inner.drop (statementOffset guard.inner)))
          keyword = true) :
      Removed guard.raw rest
  | plain {statement : Text}
      (noGuard : ∀ guard rest, Guard.scan statement ≠ .complete guard rest)
      (drops : Text.sameAsciiWord (leadingWord statement) keyword = true) :
      Removed statement []

/-- The output has all of the unit that is visible outside of what was removed,
begins with the lead up to its padding, and ends a line if the unit did. -/
structure Spares (atLineStart : Bool) (text lead rest output : Text) :
    Prop where
  visible : output.visible = (lead ++ rest).visible
  keepsLead : ∃ front padding behind, lead = front ++ padding ∧
    output = front ++ behind ∧
    ∀ character ∈ padding, isPadding character = true
  nothingNew : output.Sublist text
  endsLine : text.getLast? = some '\n' →
    output.getLast? = some '\n' ∨ output = [] ∧ atLineStart = true

private theorem find?_drops (found : find? body = some (text, guarded)) :
    Text.sameAsciiWord (firstKeyword text).1 keyword = true := by
  fun_induction find? body with
  | case1 body word inGuard keywordEq same =>
      obtain ⟨rfl, -⟩ := Prod.mk.inj (Option.some.inj found)
      rwa [keywordEq]
  | case2 body word inGuard keywordEq other rest behindEq ih => exact ih found
  | case3 body word inGuard keywordEq other none => simp at found

/-- What stands behind a removal: terminators, of which none is left, and the
rest. -/
theorem removed_of_drops
    (drops : Text.sameAsciiWord (firstKeyword body).1 keyword = true)
    (guardedEq : (firstKeyword body).2 = guarded) :
    ∃ removed terminators rest, body = removed ++ (terminators ++ rest) ∧
      Removed removed (terminators ++ rest) ∧
      (∀ mark ∈ terminators, mark = ';') ∧
      rest.head? ≠ some ';' ∧
      ∀ ownLine, remainder body guarded ownLine = if ownLine then
        dropLineBreak rest else rest := by
  cases guarded with
  | false =>
      have noGuard (guard : Guard) (rest : Text) :
          Guard.scan body ≠ .complete guard rest := by
        intro scanned
        rw [firstKeyword_of_scan scanned] at guardedEq
        simp at guardedEq
      have wordEq : (firstKeyword body).1 = leadingWord body := by
        unfold firstKeyword
        split
        · next guard rest scanned => exact absurd scanned (noGuard guard rest)
        · rfl
      rw [wordEq] at drops
      refine ⟨body, [], [], by simp, .plain noGuard drops, by simp, by simp,
        fun ownLine => ?_⟩
      cases ownLine <;> rfl
  | true =>
      obtain ⟨guard, behind, scanned⟩ := scan_of_guarded guardedEq
      have split := (Guard.begins_of_scan scanned).split
      have parts : behind.takeWhile (· == ';') ++ behind.dropWhile (· == ';') =
          behind :=
        List.takeWhile_append_dropWhile
      rw [firstKeyword_of_scan scanned] at drops
      refine ⟨guard.raw, behind.takeWhile (· == ';'),
        behind.dropWhile (· == ';'), ?_, ?_, ?_, ?_,
        fun ownLine => ?_⟩
      · rw [parts, split]
      · rw [parts]
        exact .guard (split ▸ scanned) drops
      · intro mark member
        simpa using List.all_eq_true.mp List.all_takeWhile mark member
      · intro more
        have stops := List.head?_dropWhile_not (· == ';') behind
        rw [more] at stops
        simp at stops
      · rw [remainder, if_pos rfl, scanned]

private theorem visible_dropLineBreak (text : Text) :
    (dropLineBreak text).visible = text.visible := by
  obtain ⟨front, split, blank⟩ := dropLineBreak_spec text
  have nothing : front.visible = [] := by
    apply Text.visible_of_isAllBlank
    rw [Text.isAllBlank, List.all_eq_true]
    exact fun character member =>
      isBlank_of_isAsciiBlank (blank character member)
  have parts := congrArg Text.visible split
  rw [Text.visible_append, nothing, List.nil_append] at parts
  exact parts.symm

private theorem finalLineBreak_getLast? (ends : text.getLast? = some '\n') :
    (finalLineBreak text).getLast? = some '\n' := by
  obtain ⟨front, rfl⟩ := List.getLast?_eq_some_iff.mp ends
  unfold finalLineBreak
  split
  · rfl
  · next noReturn =>
      have lineFeed : Text.endsWith (front ++ ['\n']) ['\n'] = true :=
        List.isSuffixOf_iff_suffix.mpr ⟨front, rfl⟩
      rw [if_pos lineFeed]
      rfl

/-- With a line of its own, the lead ends a line or is empty at the start of
one. -/
theorem endsLine_of_beginsLine {atLineStart : Bool}
    (begins : beginsLine lead atLineStart = true) :
    (Text.dropEndWhile isPadding lead).getLast? = some '\n' ∨
      Text.dropEndWhile isPadding lead = [] ∧ atLineStart = true := by
  have padding : (fun character => character == ' ' || character == '\t') =
      isPadding := rfl
  rw [beginsLine, padding] at begins
  rw [Text.dropEndWhile, List.getLast?_reverse, List.reverse_eq_nil_iff]
  cases kept : lead.reverse.dropWhile isPadding with
  | nil =>
      rw [kept] at begins
      exact .inr ⟨rfl, begins⟩
  | cons last others =>
      rw [kept] at begins
      obtain rfl : last = '\n' := by simpa using begins
      exact .inl rfl

/-- What takes the place of the removed part and of everything behind it. -/
structure Replaces (ownLine : Bool) (body rest kept : Text) : Prop where
  visible : kept.visible = rest.visible
  nothingNew : kept.Sublist body
  endsLine : body.getLast? = some '\n' →
    kept.getLast? = some '\n' ∨ kept = [] ∧ ownLine = true

theorem getLast?_of_suffix {text behind : Text} (suffix : behind <:+ text)
    (nonempty : behind ≠ []) :
    behind.getLast? = text.getLast? := by
  obtain ⟨front, rfl⟩ := suffix
  rw [List.getLast?_append, List.getLast?_eq_some_getLast nonempty,
    Option.some_or]

private theorem isBlank_of_isPadding {character : Char}
    (pads : isPadding character = true) :
    isBlank character = true := by
  simp only [isPadding, Bool.or_eq_true, beq_iff_eq] at pads
  rcases pads with rfl | rfl <;> rfl

private theorem remains_suffix {removed terminators : Text}
    (split : body = removed ++ (terminators ++ rest)) (ownLine : Bool) :
    (if ownLine then dropLineBreak rest else rest) <:+ body ∧
      (if ownLine then dropLineBreak rest else rest).visible =
        rest.visible := by
  have behind : rest <:+ body :=
    ⟨removed ++ terminators, by rw [split, List.append_assoc]⟩
  cases ownLine with
  | false => exact ⟨behind, rfl⟩
  | true =>
      obtain ⟨front, parts, -⟩ := dropLineBreak_spec rest
      have later : dropLineBreak rest <:+ rest := ⟨front, parts.symm⟩
      exact ⟨later.trans behind, visible_dropLineBreak rest⟩

private theorem replaces_remains {remains : Text} (suffix : remains <:+ body)
    (same : remains.visible = rest.visible) (ownLine : Bool) :
    Replaces ownLine body rest
      (if remains.isAllBlank then (if ownLine then [] else finalLineBreak body)
        else remains) := by
  split
  · next blank =>
      have nothing : rest.visible = [] :=
        same ▸ Text.visible_of_isAllBlank blank
      cases ownLine with
      | true =>
          exact ⟨nothing.symm, List.nil_sublist body, fun _ => .inr ⟨rfl, rfl⟩⟩
      | false =>
          constructor
          · rw [nothing]
            exact Text.visible_of_isAllBlank (isAllBlank_finalLineBreak body)
          · exact finalLineBreak_sublist body
          · exact fun ends => .inl (finalLineBreak_getLast? ends)
  · next notBlank =>
      have nonempty : remains ≠ [] := by
        rintro rfl
        exact notBlank rfl
      constructor
      · exact same
      · exact suffix.sublist
      · intro ends
        rw [getLast?_of_suffix suffix nonempty]
        exact .inl ends

private theorem spares_suppress (atLineStart : Bool)
    {removed terminators : Text}
    (split : body = removed ++ (terminators ++ rest)) (nonempty : body ≠ [])
    (remains : ∀ ownLine, remainder body guarded ownLine = if ownLine then
      dropLineBreak rest else rest) :
    Spares atLineStart (lead ++ body) lead rest
      (suppress lead body guarded (beginsLine lead atLineStart)) := by
  obtain ⟨suffix, same⟩ := remains_suffix split (beginsLine lead atLineStart)
  rw [← remains] at suffix same
  obtain ⟨visible, nothingNew, endsLine⟩ :=
    replaces_remains suffix same (beginsLine lead atLineStart)
  obtain ⟨padding, leadEq, pads⟩ := Text.dropEndWhile_spec isPadding lead
  have paddingBlank : padding.visible = [] := by
    apply Text.visible_of_isAllBlank
    rw [Text.isAllBlank, List.all_eq_true]
    exact fun character member => isBlank_of_isPadding (pads character member)
  have leadVisible := congrArg Text.visible leadEq
  rw [Text.visible_append, paddingBlank, List.append_nil] at leadVisible
  constructor
  · rw [suppress, Text.visible_append, Text.visible_append, leadVisible]
    exact congrArg _ visible
  · exact ⟨_, padding, _, leadEq, rfl, pads⟩
  · have front : Text.dropEndWhile isPadding lead <+: lead :=
      ⟨padding, leadEq.symm⟩
    exact front.sublist.append nothingNew
  · intro ends
    rw [← getLast?_of_suffix (List.suffix_append lead body) nonempty] at ends
    rcases endsLine ends with kept | ⟨empty, ownLine⟩
    · left
      rw [suppress, List.getLast?_append]
      exact (congrArg (Option.or · _) kept).trans Option.some_or
    · have both : suppress lead body guarded (beginsLine lead atLineStart) =
          Text.dropEndWhile isPadding lead := by
        rw [suppress]
        exact (congrArg _ empty).trans (List.append_nil _)
      rw [both]
      exact endsLine_of_beginsLine ownLine

/-- A unit is returned unchanged unless a removal is counted; and a removal
takes one guard with the terminators behind it, or one plain statement, and
spares everything else. -/
theorem apply_touches_only_drop (atLineStart : Bool) (state : PipelineState)
    (text : Text) :
    let outcome := apply atLineStart state text
    (outcome.1.counts.dropsSuppressed = state.counts.dropsSuppressed →
      outcome = (state, text)) ∧
      (outcome.1.counts.dropsSuppressed ≠ state.counts.dropsSuppressed →
        outcome.1 = { state with
          counts := { state.counts with
            dropsSuppressed := state.counts.dropsSuppressed + 1 } } ∧
        ∃ lead removed terminators rest,
          text = lead ++ (removed ++ (terminators ++ rest)) ∧
          Passed lead ∧ Removed removed (terminators ++ rest) ∧
          (∀ mark ∈ terminators, mark = ';') ∧ rest.head? ≠ some ';' ∧
          Spares atLineStart text lead rest outcome.2) := by
  intro outcome
  have outcomeEq : outcome = apply atLineStart state text := rfl
  clear_value outcome
  cases found : find? (text.drop (statementOffset text)) with
  | none =>
      rw [apply, found] at outcomeEq
      subst outcomeEq
      exact ⟨fun _ => rfl, fun counted => absurd rfl counted⟩
  | some drop =>
      obtain ⟨body, guarded⟩ := drop
      obtain ⟨lead, rfl, passed, guardedEq⟩ := passed_of_find? found
      have nonempty : body ≠ [] := (find?_spec found).1
      have textEq := apply_of_find? atLineStart state found
      obtain ⟨removed, terminators, rest, split, removes, marks,
        noMark, remains⟩ :=
        removed_of_drops (find?_drops found) guardedEq
      have spares : Spares atLineStart (lead ++ body) lead rest
          (suppress lead body guarded (beginsLine lead atLineStart)) :=
        spares_suppress atLineStart split nonempty remains
      rw [← textEq, ← outcomeEq] at spares
      have stateEq : outcome.1 = { state with
          counts := { state.counts with
            dropsSuppressed := state.counts.dropsSuppressed + 1 } } := by
        rw [outcomeEq, apply, found]
      refine ⟨fun same => ?_, fun _ => ⟨stateEq, lead, removed, terminators,
        rest, ?_, passed, removes, marks, noMark, spares⟩⟩
      · rw [stateEq] at same
        exact absurd same (Nat.succ_ne_self _)
      · rw [split]

/-- Behind a guard that has its line for itself, the line break goes with it. -/
example :
    (apply true {} "-- v\n/*!50001 DROP VIEW v; */\nSET a=1;\n".toList).2 =
      "-- v\nSET a=1;\n".toList := by
  decide +kernel

end DropStatement

end SqlDump
