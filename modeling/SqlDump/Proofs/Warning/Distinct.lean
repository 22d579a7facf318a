import Mathlib.Data.List.Dedup
import Mathlib.Data.Finset.Card
import SqlDump.Warning

/-!
# Different warnings of a log

A log keeps the first different warnings, up to its limit.  What it did not keep
it does not know again, so beyond the limit it counts additions and not
warnings.  Both numbers agree exactly as long as no warning that was left out
comes a second time.
-/

namespace SqlDump

section FirstOccurrences

variable {α : Type} [DecidableEq α] {list : List α} {item : α}

theorem eraseDups_concat_of_mem (member : item ∈ list) :
    (list ++ [item]).eraseDups = list.eraseDups := by
  simp [List.eraseDups_append, List.removeAll, member]

theorem eraseDups_concat_of_not_mem (fresh : item ∉ list) :
    (list ++ [item]).eraseDups = list.eraseDups ++ [item] := by
  simp [List.eraseDups_append, List.removeAll, List.eraseDups_cons, fresh]

theorem nodup_eraseDups (list : List α) : list.eraseDups.Nodup := by
  induction list using List.reverseRecOn with
  | nil => exact List.nodup_nil
  | append_singleton list item ih =>
      by_cases member : item ∈ list
      · rw [eraseDups_concat_of_mem member]
        exact ih
      · have fresh : item ∉ list.eraseDups := fun found =>
          member (List.mem_eraseDups.mp found)
        rw [eraseDups_concat_of_not_mem member, ← List.concat_eq_append]
        exact ih.concat fresh

/-- The items behind the first ones are different, and they are the items that
are none of them. -/
theorem length_drop_eraseDups (list : List α) (limit : Nat) :
    (list.eraseDups.drop limit).length =
      (list.filter (· ∉ list.eraseDups.take limit)).dedup.length := by
  have parts : list.eraseDups.take limit ++ list.eraseDups.drop limit =
      list.eraseDups :=
    List.take_append_drop limit list.eraseDups
  have distinct :
      (list.eraseDups.take limit ++ list.eraseDups.drop limit).Nodup := by
    rw [parts]
    exact nodup_eraseDups list
  have others : (list.eraseDups.drop limit).toFinset =
      (list.filter (· ∉ list.eraseDups.take limit)).toFinset := by
    ext item
    have known : item ∈ list ↔
        item ∈ list.eraseDups.take limit ∨
        item ∈ list.eraseDups.drop limit := by
      rw [← List.mem_append, parts, List.mem_eraseDups]
    have apart : item ∈ list.eraseDups.drop limit →
        item ∉ list.eraseDups.take limit :=
      fun behind front => List.disjoint_of_nodup_append distinct front behind
    simp only [List.mem_toFinset, List.mem_filter, decide_eq_true_eq, known]
    tauto
  rw [← List.card_toFinset, ← others,
    List.toFinset_card_of_nodup
      (distinct.sublist (List.sublist_append_right _ _))]

private theorem length_dedup_eq_iff : list.dedup.length = list.length ↔
    list.Nodup := by
  rw [← List.dedup_eq_self]
  constructor
  · exact fun same => (List.dedup_sublist list).eq_of_length same
  · exact congrArg List.length

end FirstOccurrences

namespace WarningLog

/-- The log keeps the first different ones of the warnings and has counted every
other addition. -/
structure Reflects (log : WarningLog) (added : List Warning) : Prop where
  kept : log.kept = added.eraseDups.take log.limit
  dropped : log.dropped = (added.filter (· ∉ log.kept)).length

variable {log : WarningLog} {added : List Warning} {warning : Warning}

theorem Reflects.mem (reflects : log.Reflects added)
    (known : warning ∈ log.kept) :
    warning ∈ added := by
  rw [reflects.kept] at known
  exact List.mem_eraseDups.mp (List.mem_of_mem_take known)

/-- As long as the limit is not reached, every different warning is kept. -/
theorem Reflects.kept_of_lt (reflects : log.Reflects added)
    (room : log.kept.length < log.limit) : log.kept = added.eraseDups := by
  have lengths := congrArg List.length reflects.kept
  rw [List.length_take] at lengths
  rw [reflects.kept, List.take_of_length_le (by omega)]

theorem Reflects.add_of_known (reflects : log.Reflects added)
    (known : warning ∈ log.kept) :
    (log.add warning).Reflects (added ++ [warning]) := by
  have same : log.add warning = log := if_pos known
  rw [same]
  refine ⟨?_, ?_⟩
  · rw [eraseDups_concat_of_mem (reflects.mem known)]
    exact reflects.kept
  · rw [List.filter_append, List.filter_cons_of_neg (by simpa using known),
      List.filter_nil, List.append_nil]
    exact reflects.dropped

theorem Reflects.add_of_room (reflects : log.Reflects added)
    (unknown : warning ∉ log.kept) (room : log.kept.length < log.limit) :
    (log.add warning).Reflects (added ++ [warning]) := by
  have all := reflects.kept_of_lt room
  have fresh : warning ∉ added := by
    rw [all, List.mem_eraseDups] at unknown
    exact unknown
  have grown :
      log.add warning = { log with kept := log.kept ++ [warning] } := by
    rw [add, if_neg unknown, if_pos room]
  have nothingElse (kept : List Warning) (covers : ∀ other ∈ added,
      other ∈ kept) :
      added.filter (· ∉ kept) = [] := by
    simpa using covers
  rw [grown]
  refine ⟨?_, ?_⟩
  · have fits : (added.eraseDups ++ [warning]).length ≤ log.limit := by
      rw [List.length_append, ← all]
      exact room
    rw [eraseDups_concat_of_not_mem fresh, List.take_of_length_le fits, all]
  · have known : ∀ other ∈ added, other ∈ log.kept := by
      intro other member
      rw [all]
      exact List.mem_eraseDups.mpr member
    have noneDropped := reflects.dropped
    rw [nothingElse _ known] at noneDropped
    rw [List.filter_append, nothingElse _ fun other member =>
      List.mem_append_left [warning] (known other member)]
    simpa using noneDropped

theorem Reflects.add_of_full (reflects : log.Reflects added)
    (unknown : warning ∉ log.kept) (full : ¬log.kept.length < log.limit) :
    (log.add warning).Reflects (added ++ [warning]) := by
  have counted : log.add warning = { log with dropped := log.dropped + 1 } := by
    rw [add, if_neg unknown, if_neg full]
  have long : log.limit ≤ added.eraseDups.length := by
    have lengths := congrArg List.length reflects.kept
    rw [List.length_take] at lengths
    omega
  rw [counted]
  refine ⟨?_, ?_⟩
  · by_cases member : warning ∈ added
    · rw [eraseDups_concat_of_mem member]
      exact reflects.kept
    · rw [eraseDups_concat_of_not_mem member,
        List.take_append_of_le_length long]
      exact reflects.kept
  · rw [List.filter_append, List.filter_cons_of_pos (by simpa using unknown),
      List.filter_nil, List.length_append, ← reflects.dropped]
    rfl

theorem Reflects.add (reflects : log.Reflects added) (warning : Warning) :
    (log.add warning).Reflects (added ++ [warning]) := by
  by_cases known : warning ∈ log.kept
  · exact reflects.add_of_known known
  · by_cases room : log.kept.length < log.limit
    · exact reflects.add_of_room known room
    · exact reflects.add_of_full known room

private theorem limit_add (log : WarningLog) (warning : Warning) :
    (log.add warning).limit = log.limit := by
  unfold WarningLog.add
  split
  · rfl
  · split <;> rfl

private theorem reflects_addAll (limit : Nat) (warnings : List Warning) :
    (({ limit := limit } : WarningLog).addAll warnings).limit = limit ∧
      (({ limit := limit } : WarningLog).addAll warnings).Reflects
        warnings := by
  induction warnings using List.reverseRecOn with
  | nil => exact ⟨rfl, List.take_nil.symm, rfl⟩
  | append_singleton warnings warning ih =>
      rw [addAll, List.foldl_append, List.foldl_cons, List.foldl_nil, limit_add]
      exact ⟨ih.1, ih.2.add warning⟩

/-- A warning comes again without an effect exactly if it was kept. -/
theorem add_eq_self_iff : log.add warning = log ↔ warning ∈ log.kept := by
  constructor
  · intro same
    by_contra unknown
    have kept := congrArg WarningLog.kept same
    have dropped := congrArg WarningLog.dropped same
    rw [WarningLog.add, if_neg unknown] at kept dropped
    split at kept
    · simp at kept
    · next full =>
        rw [if_neg full] at dropped
        simp at dropped
  · exact fun known => if_pos known

/-- The kept warnings are the first different ones, as many as the limit allows,
and every addition of another warning is counted.  An addition of a warning that
is there already does nothing exactly if it was kept, so kept and counted
warnings are as many as there are different ones exactly if no warning that was
left out was added twice. -/
theorem addAll_counts_distinct_iff (limit : Nat) (warnings : List Warning) :
    let log := ({ limit := limit } : WarningLog).addAll warnings
    log.kept = warnings.eraseDups.take limit ∧ log.kept.Nodup ∧
      log.dropped = (warnings.filter (· ∉ log.kept)).length ∧
      (∀ warning ∈ warnings, log.add warning = log ↔ warning ∈ log.kept) ∧
      (log.kept.length + log.dropped = warnings.eraseDups.length ↔
        ∀ warning, warning ∉ log.kept → warnings.count warning ≤ 1) := by
  intro log
  obtain ⟨limitEq, reflects⟩ : log.limit = limit ∧ log.Reflects warnings :=
    reflects_addAll limit warnings
  have kept : log.kept = warnings.eraseDups.take limit :=
    limitEq ▸ reflects.kept
  refine ⟨kept, ?_, reflects.dropped, fun warning _ => add_eq_self_iff, ?_⟩
  · rw [kept]
    exact (nodup_eraseDups warnings).sublist (List.take_sublist _ _)
  · have split : warnings.eraseDups.length =
        log.kept.length + (warnings.filter (· ∉ log.kept)).dedup.length := by
      rw [kept, ← length_drop_eraseDups, ← List.length_append,
        List.take_append_drop]
    rw [split, reflects.dropped, Nat.add_left_cancel_iff, eq_comm,
      length_dedup_eq_iff, List.nodup_iff_count_le_one]
    refine forall_congr' fun warning => ?_
    by_cases known : warning ∈ log.kept
    · have absent : warning ∉ warnings.filter (· ∉ log.kept) := by simp [known]
      rw [List.count_eq_zero_of_not_mem absent]
      simp [known]
    · rw [List.count_filter (by simpa using known)]
      simp [known]

/-- A warning beyond the limit is counted each time it comes. -/
theorem counts_repeated_warning :
    let first := Warning.missingTable (some "db".toList) "a".toList
    let second := Warning.missingTable (some "db".toList) "b".toList
    let warnings := [first, second, second]
    let log := ({ limit := 1 } : WarningLog).addAll warnings
    log.kept = [first] ∧ log.dropped = 2 ∧
      warnings.eraseDups = [first, second] ∧
      log.kept.length + log.dropped ≠ warnings.eraseDups.length := by
  decide

end WarningLog

end SqlDump
