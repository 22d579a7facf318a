import Mathlib.Algebra.Order.Field.Basic
import Mathlib.Algebra.Order.Field.Rat
import Mathlib.Data.List.Chain
import Mathlib.Data.List.Nodup
import SqlDump.Job

/-!
# Reports of progress

Whatever the numbers of bytes that a tracker is told of, the percentages that it
reports rise, by one at least unless they reach one hundred, and one hundred
ends them.  Percentages are fractions here.
-/

namespace SqlDump

/-- What a tracker is told. -/
inductive ProgressCall where
  | update (bytes : Nat)
  | complete
deriving DecidableEq, Repr

namespace ProgressCall

/-- The percentage that the call is about. -/
def percent (total : Nat) : ProgressCall → Rat
  | .update bytes => if total = 0 then 100 else min (bytes * 100 / total) 100
  | .complete => 100

def notification {α : Type} (total : Nat) : ProgressCall → α → Progress α
  | .update bytes, percent => ⟨bytes, total, percent⟩
  | .complete, percent => ⟨total, total, percent⟩

theorem percent_le (total : Nat) (call : ProgressCall) :
    call.percent total ≤ 100 := by
  cases call with
  | update bytes =>
      rw [percent]
      split
      · exact le_rfl
      · exact min_le_right _ _
  | complete => exact le_rfl

end ProgressCall

namespace PercentTracker

section

variable {α : Type} [Percentage α]

def call (tracker : PercentTracker α) :
    ProgressCall → PercentTracker α × Option α
  | .update bytes => tracker.update bytes
  | .complete => tracker.complete

/-- The reports that the calls lead to, each with its call. -/
def reports (tracker : PercentTracker α) :
    List ProgressCall → List (ProgressCall × α)
  | [] => []
  | call :: calls =>
      ((tracker.call call).2.map (call, ·)).toList ++
      (tracker.call call).1.reports calls

end

theorem hundred_eq : (Percentage.hundred : Rat) = 100 := by
  norm_num [Percentage.hundred, Rat.mkRat_eq_div]

private theorem addOne_eq (percent : Rat) :
    Percentage.addOne percent = percent + 1 := by
  have one : mkRat 1 1 = 1 := rfl
  rw [← one]
  rfl

theorem less_iff (left right : Rat) :
    Percentage.less left right = true ↔ left < right :=
  Iff.rfl

private theorem percentOf_eq (tracker : PercentTracker Rat) (bytes : Nat) :
    tracker.percentOf bytes = (ProgressCall.update bytes).percent
      tracker.total := by
  have hundred : mkRat 100 1 = 100 := hundred_eq
  simp only [percentOf, Percentage.share, ProgressCall.percent, hundred]
  by_cases empty : tracker.total = 0
  · simp [empty]
  · have positive : (0 : Rat) < tracker.total :=
      Nat.cast_pos.mpr (Nat.pos_of_ne_zero empty)
    have reaches : (bytes * 100 / tracker.total : Rat) ≤ 100 ↔
        bytes ≤ tracker.total := by
      rw [div_le_iff₀ positive, mul_comm, mul_le_mul_iff_right₀ (by norm_num),
        Nat.cast_le]
    by_cases more : tracker.total < bytes
    · have beyond : (100 : Rat) ≤ bytes * 100 / tracker.total :=
        le_of_not_ge fun within =>
          absurd (reaches.mp within) (Nat.not_le.mpr more)
      simp [empty, more, min_eq_right beyond]
    · have within := reaches.mpr (Nat.not_lt.mp more)
      simp [empty, more, min_eq_left within, Rat.mkRat_eq_div]

/-- How far the next report is from the one before it. -/
structure Rises (earlier later : Rat) : Prop where
  less : earlier < later
  distant : earlier + 1 ≤ later ∨ later = 100

/-- The percentage that the call is about was reported already, up to less than
one. -/
structure Covers (total : Nat) (call : ProgressCall) (percent : Rat) :
    Prop where
  close : call.percent total < percent + 1
  ends : call.percent total = 100 → percent = 100

theorem covers_self (total : Nat) (call : ProgressCall) :
    Covers total call (call.percent total) :=
  ⟨lt_add_one _, id⟩

/-- What a call can do. -/
inductive Answers (tracker : PercentTracker Rat) (call : ProgressCall) :
    PercentTracker Rat × Option Rat → Prop where
  | silent (covered : ∃ last ∈ tracker.last, Covers tracker.total call last) :
      Answers tracker call (tracker, none)
  | report
      (rises : ∀ last ∈ tracker.last, Rises last (call.percent tracker.total)) :
      Answers tracker call
        ({ tracker with last := some (call.percent tracker.total) },
          some (call.percent tracker.total))

def Bounded (tracker : PercentTracker Rat) : Prop :=
  ∀ last ∈ tracker.last, last ≤ 100

variable {tracker : PercentTracker Rat}

private theorem answers_update (bounded : tracker.Bounded) (bytes : Nat) :
    tracker.Answers (.update bytes) (tracker.update bytes) := by
  have bound := ProgressCall.percent_le tracker.total (.update bytes)
  unfold update reachesEnd
  simp only [percentOf_eq, hundred_eq, addOne_eq]
  generalize percentEq : (ProgressCall.update bytes).percent tracker.total =
    percent at bound
  have reported (rises : ∀ last ∈ tracker.last, Rises last percent) :
      tracker.Answers (.update bytes) ({ tracker with last := some percent },
        some percent) := by
    subst percentEq
    exact .report rises
  cases before : tracker.last with
  | none => exact reported (by simp [before])
  | some last =>
      dsimp only
      split
      · next due =>
          refine reported fun other found => ?_
          obtain rfl : last = other := by simpa [before] using found
          simp only [Bool.or_eq_true, Bool.not_eq_true', Bool.and_eq_true,
            ← Bool.not_eq_true, less_iff, not_lt] at due
          rcases due with distant | ⟨reaches, below⟩
          · exact ⟨lt_of_lt_of_le (lt_add_one last) distant, .inl distant⟩
          · have ends := le_antisymm bound reaches
            exact ⟨ends ▸ below, .inr ends⟩
      · next early =>
          simp only [Bool.or_eq_true, Bool.not_eq_true', Bool.and_eq_true,
            ← Bool.not_eq_true, less_iff, not_lt, not_or, not_and,
            not_le] at early
          obtain ⟨close, notFirst⟩ := early
          have top : last ≤ 100 := bounded last before
          subst percentEq
          exact .silent ⟨last, before, close,
            fun ends => le_antisymm top (notFirst ends.ge)⟩

private theorem answers_complete (bounded : tracker.Bounded) :
    tracker.Answers .complete tracker.complete := by
  unfold complete
  rw [hundred_eq]
  cases before : tracker.last with
  | none => exact .report (by simp [before])
  | some last =>
      dsimp only
      split
      · next due =>
          refine .report fun other found => ?_
          obtain rfl : last = other := by simpa [before] using found
          exact ⟨(less_iff last 100).mp due, .inr rfl⟩
      · next ended =>
          rw [less_iff, not_lt] at ended
          obtain rfl : last = 100 := le_antisymm (bounded last before) ended
          exact .silent ⟨100, before, covers_self tracker.total .complete⟩

private theorem answers_call (bounded : tracker.Bounded) (call : ProgressCall) :
    tracker.Answers call (tracker.call call) := by
  cases call with
  | update bytes => exact answers_update bounded bytes
  | complete => exact answers_complete bounded

theorem Answers.bounded {call : ProgressCall}
    {answer : PercentTracker Rat × Option Rat}
    (answers : tracker.Answers call answer) (bounded : tracker.Bounded) :
    answer.1.Bounded := by
  cases answers with
  | silent => exact bounded
  | report rises =>
      intro last found
      obtain rfl := Option.some.inj found
      exact call.percent_le tracker.total

/-- The reports behind the last one. -/
structure Climbs (tracker : PercentTracker Rat) (calls : List ProgressCall)
    (reports : List (ProgressCall × Rat)) : Prop where
  rising : (tracker.last.toList ++ reports.map Prod.snd).IsChain Rises
  percent : ∀ report ∈ reports, report.2 = report.1.percent tracker.total
  covered : ∀ call ∈ calls, ∃ percent ∈ tracker.last.toList ++
    reports.map Prod.snd,
    Covers tracker.total call percent

private theorem climbs_reports (bounded : tracker.Bounded)
    (calls : List ProgressCall) :
    tracker.Climbs calls (tracker.reports calls) := by
  induction calls generalizing tracker with
  | nil =>
      refine ⟨?_, by simp [reports], by simp⟩
      cases tracker.last <;> simp [reports]
  | cons call calls ih =>
      have answers := answers_call bounded call
      have later := ih (answers.bounded bounded)
      rw [reports]
      generalize tracker.call call = answer at answers later
      cases answers with
      | silent covered =>
          refine ⟨later.rising, later.percent, fun other member => ?_⟩
          rcases List.mem_cons.mp member with rfl | behind
          · obtain ⟨last, found, covers⟩ := covered
            refine ⟨last, List.mem_append_left _ ?_, covers⟩
            exact Option.mem_toList.mpr found
          · exact later.covered other behind
      | report rises =>
          refine ⟨?_, ?_, fun other member => ?_⟩
          · have rising := later.rising
            cases before : tracker.last with
            | none => exact rising
            | some last =>
                exact List.isChain_cons_cons.mpr ⟨rises last before, rising⟩
          · intro report member
            rcases List.mem_cons.mp member with rfl | behind
            · rfl
            · exact later.percent report behind
          · rcases List.mem_cons.mp member with rfl | behind
            · refine ⟨_, ?_, covers_self tracker.total other⟩
              exact List.mem_append_right _ List.mem_cons_self
            · obtain ⟨percent, found, covers⟩ := later.covered other behind
              exact ⟨percent, List.mem_append_right _ found, covers⟩

end PercentTracker

namespace Observer

variable {α : Type} [Percentage α]

def notify (observer : Observer α) : ProgressCall → Observer α
  | .update bytes => observer.observe bytes
  | .complete => observer.observeEnd

def notifyAll (observer : Observer α) (calls : List ProgressCall) :
    Observer α :=
  calls.foldl notify observer

theorem notify_eq {observer : Observer α} (present : observer.present = true)
    (call : ProgressCall) :
    observer.notify call =
      { observer with
        tracker := (observer.tracker.call call).1
        notified := ((observer.tracker.call call).2.map
          (call.notification observer.tracker.total)).toList ++
          observer.notified } := by
  cases call with
  | update bytes => simp only [notify, observe, present, if_true]; rfl
  | complete => simp only [notify, observeEnd, present, if_true]; rfl

private theorem total_call (tracker : PercentTracker α) (call : ProgressCall) :
    (tracker.call call).1.total = tracker.total := by
  cases call with
  | update bytes =>
      simp only [PercentTracker.call, PercentTracker.update]
      split <;> split <;> rfl
  | complete =>
      simp only [PercentTracker.call, PercentTracker.complete]
      split <;> split <;> rfl

/-- An observer is notified of the reports of its tracker, and of nothing
else. -/
theorem notified_notifyAll {observer : Observer α}
    (present : observer.present = true) (calls : List ProgressCall) :
    (observer.notifyAll calls).notified.reverse =
      observer.notified.reverse ++ (observer.tracker.reports calls).map
        fun report =>
          report.1.notification observer.tracker.total report.2 := by
  induction calls generalizing observer with
  | nil => simp [notifyAll, PercentTracker.reports]
  | cons call calls ih =>
      have kept : (observer.notify call).present = true := by
        rw [notify_eq present]
        exact present
      have later := ih kept
      rw [notify_eq present] at later
      rw [notifyAll, List.foldl_cons, ← notifyAll, notify_eq present, later]
      simp only [total_call, PercentTracker.reports]
      cases (observer.tracker.call call).2 <;> simp

end Observer

/-- In a rising list below one hundred, one hundred comes once and last. -/
theorem getLast?_of_rising {percents : List Rat}
    (rising : percents.Pairwise (· < ·))
    (bounded : ∀ percent ∈ percents, percent ≤ 100) (found : 100 ∈ percents) :
    percents.count 100 = 1 ∧ percents.getLast? = some 100 := by
  obtain ⟨front, back, rfl⟩ := List.append_of_mem found
  have last : back = [] := by
    rw [List.eq_nil_iff_forall_not_mem]
    intro later member
    have behind :=
      (List.pairwise_cons.mp (List.pairwise_append.mp rising).2.1).1 later
        member
    have bound := bounded later (by simp [member])
    exact absurd bound (not_le.mpr behind)
  subst last
  refine ⟨List.count_eq_one_of_mem (rising.imp ne_of_lt) found, by simp⟩

/-- Whatever a tracker is told, its reports rise, each at least one above the
one before it unless it is one hundred; none is above one hundred, which is
reported once and last.  A report is about the percentage of its call, and no
call is about a percentage that stays unreported by one or more.  So a tracker
that is told of the end reports one hundred once.  An observer is notified of
just these reports. -/
theorem PercentTracker.reports_climb (total : Nat) (calls : List ProgressCall) :
    let tracker : PercentTracker Rat := { total := total }
    let reports := tracker.reports calls
    let percents := reports.map Prod.snd
    percents.Pairwise (· < ·) ∧
      percents.IsChain
        (fun earlier later => earlier + 1 ≤ later ∨ later = 100) ∧
      (∀ percent ∈ percents, percent ≤ 100) ∧
      (100 ∈ percents → percents.count 100 = 1 ∧ percents.getLast? = some 100) ∧
      (.complete ∈ calls → percents.count 100 = 1) ∧
      (∀ report ∈ reports, report.2 = report.1.percent total) ∧
      (∀ call ∈ calls, ∃ percent ∈ percents,
        call.percent total < percent + 1 ∧
          (call.percent total = 100 → percent = 100)) ∧
      (({ tracker := tracker, present := true } : Observer Rat).notifyAll
        calls).notified.reverse =
        reports.map fun report => report.1.notification total report.2 := by
  intro tracker reports percents
  have climbs : tracker.Climbs calls reports :=
    climbs_reports (by simp [tracker, Bounded]) calls
  have rising : percents.Pairwise (· < ·) :=
    List.isChain_iff_pairwise.mp (climbs.rising.imp fun _ _ rises => rises.less)
  have bounded : ∀ percent ∈ percents, percent ≤ 100 := by
    intro percent member
    obtain ⟨report, found, rfl⟩ := List.mem_map.mp member
    rw [climbs.percent report found]
    exact report.1.percent_le total
  refine ⟨rising, climbs.rising.imp fun _ _ rises => rises.distant, bounded,
    getLast?_of_rising rising bounded, fun completes => ?_, climbs.percent,
      fun call member => ?_,
    Observer.notified_notifyAll rfl calls⟩
  · obtain ⟨percent, found, covers⟩ := climbs.covered .complete completes
    have hundred : percent = 100 := covers.ends rfl
    exact (getLast?_of_rising rising bounded (hundred ▸ found)).1
  · obtain ⟨percent, found, covers⟩ := climbs.covered call member
    exact ⟨percent, found, covers.close, covers.ends⟩

example :
    (({ total := 1000 } : PercentTracker Rat).reports [.update 0, .update 5,
      .update 10,
      .update 999, .update 400, .update 1200, .complete]).map Prod.snd =
        [0, 1, 999 / 10, 100] := by
  decide +kernel

end SqlDump
