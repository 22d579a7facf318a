import Mathlib.Algebra.GroupWithZero.Nat
import SqlDump.Proofs.Session.Prelude
import SqlDump.Sink

/-!
# Sinks that fill up

A session whose sink refuses a text ends there.  What the sink has got by then
is a beginning of the cleaned text, and a sink with room for the cleaned text
gets all of it, whatever the chunks.
-/

namespace SqlDump

namespace Sink

variable {α : Type} {cost : α → Nat} {sink : Sink}

/-- The sink has room for so much. -/
def Fits (sink : Sink) (amount : Nat) : Prop :=
  ∀ room, sink.room = some room → amount ≤ room

theorem fits_spend {less : Sink} {amount more : Nat}
    (spent : sink.spend? amount = some less) :
    less.Fits more ↔ sink.Fits (amount + more) := by
  unfold spend? at spent
  unfold Fits
  cases limit : sink.room with
  | none =>
      rw [limit] at spent
      obtain rfl := Option.some.inj spent
      simp [limit]
  | some room =>
      rw [limit] at spent
      dsimp only at spent
      split at spent
      · next free =>
          obtain rfl := Option.some.inj spent
          simp [limit, free]
      · split at spent
        · next within =>
            obtain rfl := Option.some.inj spent
            simp only [Option.some.injEq, forall_eq']
            omega
        · nomatch spent

private theorem not_fits_of_refused {amount : Nat}
    (refused : sink.spend? amount = none) :
    ¬sink.Fits amount := by
  unfold spend? at refused
  cases limit : sink.room with
  | none =>
      rw [limit] at refused
      nomatch refused
  | some room =>
      rw [limit] at refused
      dsimp only at refused
      intro fits
      rw [if_pos (fits room limit)] at refused
      split at refused <;> nomatch refused

private theorem takeAll_append (sink : Sink) (first second : List α) :
    sink.takeAll cost (first ++ second) =
      match sink.takeAll cost first with
      | (taken, none) => (taken, none)
      | (taken, some less) =>
          (taken ++ (less.takeAll cost second).1,
            (less.takeAll cost second).2) := by
  induction first generalizing sink with
  | nil => rfl
  | cons item items ih =>
      rw [List.cons_append, takeAll, takeAll]
      cases sink.spend? (cost item) with
      | none => rfl
      | some less =>
          dsimp only
          rw [ih]
          rcases less.takeAll cost items with ⟨taken, _ | last⟩ <;> rfl

/-- The items that a sink takes are the first ones, and they fit.  It takes all
of them exactly if all fit together. -/
theorem takeAll_spec (sink : Sink) (cost : α → Nat) (items : List α) :
    (sink.takeAll cost items).1 <+: items ∧
      sink.Fits ((sink.takeAll cost items).1.map cost).sum ∧
      ((sink.takeAll cost items).2.isSome = true ↔
        sink.Fits (items.map cost).sum) ∧
      ((sink.takeAll cost items).2.isSome = true →
        (sink.takeAll cost items).1 = items) := by
  induction items generalizing sink with
  | nil =>
      exact ⟨List.nil_prefix, by simp [takeAll, Fits], by simp [takeAll, Fits],
        fun _ => rfl⟩
  | cons item items ih =>
      rw [takeAll, List.map_cons, List.sum_cons]
      cases spent : sink.spend? (cost item) with
      | none =>
          have tooMuch : ¬sink.Fits (cost item + (items.map cost).sum) := by
            intro fits
            exact not_fits_of_refused spent fun room limit =>
              Nat.le_of_add_right_le (fits room limit)
          exact ⟨List.nil_prefix, by simp [Fits], by simp [tooMuch], by simp⟩
      | some less =>
          obtain ⟨first, fits, all, whole⟩ := ih less
          dsimp only
          rw [List.map_cons, List.sum_cons, ← fits_spend spent,
            ← fits_spend spent]
          exact ⟨(List.prefix_cons_inj item).mpr first, fits, all,
            fun took => congrArg (item :: ·) (whole took)⟩

end Sink

namespace Session

/-- Push the chunks and finish, until the sink refuses a text. -/
def intoSink (session : Session) (sink : Sink) :
    List Bytes → List Text × Option Sink
  | [] => sink.takeAll Text.size session.finish.2
  | chunk :: chunks =>
      let (pushed, texts) := session.push chunk
      match sink.takeAll Text.size texts with
      | (taken, none) => (taken, none)
      | (taken, some less) =>
          let (later, last) := pushed.intoSink less chunks
          (taken ++ later, last)

private theorem intoSink_eq_takeAll (session : Session) (sink : Sink)
    (chunks : List Bytes) :
    session.intoSink sink chunks =
      sink.takeAll Text.size
        ((session.pushAll chunks).2 ++
          (session.pushAll chunks).1.finish.2) := by
  induction chunks generalizing session sink with
  | nil => rfl
  | cons chunk chunks ih =>
      rw [intoSink, pushAll, List.append_assoc, Sink.takeAll_append]
      dsimp only
      rcases sink.takeAll Text.size (session.push chunk).2 with
          ⟨taken, _ | less⟩
      · rfl
      · dsimp only
        rw [ih]

private theorem sum_size (texts : List Text) :
    (texts.map Text.size).sum = Text.size texts.flatten := by
  induction texts with
  | nil => rfl
  | cons text texts ih =>
      rw [List.map_cons, List.sum_cons, ih, List.flatten_cons, Text.size_append]

/-- What a sink gets of a session is a beginning of the cleaned text that fits
into it.  It gets the whole text exactly if that fits. -/
theorem intoSink_cleans (options : CleanOptions) (catalog : Catalog)
    (sink : Sink) (chunks : List Bytes) :
    let (taken, last) := (start options catalog).intoSink sink chunks
    let cleaned := (cleanBytes options catalog chunks.flatten).1
    taken.flatten <+: cleaned ∧ sink.Fits (Text.size taken.flatten) ∧
      (last.isSome = true ↔ sink.Fits cleaned.size) ∧
      (last.isSome = true → taken.flatten = cleaned) := by
  obtain ⟨whole, -⟩ := finish_pushAll (start options catalog) chunks rfl
  rw [← cleanBytes_eq_conclude, ← List.flatten_append] at whole
  dsimp only
  rw [intoSink_eq_takeAll, ← whole]
  obtain ⟨⟨rest, split⟩, fits, all, took⟩ := sink.takeAll_spec Text.size
    (((start options catalog).pushAll chunks).2 ++
      ((start options catalog).pushAll chunks).1.finish.2)
  rw [sum_size] at fits all
  refine ⟨⟨rest.flatten, ?_⟩, fits, all,
    fun isWhole => congrArg List.flatten (took isWhole)⟩
  rw [← List.flatten_append, split]

end Session

end SqlDump
