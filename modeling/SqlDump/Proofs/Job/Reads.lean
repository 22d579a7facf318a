import SqlDump.Proofs.Job.Action
import SqlDump.Proofs.Session.Streaming

/-!
# Reading an input to its end

A job makes one read after the other until one finds the end of the input or the
job is to stop.  The bytes of the reads that were made are pushed through the
session as they come.
-/

namespace SqlDump

namespace Read

def bytes (read : Read) : Bytes :=
  match read.outcome with
  | .ok bytes => bytes
  | .error _ => []

end Read

def Observer.watch [Percentage α] (observer : Observer α) (reads : List Read) :
    Observer α :=
  reads.foldl (fun observer read => observer.observeAll read.fetched) observer

/-- The first `count` reads are made, and then the job is stopped or finds the
end of the input. -/
structure ReadUntil [Percentage α] (raised : Nat → List (Progress α) → Bool)
    (observer : Observer α) (reads : List Read) (count : Nat) (stopped : Bool) :
    Prop where
  within : count ≤ reads.length
  nonempty : ∀ read ∈ reads.take count, read.bytes ≠ []
  calm : ∀ earlier < count,
    raised earlier (observer.watch (reads.take earlier)).notified = false
  stopped_eq : raised count (observer.watch (reads.take count)).notified =
    stopped
  ended : stopped = false → ∀ read, reads[count]? = some read →
    read.outcome = .ok []

namespace ReadUntil

variable {α : Type} [Percentage α] {raised : Nat → List (Progress α) → Bool}
  {observer : Observer α} {read : Read} {reads : List Read} {count : Nat}
  {stopped : Bool}

theorem zero (stopped_eq : raised 0 observer.notified = stopped)
    (ended : stopped = false → ∀ read,
      reads[0]? = some read → read.outcome = .ok []) :
    ReadUntil raised observer reads 0 stopped where
  within := Nat.zero_le _
  nonempty := by simp
  calm := by simp
  stopped_eq := stopped_eq
  ended := ended

theorem succ (nonempty : read.bytes ≠ [])
    (calm : raised 0 observer.notified = false)
    (rest : ReadUntil (fun poll => raised (poll + 1))
        (observer.observeAll read.fetched) reads count stopped) :
    ReadUntil raised observer (read :: reads) (count + 1) stopped where
  within := Nat.succ_le_succ rest.within
  nonempty := by
    intro found member
    rcases List.mem_cons.mp member with rfl | later
    · exact nonempty
    · exact rest.nonempty found later
  calm := by
    intro earlier less
    cases earlier with
    | zero => exact calm
    | succ earlier => exact rest.calm earlier (Nat.lt_of_succ_lt_succ less)
  stopped_eq := rest.stopped_eq
  ended := rest.ended

end ReadUntil

namespace CountedInput

variable {size count : Nat} {fault : Option FileError} {input : CountedInput}

theorem bytes_lastRead (input : CountedInput) (fault : Option FileError) :
    (input.lastRead fault).bytes = [] := by
  cases fault <;> rfl

theorem flatten_take_reads (size : Nat) (fault : Option FileError)
    (input : CountedInput) (count : Nat) :
    (((reads size fault input).take count).map Read.bytes).flatten =
      input.rest.take (count * (size + 1)) := by
  fun_induction reads size fault input generalizing count with
  | case1 input taken nothing =>
      have empty : input.rest = [] := by
        simpa [taken, CountedInput.take] using nothing
      cases count <;> simp [bytes_lastRead, empty]
  | case2 input taken more ih =>
      cases count with
      | zero => simp
      | succ count =>
          have parts : input.rest.take ((count + 1) * (size + 1)) =
              input.rest.take (size + 1) ++
                (input.rest.drop (size + 1)).take (count * (size + 1)) := by
            rw [Nat.succ_mul, Nat.add_comm, List.take_add]
          rw [List.take_succ_cons, List.map_cons, List.flatten_cons, ih, parts]
          rfl

theorem ended_reads (size : Nat) (fault : Option FileError)
    (input : CountedInput) (count : Nat) :
    count ≤ (reads size fault input).length →
    (∀ read ∈ (reads size fault input).take count, read.bytes ≠ []) →
    (∀ read, (reads size fault input)[count]? = some read →
      read.outcome = .ok []) →
    fault = none ∧ input.rest.length ≤ count * (size + 1) := by
  fun_induction reads size fault input generalizing count with
  | case1 input taken nothing =>
      intro within nonempty ended
      have empty : input.rest = [] := by
        simpa [taken, CountedInput.take] using nothing
      cases count with
      | zero =>
          cases fault with
          | none => simp [empty]
          | some failure => simp [lastRead] at ended
      | succ count =>
          exact absurd (taken.1.bytes_lastRead fault) (nonempty _ (by simp))
  | case2 input taken more ih =>
      intro within nonempty ended
      cases count with
      | zero => exact absurd (by simpa using ended) more
      | succ count =>
          obtain ⟨sound, short⟩ := ih count (Nat.le_of_succ_le_succ within)
            (fun read member => nonempty read (List.mem_cons_of_mem _ member))
            (fun read found => ended read found)
          refine ⟨sound, ?_⟩
          simp only [taken, CountedInput.take, List.length_drop] at short
          rw [Nat.succ_mul]
          omega

end CountedInput

namespace JobAction

open FileTree JobState

variable {α : Type} [Percentage α] {base tree : FileTree}
  {target : Target (StateM FileTree)}
  {session : Session} {observer : Observer α} {text : Text}
    {state : TreeState α}

theorem readAll_ends
    (ready : Ready base target session observer text state tree)
    (raised : Nat → List (Progress α) → Bool) (polls : Nat)
    (reads : List Read) :
    Ends (readAll raised polls reads) state tree
      (fun stopped last after => ∃ count watched,
        ReadUntil (fun poll => raised (polls + poll)) observer reads
          count stopped ∧
          Ready base target
            (session.pushAll ((reads.take count).map Read.bytes)).1 watched
            (text ++
              (session.pushAll ((reads.take count).map Read.bytes)).2.flatten)
                last after)
      (Lost base target) := by
  induction reads generalizing polls session observer text state tree with
  | nil =>
      obtain ⟨rfl, rfl, rfl, rfl, writing⟩ := ready
      exact Ends.look (Ends.pure ⟨0, state.observer, .zero rfl (by simp),
        ⟨rfl, rfl, by simp [Session.pushAll],
          rfl, by simpa [Session.pushAll] using writing⟩⟩)
  | cons read reads ih =>
      have begun : Ready base target session observer (text ++ []) state
          tree := by simpa using ready
      obtain ⟨rfl, rfl, rfl, rfl, writing⟩ := ready
      refine Ends.look ?_
      split
      · rename_i raisedNow
        exact Ends.pure ⟨0, state.observer, .zero raisedNow (by simp), begun⟩
      · rename_i notRaised
        have calm : raised polls state.observer.notified = false := by
          simpa using notRaised
        refine Ends.change ?_
        cases outcome : read.outcome with
        | error failure => exact Ends.fail ⟨rfl, writing.broken⟩
        | ok bytes =>
            cases bytes with
            | nil =>
                refine Ends.pure ⟨0, state.observer.observeAll read.fetched,
                  .zero calm ?_, ?_⟩
                · intro _ found same
                  rw [← Option.some.inj same, outcome]
                · exact ⟨rfl, rfl, begun.text_eq, rfl, begun.writing⟩
            | cons head tail =>
                have given : read.bytes = head :: tail := by
                  simp only [Read.bytes, outcome]
                have told : Ready base state.output.target state.session
                    (state.observer.observeAll read.fetched) state.text
                    { state with
                      observer :=
                        state.observer.observeAll read.fetched } tree :=
                  ⟨rfl, rfl, rfl, rfl, writing⟩
                refine (advance_ends told (·.push (head :: tail))).bind
                  fun _ last after pushed => ?_
                refine (ih pushed (polls + 1)).imp ?_
                rintro stopped last after ⟨count, watched, rest, stillReady⟩
                refine ⟨count + 1, watched, .succ ?_ calm ?_, ?_⟩
                · rw [given]
                  exact List.cons_ne_nil _ _
                · simpa only [Nat.add_assoc, Nat.add_comm 1] using rest
                · simpa only [List.take_succ_cons, List.map_cons,
                    Session.pushAll, given, List.flatten_append,
                    List.append_assoc] using stillReady

end JobAction

end SqlDump
