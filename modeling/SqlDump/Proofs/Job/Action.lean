import SqlDump.Job
import SqlDump.Proofs.Line.Encoding
import SqlDump.Proofs.Output.Writing

/-!
# What the actions of a job do

An action that succeeds moves the session on and writes what the session gives,
and nothing else; one that fails leaves a broken output.
-/

namespace SqlDump

/-- The states of a job on a tree of files. -/
abbrev TreeState := JobState (StateM FileTree)

namespace JobAction

open FileTree Output

variable {α : Type} {state : TreeState α} {base tree : FileTree}

abbrev OnTree (α : Type) := JobAction (StateM FileTree) α

/-- What comes of an action. -/
def Ends (action : OnTree α β) (state : TreeState α) (tree : FileTree)
    (good : β → TreeState α → FileTree → Prop)
    (bad : TreeState α → FileTree → Prop) : Prop :=
  match (action.run.run state).run tree with
  | ((.ok value, last), after) => good value last after
  | ((.error _, last), after) => bad last after

section Ends

variable {action : OnTree α β} {good mid : β → TreeState α → FileTree → Prop}
  {bad : TreeState α → FileTree → Prop}

theorem Ends.imp (ends : Ends action state tree mid bad)
    (holds : ∀ value last after, mid value last after → good value last after) :
    Ends action state tree good bad := by
  unfold Ends at ends ⊢
  split at ends
  · exact holds _ _ _ ends
  · exact ends

theorem Ends.cases (ends : Ends action state tree good bad) :
    (∃ failure last after,
        (action.run.run state).run tree = ((.error failure, last), after) ∧
        bad last after) ∨
      ∃ value last after,
        (action.run.run state).run tree = ((.ok value, last), after) ∧
        good value last after := by
  unfold Ends at ends
  split at ends
  · exact .inr ⟨_, _, _, ‹_›, ends⟩
  · exact .inl ⟨_, _, _, ‹_›, ends⟩

theorem Ends.and {other : β → TreeState α → FileTree → Prop}
    {otherBad : TreeState α → FileTree → Prop}
    (ends : Ends action state tree good bad)
    (also : Ends action state tree other otherBad) :
    Ends action state tree (fun value last after => good value last after ∧
      other value last after)
      bad := by
  unfold Ends at ends also ⊢
  split at ends
  · rename_i found
    rw [found] at also
    exact ⟨ends, also⟩
  · exact ends

theorem Ends.pure {value : β} (holds : good value state tree) :
    Ends (Pure.pure value) state tree good bad :=
  holds

theorem Ends.bind {next : β → OnTree α γ}
    {good : γ → TreeState α → FileTree → Prop}
    (first : Ends action state tree mid bad)
    (second : ∀ value last after,
      mid value last after → Ends (next value) last after good bad) :
    Ends (action >>= next) state tree good bad := by
  rcases first.cases with
      ⟨failure, last, after, ran, lost⟩ | ⟨value, last, after, ran, holds⟩
  · unfold Ends
    rw [show ((action >>= next).run.run state).run tree =
      ((.error failure, last), after) by
      rw [ExceptT.run_bind, StateT.run_bind, StateT.run_bind, ran]
      rfl]
    exact lost
  · have rest := second value last after holds
    unfold Ends at rest ⊢
    rwa [show ((action >>= next).run.run state).run tree =
      ((next value).run.run last).run after by
      rw [ExceptT.run_bind, StateT.run_bind, StateT.run_bind, ran]
      rfl]

/-- A look at the state in front of an action. -/
theorem Ends.look {next : TreeState α → OnTree α β}
    (rest : Ends (next state) state tree good bad) :
    Ends (get >>= next) state tree good bad :=
  rest

theorem Ends.change {edit : TreeState α → TreeState α}
    {next : PUnit → OnTree α β}
    (rest : Ends (next ⟨⟩) (edit state) tree good bad) :
    Ends (modify edit >>= next) state tree good bad :=
  rest

theorem Ends.put {changed : TreeState α}
    {good : PUnit → TreeState α → FileTree → Prop}
    (holds : good ⟨⟩ changed tree) : Ends (set changed) state tree good bad :=
  holds

theorem Ends.fail {failure : FileError} (loses : bad state tree) :
    Ends (throw failure : OnTree α β) state tree good bad :=
  loses

theorem Ends.onHost {operation : StateM FileTree (Except FileError β)}
    (does : Does operation tree (fun value after => good value state after)
        (bad state)) :
    Ends (JobAction.onHost operation) state tree good bad := by
  have ran : ((JobAction.onHost operation : OnTree α β).run.run state).run
      tree =
      (((operation.run tree).1, state), (operation.run tree).2) := rfl
  unfold Does at does
  unfold Ends
  rw [ran]
  split at does
  · rename_i found
    rw [found]
    exact does
  · rename_i found
    rw [found]
    exact does

theorem Ends.ran (operation : StateM FileTree (Except FileError β)) :
    Ends (JobAction.onHost operation) state tree
      (fun value last after => last = state ∧
          operation.run tree = (.ok value, after))
      fun _ _ => True := by
  refine Ends.onHost ?_
  unfold Does
  split
  · next found => exact ⟨rfl, found⟩
  · trivial

end Ends

end JobAction

/-- The state of a job with the given session, observer and written text, whose
output grows in a tree that is `base` otherwise. -/
structure JobState.Ready (base : FileTree) (target : Target (StateM FileTree))
    (session : Session) (observer : Observer α) (text : Text)
    (state : TreeState α) (tree : FileTree) : Prop where
  session_eq : state.session = session
  observer_eq : state.observer = observer
  text_eq : state.text = text
  target_eq : state.output.target = target
  writing : state.output.Writing base text.encode tree

/-- The state of a job for the target that failed in a tree that was `base`
otherwise. -/
structure JobState.Lost (base : FileTree) (target : Target (StateM FileTree))
    (state : TreeState α) (tree : FileTree) : Prop where
  target_eq : state.output.target = target
  broken : Output.Broken base target tree

namespace JobState.Ready

variable {α : Type} {base tree after : FileTree}
  {target : Target (StateM FileTree)}
  {session : Session} {observer : Observer α} {text : Text}
    {state : TreeState α}

theorem toExtends (ready : Ready base target session observer text state tree) :
    base.Extends tree :=
  ready.writing.toExtends

theorem ofAlike (ready : Ready base target session observer text state tree)
    (alike : tree.Alike after) :
    Ready base target session observer text state after :=
  ⟨ready.session_eq, ready.observer_eq, ready.text_eq, ready.target_eq,
    ready.writing.ofAlike alike⟩

theorem lost (ready : Ready base target session observer text state tree) :
    Lost base target state tree :=
  ⟨ready.target_eq, ready.target_eq ▸ ready.writing.broken⟩

end JobState.Ready

namespace JobAction

open FileTree JobState

variable {α : Type} {base tree : FileTree} {target : Target (StateM FileTree)}
  {session : Session} {observer : Observer α} {text : Text}
  {state : TreeState α}

private theorem write_ends
    (ready : Ready base target session observer text state tree)
    (added : Text) :
    Ends (write added) state tree
      (fun _ => Ready base target session observer (text ++ added))
      (Lost base target) := by
  obtain ⟨rfl, rfl, rfl, rfl, writing⟩ := ready
  have handed : Ends (onHost (state.output.write added.encode)) state tree
      (fun output last after => last = state ∧
        output.Writing base (state.text ++ added).encode after ∧
          output.target = state.output.target)
      (Lost base state.output.target) := by
    rw [Text.encode_append]
    exact Ends.onHost ((writing.does_write added.encode).imp (fun _ _ holds =>
      ⟨rfl, holds⟩)
      fun _ broken => ⟨rfl, broken⟩)
  refine Ends.look (handed.bind ?_)
  rintro output last after ⟨rfl, stillWriting, sameTarget⟩
  exact Ends.put ⟨rfl, rfl, by simp [JobState.text], sameTarget, stillWriting⟩

theorem writeAll_ends
    (ready : Ready base target session observer text state tree)
    (added : List Text) :
    Ends (writeAll added) state tree
      (fun _ => Ready base target session observer (text ++ added.flatten))
      (Lost base target) := by
  induction added generalizing text state tree with
  | nil => exact Ends.pure (by simpa using ready)
  | cons first others ih =>
      refine (write_ends ready first).bind fun _ last after stillReady => ?_
      simpa only [List.flatten_cons, List.append_assoc] using ih stillReady

theorem advance_ends
    (ready : Ready base target session observer text state tree)
    (step : Session → Session × List Text) :
    Ends (advance step) state tree
      (fun _ => Ready base target (step session).1 observer
          (text ++ (step session).2.flatten))
      (Lost base target) := by
  obtain ⟨rfl, rfl, rfl, rfl, writing⟩ := ready
  have moved : Ends (set { state with session := (step state.session).1 }) state
      tree
      (fun _ => Ready base state.output.target (step state.session).1
        state.observer state.text)
      (Lost base state.output.target) := Ends.put ⟨rfl, rfl, rfl, rfl, writing⟩
  exact Ends.look (moved.bind fun _ _ _ stillReady =>
    writeAll_ends stillReady _)

end JobAction

end SqlDump
