import SqlDump.Output
import SqlDump.Proofs.FileTree.Changes

/-!
# Writing an output

While an output is written, the tree holds what it held before and the draft.
What was handed on and what waits are together all that was written.  Committed,
the output stands at its path as a whole; given up, it leaves the tree as it
was.
-/

namespace SqlDump

namespace Target

variable {m : Type → Type} [Host m]

def destination : Target m → Destination
  | .file _ path => .file path
  | .standardOutput => .standardOutput
  | .nowhere => .nowhere

end Target

namespace Output

open FileTree

abbrev OnTree := Output (StateM FileTree)

variable {base tree : FileTree} {output : OnTree} {written : Bytes}

/-- The tree is `base`, and `written` was written to the output so far. -/
structure Writing (base : FileTree) (output : OnTree) (written : Bytes)
    (tree : FileTree) : Prop where
  size : output.size = written.length
  state :
    match output.target with
    | .file draft _ =>
        ∃ handed, Drafting base draft handed tree ∧
        written = handed ++ output.held
    | _ => base.Alike tree

/-- The tree is `base`, apart from what a broken output for the target left. -/
def Broken (base : FileTree) (target : Target (StateM FileTree))
    (tree : FileTree) : Prop :=
  match target with
  | .file draft _ => ∃ handed, Drafting base draft handed tree
  | _ => base.Alike tree

/-- The tree is `base`, with the content of an output at its destination. -/
def Delivered (base : FileTree) (destination : Destination) (content : Bytes)
    (tree : FileTree) : Prop :=
  match destination with
  | .file path => ∃ place, Published base path content place tree
  | _ => base.Alike tree

private theorem held_keep (output : OnTree) (bytes : Bytes) :
    (output.keep bytes).held = output.held ++ bytes := by
  simp [held, keep]

theorem Writing.broken (writing : output.Writing base written tree) :
    Broken base output.target tree := by
  obtain ⟨-, state⟩ := writing
  unfold Broken
  split at state
  · obtain ⟨handed, drafting, -⟩ := state
    exact ⟨handed, drafting⟩
  · exact state

theorem Writing.toExtends (writing : output.Writing base written tree) :
    base.Extends tree := by
  obtain ⟨-, state⟩ := writing
  split at state
  · obtain ⟨handed, drafting, -⟩ := state
    exact drafting.toExtends
  · exact state.toExtends

theorem Writing.ofAlike {after : FileTree}
    (writing : output.Writing base written tree) (alike : tree.Alike after) :
    output.Writing base written after := by
  obtain ⟨size, state⟩ := writing
  refine ⟨size, ?_⟩
  split at state
  · obtain ⟨handed, drafting, rfl⟩ := state
    exact ⟨handed, drafting.ofAlike alike, rfl⟩
  · exact state.trans alike

theorem does_create (destination : Destination) (tree : FileTree) :
    Does (create destination) tree
      (fun output after => ∃ base,
        tree.Grown base ∧ output.Writing base [] after ∧
        output.target.destination = destination)
      tree.Grown := by
  cases destination with
  | standardOutput => exact Does.ok ⟨tree, .refl tree, ⟨rfl, .refl tree⟩, rfl⟩
  | nowhere => exact Does.ok ⟨tree, .refl tree, ⟨rfl, .refl tree⟩, rfl⟩
  | file path =>
      refine (does_ensureDirectories (directoryOf path) tree).next
        (fun _ base grown => ?_)
        fun _ after grown => Does.error grown
      refine (does_createDraft (directoryOf path) base).next
        (fun draft after drafting => ?_)
        fun _ after alike => Does.error (grown.trans (.ofAlike alike))
      exact Does.ok ⟨base, grown, ⟨rfl, [], drafting, rfl⟩, rfl⟩

theorem writing_file_iff {draft : Place} {path : Text}
    (toFile : output.target = .file draft path) :
    output.Writing base written tree ↔
      output.size = written.length ∧
        ∃ handed, Drafting base draft handed tree ∧
        written = handed ++ output.held := by
  constructor
  · rintro ⟨size, state⟩
    exact ⟨size, by simpa only [toFile] using state⟩
  · rintro ⟨size, state⟩
    exact ⟨size, by simpa only [toFile] using state⟩

theorem Writing.keep (writing : output.Writing base written tree)
    (bytes : Bytes) {draft : Place} {path : Text}
    (toFile : output.target = .file draft path) :
    (output.keep bytes).Writing base (written ++ bytes) tree := by
  obtain ⟨size, handed, drafting, rfl⟩ := (writing_file_iff toFile).mp writing
  have sameTarget : (output.keep bytes).target = .file draft path := toFile
  refine (writing_file_iff sameTarget).mpr ⟨?_, handed, drafting, ?_⟩
  · rw [List.length_append, ← size]
    rfl
  · rw [held_keep, List.append_assoc]

theorem Writing.does_flush (writing : output.Writing base written tree) :
    Does output.flush tree
      (fun after left => after.Writing base written left ∧
        after.target = output.target ∧
        (∀ draft path, output.target = .file draft path → after.held = []))
      (Broken base output.target) := by
  obtain ⟨target, waiting, size⟩ := output
  obtain ⟨sized, state⟩ := writing
  cases target with
  | standardOutput => exact Does.ok ⟨⟨sized, state⟩, rfl, nofun⟩
  | nowhere => exact Does.ok ⟨⟨sized, state⟩, rfl, nofun⟩
  | file draft path =>
      obtain ⟨handed, drafting, rfl⟩ := state
      cases waiting with
      | nil =>
          exact Does.ok ⟨⟨sized, handed, drafting, rfl⟩, rfl, fun _ _ _ => rfl⟩
      | cons last others =>
          refine (drafting.does_append _).next (fun _ after appended => ?_)
            fun _ after broken => Does.error broken
          exact Does.ok ⟨⟨sized, _, appended, (List.append_nil _).symm⟩, rfl,
            fun _ _ _ => rfl⟩

theorem Writing.does_write (writing : output.Writing base written tree)
    (bytes : Bytes) :
    Does (output.write bytes) tree
      (fun after left => after.Writing base (written ++ bytes) left ∧
        after.target = output.target)
      (Broken base output.target) := by
  have counted : output.size + bytes.length = (written ++ bytes).length := by
    rw [List.length_append, writing.size]
  obtain ⟨target, waiting, size⟩ := output
  cases target with
  | standardOutput => exact Does.ok ⟨⟨counted, writing.state⟩, rfl⟩
  | nowhere => exact Does.ok ⟨⟨counted, writing.state⟩, rfl⟩
  | file draft path =>
      unfold write
      dsimp only
      split
      · exact Does.ok ⟨writing.keep bytes rfl, rfl⟩
      · refine writing.does_flush.next ?_ fun _ _ broken => Does.error broken
        rintro flushed between ⟨flushedWriting, sameTarget, nothing⟩
        dsimp only
        split
        · exact Does.ok ⟨flushedWriting.keep bytes sameTarget, sameTarget⟩
        · obtain ⟨sized, handed, drafting, rfl⟩ :=
            (writing_file_iff sameTarget).mp flushedWriting
          refine (drafting.does_append bytes).next (fun _ after appended => ?_)
            fun _ after broken => Does.error broken
          let last : OnTree :=
            { flushed with size := flushed.size + bytes.length }
          have lastTarget : last.target = .file draft path := sameTarget
          have nothingHeld : flushed.held = [] := nothing draft path rfl
          refine Does.ok ⟨(writing_file_iff lastTarget).mpr ⟨?_, _, appended,
            ?_⟩, lastTarget⟩
          · rw [List.length_append, ← sized]
          · rw [show last.held = flushed.held from rfl, nothingHeld,
              List.append_nil, List.append_nil]

theorem Writing.does_commit (writing : output.Writing base written tree) :
    Does output.commit tree
      (fun size after => size = written.length ∧
        Delivered base output.target.destination written after)
      (Broken base output.target) := by
  refine writing.does_flush.next ?_ fun _ _ broken => Does.error broken
  rintro ⟨target, waiting, size⟩ between ⟨⟨sized, state⟩, sameTarget, nothing⟩
  rw [← sameTarget] at nothing ⊢
  cases target with
  | standardOutput => exact Does.ok ⟨sized, state⟩
  | nowhere => exact Does.ok ⟨sized, state⟩
  | file draft path =>
      obtain ⟨handed, drafting, rfl⟩ := state
      rw [nothing draft path rfl, List.append_nil] at sized ⊢
      refine drafting.does_sync.next (fun _ synced stillDrafting => ?_)
        fun _ after broken => Does.error ⟨handed, broken⟩
      refine (stillDrafting.does_publish path).next (fun _ after published =>
        ?_)
        fun _ after broken => Does.error ⟨handed, broken⟩
      exact Does.ok ⟨sized, published⟩

theorem discard_broken (broken : Broken base output.target tree) :
    base.Alike (output.discard.run tree).2 := by
  obtain ⟨target, waiting, size⟩ := output
  cases target with
  | standardOutput => exact broken
  | nowhere => exact broken
  | file draft path =>
      obtain ⟨handed, drafting⟩ := broken
      exact drafting.erase

end Output

end SqlDump
