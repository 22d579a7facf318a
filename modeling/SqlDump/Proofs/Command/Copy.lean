import SqlDump.Command.Clean
import SqlDump.Proofs.Job.Whole

/-!
# Copies of the inputs of a batch

A batch cleans one input after the other into a directory.  The name of a copy
is the name of its input, without the directories in front of it and without the
ending of a compressed file, so inputs may share a name.  Then the last one of
them has the name to itself.
-/

namespace SqlDump

open FileTree

theorem Compression.mem_of_mem_stripExtension {format : Compression}
    {name : Text} {character : Char}
    (member : character ∈ format.stripExtension name) : character ∈ name := by
  unfold stripExtension at member
  split at member
  · exact member
  · dsimp only at member
    split at member
    · exact List.mem_of_mem_take member
    · exact member

namespace Inputs

/-- The name of the copy of an input. -/
def outputName (index : Nat) (input : Text) : Text :=
  match Path.fileName? input with
  | some name => (Compression.ofPath input).stripExtension name
  | none => "output_".toList ++ Text.ofNat index ++ ".sql".toList

theorem outputPath_eq_join (directory : Text) (index : Nat) (input : Text) :
    outputPath directory index input =
      Path.join directory (outputName index input) := by
  unfold outputPath outputName
  cases Path.fileName? input <;> rfl

private theorem not_mem_ofNat (number : Nat) : '/' ∉ Text.ofNat number := by
  intro member
  rw [Text.ofNat, Nat.repr, String.toList_ofList] at member
  exact absurd (Nat.isDigit_of_mem_toDigits (by decide) (by decide) member)
    (by decide)

theorem not_mem_outputName (index : Nat) (input : Text) :
    '/' ∉ outputName index input := by
  unfold outputName
  split
  · rename_i name found
    exact fun member => Path.not_mem_fileName? found
      (Compression.mem_of_mem_stripExtension member)
  · have digits := not_mem_ofNat index
    simp [digits]

private theorem outputPath_eq_iff (directory : Text) (index otherIndex : Nat)
    (input other : Text) :
    outputPath directory index input = outputPath directory otherIndex other ↔
      outputName index input = outputName otherIndex other := by
  rw [outputPath_eq_join, outputPath_eq_join]
  constructor
  · intro same
    have parts := congrArg Path.splitLast same
    rw [Path.splitLast_join _ (not_mem_outputName _ _),
      Path.splitLast_join _ (not_mem_outputName _ _)]
      at parts
    exact (Prod.mk.inj parts).2
  · intro same
    rw [same]

end Inputs

/-- The cleaned copy of an input of a batch. -/
structure Copy where
  input : Text
  index : Nat
  text : Text
deriving DecidableEq, Repr

namespace Copy

def name (copy : Copy) : Text :=
  Inputs.outputName copy.index copy.input

def path (copy : Copy) (directory : Text) : Text :=
  Inputs.outputPath directory copy.index copy.input

def job (copy : Copy) (settings : Settings) (directory : Text) : Job :=
  settings.job copy.input (some (copy.path directory)) false

/-- The copy is in the directory. -/
def Kept (copy : Copy) (directory : Text) (tree : FileTree) : Prop :=
  tree.content (copy.path directory) = .ok copy.text.encode

end Copy

section

variable (codec : Codec) (settings : Settings) (directory : Text)

/-- The job of a copy succeeds in a tree and leaves the next one. -/
structure Copy.Made (copy : Copy) (tree next : FileTree) : Prop where
  succeeds : ∃ stats,
    ((copy.job settings directory).runOn codec (Job.never (α := Rat))
      tree).1.outcome = .ok stats
  text_eq : ((copy.job settings directory).runOn codec (Job.never (α := Rat))
    tree).1.text = copy.text
  next_eq : ((copy.job settings directory).runOn codec (Job.never (α := Rat))
    tree).2 = next

/-- The copies are made one after the other. -/
inductive Batch : FileTree → List Copy → FileTree → Prop where
  | nil (tree : FileTree) : Batch tree [] tree
  | cons {tree next after : FileTree} {copy : Copy} {copies : List Copy}
      (made : copy.Made codec settings directory tree next)
      (rest : Batch next copies after) :
      Batch tree (copy :: copies) after

end

variable {codec : Codec} {settings : Settings} {directory : Text}
  {tree next after : FileTree} {copies : List Copy}

namespace Copy

variable {copy : Copy}

theorem path_eq_join (copy : Copy) (directory : Text) :
    copy.path directory = Path.join directory copy.name :=
  Inputs.outputPath_eq_join directory copy.index copy.input

theorem path_eq_iff {first second : Copy} :
    first.path directory = second.path directory ↔ first.name = second.name :=
  Inputs.outputPath_eq_iff directory _ _ _ _

theorem not_mem_name (copy : Copy) : '/' ∉ copy.name :=
  Inputs.not_mem_outputName copy.index copy.input

theorem Made.gained (made : copy.Made codec settings directory tree next) :
    tree.Gained (Path.join directory copy.name) copy.text.encode next := by
  obtain ⟨⟨stats, succeeds⟩, sameText, rfl⟩ := made
  rw [← copy.path_eq_join, ← sameText]
  exact Job.gained_of_runOn rfl succeeds

theorem Made.cleans {content : Bytes}
    (made : copy.Made codec settings directory tree next)
    (stored : tree.content copy.input = .ok content) :
    (copy.job settings directory).Cleans codec tree content copy.text := by
  obtain ⟨⟨stats, succeeds⟩, sameText, -⟩ := made
  rw [← sameText]
  exact Job.cleans_of_runOn stored succeeds

end Copy

namespace Batch

theorem spares (batch : Batch codec settings directory tree copies after) :
    tree.Spares after fun place => ¬ after.InDirectory directory place := by
  induction batch with
  | nil tree => exact .refl tree _
  | cons made rest ih =>
      exact (made.gained.spares_outside (Copy.not_mem_name _) ih).trans ih

/-- A copy was made in a tree in which nothing but earlier copies had been
changed. -/
theorem made (batch : Batch codec settings directory tree copies after)
    {copy : Copy} (member : copy ∈ copies) :
    ∃ met next,
      tree.Spares met (fun place => ¬ after.InDirectory directory place) ∧
      copy.Made codec settings directory met next := by
  induction batch with
  | nil tree => cases member
  | @cons tree next after first copies made rest ih =>
      rcases List.mem_cons.mp member with rfl | later
      · exact ⟨tree, next, .refl tree _, made⟩
      · obtain ⟨met, last, spared, madeLater⟩ := ih later
        have before := made.gained.spares_outside first.not_mem_name rest.spares
        exact ⟨met, last, before.trans spared, madeLater⟩

/-- A file in the directory stands beside copies with other names. -/
theorem content_of_ne (batch : Batch codec settings directory tree copies after)
    {name : Text} {bytes : Bytes} (noSlash : '/' ∉ name)
    (named : pointsElsewhere name = false)
    (others : ∀ copy ∈ copies, copy.name ≠ name)
    (found : tree.content (Path.join directory name) = .ok bytes) :
    after.content (Path.join directory name) = .ok bytes := by
  induction batch with
  | nil tree => exact found
  | @cons tree next after first copies made rest ih =>
      refine ih (fun copy member =>
        others copy (List.mem_cons_of_mem _ member)) ?_
      have different : name ≠ first.name :=
        (others first List.mem_cons_self).symm
      exact made.gained.content_of_ne different noSlash first.not_mem_name named
        found

theorem kept_of_last (batch : Batch codec settings directory tree copies after)
    {front back : List Copy} {copy : Copy}
    (split : copies = front ++ copy :: back)
    (last : ∀ later ∈ back, later.path directory ≠ copy.path directory) :
    copy.Kept directory after := by
  induction batch generalizing front with
  | nil tree => simp at split
  | @cons tree next after first copies made rest ih =>
      cases front with
      | nil =>
          obtain ⟨rfl, rfl⟩ := List.cons.inj split
          have gained := made.gained
          have named := gained.named
          rw [Path.splitLast_join _ first.not_mem_name] at named
          rw [Copy.Kept, first.path_eq_join]
          exact rest.content_of_ne first.not_mem_name named
            (fun later member same =>
              last later member (Copy.path_eq_iff.mpr same)) gained.content_eq
      | cons head front => exact ih (List.cons.inj split).2

private theorem exists_last {path : Text}
    (found : ∃ copy ∈ copies, copy.path directory = path) :
    ∃ front last back, copies = front ++ last :: back ∧
      last.path directory = path ∧
      ∀ later ∈ back, later.path directory ≠ path := by
  induction copies with
  | nil => simp at found
  | cons first copies ih =>
      by_cases later : ∃ copy ∈ copies, copy.path directory = path
      · obtain ⟨front, last, back, rfl, same, others⟩ := ih later
        exact ⟨first :: front, last, back, rfl, same, others⟩
      · obtain ⟨copy, member, same⟩ := found
        rcases List.mem_cons.mp member with rfl | inside
        · exact ⟨[], copy, copies, rfl, same,
            fun other member equal => later ⟨other, member, equal⟩⟩
        · exact absurd ⟨copy, inside, same⟩ later

/-- All copies are kept if and only if copies with the same path have the same
text. -/
theorem kept_iff (batch : Batch codec settings directory tree copies after) :
    (∀ copy ∈ copies, copy.Kept directory after) ↔
      ∀ first ∈ copies, ∀ second ∈ copies, first.path directory =
        second.path directory →
        first.text = second.text := by
  constructor
  · intro kept first firstMember second secondMember samePath
    have firstKept := kept first firstMember
    have secondKept := kept second secondMember
    rw [Copy.Kept] at firstKept secondKept
    rw [samePath, secondKept] at firstKept
    have sameText := congrArg Utf8.decodeLossy (Except.ok.inj firstKept)
    rwa [Utf8.decodeLossy_encode, Utf8.decodeLossy_encode, eq_comm] at sameText
  · intro same copy member
    obtain ⟨front, last, back, split, samePath, others⟩ :=
      exists_last ⟨copy, member, rfl⟩
    have lastMember : last ∈ copies := by simp [split]
    have kept := batch.kept_of_last split fun later member =>
      samePath ▸ others later member
    rwa [Copy.Kept, samePath, same last lastMember copy member samePath] at kept

end Batch

end SqlDump
