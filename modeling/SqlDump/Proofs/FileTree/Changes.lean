import SqlDump.Proofs.FileTree.Paths

/-!
# What the operations of a host do to a tree

An operation that only looks leaves the tree as it is, and so does one that
fails.  A draft is the only thing that tells a tree from the one it was made in:
removed it leaves the old tree, and published it stands at the place of its
path.
-/

namespace SqlDump

namespace FileTree

variable {before after base tree : FileTree} {draft place : Place}

theorem run_bind (action : StateM FileTree β) (next : β → StateM FileTree γ)
    (tree : FileTree) :
    (action >>= next).run tree = (next (action.run tree).1).run
      (action.run tree).2 := rfl

theorem run_pure (value : β) (tree : FileTree) :
    (pure value : StateM FileTree β).run tree = (value, tree) := rfl

/-- What comes of an operation on a tree. -/
def Does (action : StateM FileTree (Except FileError β)) (tree : FileTree)
    (good : β → FileTree → Prop) (bad : FileTree → Prop) : Prop :=
  match action.run tree with
  | (.ok value, after) => good value after
  | (.error _, after) => bad after

section Does

variable {action : StateM FileTree (Except FileError β)}
  {good mid : β → FileTree → Prop} {bad lost : FileTree → Prop}

theorem Does.imp (does : Does action tree mid lost)
    (holds : ∀ value after, mid value after → good value after)
    (loses : ∀ after, lost after → bad after) : Does action tree good bad := by
  unfold Does at does ⊢
  split at does
  · exact holds _ _ does
  · exact loses _ does

theorem Does.cases (does : Does action tree good bad) :
    (∃ failure after, action.run tree = (.error failure, after) ∧ bad after) ∨
      ∃ value after, action.run tree = (.ok value, after) ∧
      good value after := by
  unfold Does at does
  split at does
  · exact .inr ⟨_, _, ‹_›, does⟩
  · exact .inl ⟨_, _, ‹_›, does⟩

/-- One operation after the other, where the second one looks at what came of
the first. -/
theorem Does.next
    {next : Except FileError β → StateM FileTree (Except FileError γ)}
    {good : γ → FileTree → Prop} (first : Does action tree mid lost)
    (second : ∀ value after,
      mid value after → Does (next (.ok value)) after good bad)
    (failed : ∀ failure after,
      lost after → Does (next (.error failure)) after good bad) :
    Does (action >>= next) tree good bad := by
  rcases first.cases with
      ⟨failure, between, ran, loses⟩ | ⟨value, between, ran, holds⟩
  · have rest := failed failure between loses
    unfold Does at rest ⊢
    rwa [run_bind, ran]
  · have rest := second value between holds
    unfold Does at rest ⊢
    rwa [run_bind, ran]

theorem Does.peek {look : StateM FileTree γ}
    {next : γ → StateM FileTree (Except FileError β)}
    (quiet : (look.run tree).2 = tree)
    (rest : Does (next (look.run tree).1) tree good bad) :
    Does (look >>= next) tree good bad := by
  unfold Does at rest ⊢
  rw [run_bind, quiet]
  exact rest

theorem Does.ok {value : β} (holds : good value tree) :
    Does (pure (.ok value)) tree good bad :=
  holds

theorem Does.error {failure : FileError} (loses : bad tree) :
    Does (pure (.error failure)) tree good bad :=
  loses

end Does

theorem alike_nextFault (tree : FileTree) : tree.Alike tree.nextFault.2 :=
  ⟨fun place => by cases place <;> rfl, rfl⟩

/-- The tree without the faults that lie ahead. -/
def calm (tree : FileTree) : FileTree :=
  { tree with faults := [] }

theorem alike_calm (tree : FileTree) : tree.Alike tree.calm :=
  ⟨fun place => by cases place <;> rfl, rfl⟩

/-- What an operation answers about the files in a tree if nothing goes
wrong. -/
def answer (tree : FileTree) (action : StateM FileTree β) : β :=
  (action.run tree.calm).1

theorem answer_of_calm (same : after.calm = before.calm)
    (action : StateM FileTree β) :
    after.answer action = before.answer action := by
  rw [answer, same, answer]

theorem does_attempt (action : FileTree → Except FileError (β × FileTree))
    (tree : FileTree) :
    Does (attempt action) tree
      (fun value after => ∃ behind,
        tree.Alike behind ∧ action behind = .ok (value, after))
      tree.Alike := by
  have behind := tree.alike_nextFault
  unfold Does
  simp only [attempt, StateT.run]
  cases tree.nextFault.1 with
  | some fault => exact behind
  | none =>
      cases done : action tree.nextFault.2 with
      | error failure => exact behind
      | ok result => exact ⟨tree.nextFault.2, behind, done⟩

theorem does_inspect (action : FileTree → Except FileError β)
    (tree : FileTree) :
    Does (inspect action) tree
      (fun value after => tree.Alike after ∧ action after = .ok value)
        tree.Alike := by
  refine (does_attempt _ tree).imp ?_ fun _ alike => alike
  rintro value after ⟨behind, alike, done⟩
  cases found : action behind with
  | error failure => simp [found, Except.map] at done
  | ok inside =>
      simp only [found, Except.map, Except.ok.injEq, Prod.mk.injEq] at done
      obtain ⟨rfl, rfl⟩ := done
      exact ⟨alike, found⟩

theorem does_change (edit : FileTree → Except FileError FileTree)
    (tree : FileTree) :
    Does (change edit) tree
      (fun _ after => ∃ behind, tree.Alike behind ∧ edit behind = .ok after)
        tree.Alike := by
  refine (does_attempt _ tree).imp ?_ fun _ alike => alike
  rintro ⟨⟩ after ⟨behind, alike, done⟩
  refine ⟨behind, alike, ?_⟩
  cases edited : edit behind with
  | error failure => simp [edited, Except.map] at done
  | ok changed =>
      simp only [edited, Except.map, Except.ok.injEq, Prod.mk.injEq] at done
      rw [done.2]

theorem does_size (path : Text) (tree : FileTree) :
    Does (Host.size path) tree
      (fun size after => tree.Alike after ∧
        ∀ bytes, tree.content path = .ok bytes → size = bytes.length)
          tree.Alike := by
  refine (does_inspect _ tree).imp ?_ fun _ alike => alike
  rintro size after ⟨alike, found⟩
  refine ⟨alike, fun bytes content => ?_⟩
  rw [← alike.content] at content
  obtain ⟨node, stands, inside⟩ := bind_eq_ok.mp content
  rw [stands] at found
  cases node with
  | directory => cases inside
  | file standing => rw [← Except.ok.inj found, Except.ok.inj inside]

theorem does_content (path : Text) (tree : FileTree) :
    Does (Host.content path) tree
      (fun bytes after => tree.Alike after ∧ tree.content path = .ok bytes)
        tree.Alike := by
  refine (does_inspect _ tree).imp ?_ fun _ alike => alike
  rintro bytes after ⟨alike, found⟩
  exact ⟨alike, (alike.content path).symm.trans found⟩

theorem isFile_run (path : Text) (tree : FileTree) :
    (Host.isFile path : StateM FileTree Bool).run tree =
      ((tree.find path).toOption.map (·.kind) == some .file, tree) := rfl

theorem content_run_calm (path : Text) (tree : FileTree) :
    (Host.content path : StateM FileTree (Except FileError Bytes)).run
      tree.calm =
      (tree.content path, tree.calm) := by
  have quiet : tree.calm.nextFault = (none, tree.calm) := rfl
  simp only [Host.content, inspect, attempt, StateT.run, quiet,
    tree.alike_calm.content]
  cases tree.content path <;> rfl

theorem stored_run (path : Text) (tree : FileTree) :
    ∃ fault, (Host.stored path : StateM FileTree StoredFile).run tree =
      (tree.storedWith path fault, tree.nextFault.2) := by
  refine ⟨tree.nextFault.1, ?_⟩
  have same : tree.nextFault.2.storedWith path tree.nextFault.1 =
      tree.storedWith path tree.nextFault.1 := by
    simp only [storedWith, tree.alike_nextFault.content]
  rw [← same]
  rfl

private theorem grown_set_directory (free : tree.node? place = none) :
    tree.Grown (tree.set place .directory) := by
  refine ⟨fun other => ?_, rfl⟩
  rw [node?_set _ _ (named_of_free free)]
  by_cases same : other = place
  · exact .inr ⟨same ▸ free, if_pos same⟩
  · exact .inl (if_neg same)

private theorem makeDirectory_eq_ok {path : Text}
    (made : tree.makeDirectory path = .ok after) :
    ∃ place, tree.node? place = none ∧ after = tree.set place .directory := by
  obtain ⟨⟨here, name⟩, -, made⟩ := bind_eq_ok.mp made
  dsimp only at made
  split at made
  · cases made
  · obtain ⟨⟨⟩, -, made⟩ := bind_eq_ok.mp made
    cases stands : tree.node? (here ++ [name]) with
    | some node =>
        rw [stands] at made
        cases made
    | none =>
        rw [stands] at made
        exact ⟨here ++ [name], stands, (Except.ok.inj made).symm⟩

private theorem does_makeDirectory (path : Text) (tree : FileTree) :
    Does (Host.makeDirectory path) tree (fun _ => tree.Grown) tree.Grown := by
  refine (does_change _ tree).imp ?_ fun _ alike => Grown.ofAlike alike
  rintro ⟨⟩ after ⟨behind, alike, made⟩
  obtain ⟨place, free, rfl⟩ := makeDirectory_eq_ok made
  exact (Grown.ofAlike alike).trans (grown_set_directory free)

theorem does_ensureDirectory (path : Text) (tree : FileTree) :
    Does (Host.ensureDirectory path) tree (fun _ => tree.Grown) tree.Grown := by
  refine (does_makeDirectory path tree).next (fun _ after grown => grown) ?_
  intro failure after grown
  refine Does.peek rfl ?_
  split
  · exact Does.ok grown
  · exact Does.error grown

private theorem does_ensureDirectoriesUpTo (fuel : Nat) (path : Text)
    (tree : FileTree) :
    Does (Host.ensureDirectoriesUpTo fuel path) tree (fun _ => tree.Grown)
      tree.Grown := by
  induction fuel generalizing path tree with
  | zero => exact Does.ok (.refl tree)
  | succ fuel ih =>
      unfold Host.ensureDirectoriesUpTo
      split
      · exact Does.ok (.refl tree)
      · exact Does.ok (.refl tree)
      · refine (does_ensureDirectory _ tree).next (fun _ after grown =>
          Does.ok grown) ?_
        intro failure after grown
        cases failure with
        | notFound =>
            refine (ih _ after).next (fun _ made more => ?_)
              fun _ made more => Does.error (grown.trans more)
            exact (does_ensureDirectory _ made).imp
              (fun _ last most => (grown.trans more).trans most)
              fun last most => (grown.trans more).trans most
        | _ => exact Does.error grown

theorem does_ensureDirectories (path : Text) (tree : FileTree) :
    Does (Host.ensureDirectories path) tree (fun _ => tree.Grown) tree.Grown :=
  does_ensureDirectoriesUpTo _ path tree

/-- The tree is `base` and a draft with the given content. -/
structure Drafting (base : FileTree) (draft : Place) (content : Bytes)
    (tree : FileTree) : Prop where
  free : base.node? draft = none
  drafted : tree.node? draft = some (.file content)
  others : ∀ place, place ≠ draft → tree.node? place = base.node? place
  current : tree.current = base.current

/-- The tree is `base` and the given content at the place that a path leads to,
where there was no directory. -/
structure Published (base : FileTree) (path : Text) (content : Bytes)
    (place : Place) (tree : FileTree) : Prop where
  named : pointsElsewhere (Path.splitLast path).2 = false
  located : tree.locate path = .ok place
  published : tree.node? place = some (.file content)
  replaced : base.node? place ≠ some .directory
  others : ∀ other, other ≠ place → tree.node? other = base.node? other
  current : tree.current = base.current

private theorem freeName?_spec {here : Place} {tries number : Nat} {name : Text}
    (found : tree.freeName? here tries number = some name) :
    tree.node? (here ++ [name]) = none := by
  induction tries generalizing number with
  | zero => cases found
  | succ tries ih =>
      unfold freeName? at found
      split at found
      · rename_i free
        rw [← Option.some.inj found]
        exact Option.isNone_iff_eq_none.mp free
      · exact ih found

private theorem createDraft_eq_ok {directory : Text}
    (made : tree.createDraft directory = .ok (draft, after)) :
    tree.node? draft = none ∧ after = tree.set draft (.file []) := by
  obtain ⟨⟨here, name⟩, -, made⟩ := bind_eq_ok.mp made
  dsimp only at made
  split at made
  · rename_i free
    obtain ⟨rfl, rfl⟩ := Prod.mk.inj (Except.ok.inj made)
    exact ⟨freeName?_spec free, rfl⟩
  · cases made

theorem does_createDraft (directory : Text) (tree : FileTree) :
    Does (Host.createDraft directory) tree (fun draft after =>
      Drafting tree draft [] after)
      tree.Alike := by
  refine (does_attempt _ tree).imp ?_ fun _ alike => alike
  rintro draft after ⟨behind, alike, made⟩
  obtain ⟨unused, rfl⟩ := createDraft_eq_ok made
  refine ⟨(alike.nodes _).symm.trans unused, ?_, fun place other => ?_,
    alike.current⟩
  · rw [node?_set _ _ (named_of_free unused), if_pos rfl]
  · rw [node?_set _ _ (named_of_free unused), if_neg other, alike.nodes]

private theorem move_eq_ok {path : Text}
    (moved : tree.move draft path = .ok after) :
    ∃ place content, pointsElsewhere (Path.splitLast path).2 = false ∧
      tree.locate path = .ok place ∧ place ≠ [] ∧
        tree.node? place ≠ some .directory ∧
      tree.node? draft = some (.file content) ∧
      after = (tree.erase draft).set place (.file content) := by
  obtain ⟨⟨here, name⟩, parent, moved⟩ := bind_eq_ok.mp moved
  dsimp only at moved
  split at moved
  · cases moved
  · rename_i named
    obtain ⟨⟨⟩, fits, moved⟩ := bind_eq_ok.mp moved
    split at moved
    · cases moved
    · rename_i noSlash
      rw [Bool.not_eq_true] at named noSlash
      have located := locate_of_locateParent parent named fits noSlash
      obtain ⟨-, -, -, -, rfl⟩ := locateParent_eq_ok parent noSlash
      split at moved
      · cases moved
      · rename_i content drafted noDirectory
        exact ⟨_, content, named, located, by simp, noDirectory, drafted,
          (Except.ok.inj moved).symm⟩
      · cases moved

namespace Drafting

variable {content : Bytes}

theorem toExtends (drafting : Drafting base draft content tree) :
    base.Extends tree := by
  refine ⟨fun place node found => ?_, drafting.current⟩
  rw [drafting.others place fun same => ?_, found]
  rw [same, drafting.free] at found
  cases found

theorem ofAlike (drafting : Drafting base draft content tree)
    (alike : tree.Alike after) :
    Drafting base draft content after :=
  ⟨drafting.free, (alike.nodes _).trans drafting.drafted,
    fun place other => (alike.nodes place).trans (drafting.others place other),
    alike.current.trans drafting.current⟩

theorem append (drafting : Drafting base draft content tree) (bytes : Bytes) :
    Drafting base draft (content ++ bytes) (tree.append draft bytes) := by
  have named := named_of_free drafting.free
  simp only [FileTree.append, drafting.drafted]
  refine ⟨drafting.free, ?_, fun place other => ?_, drafting.current⟩
  · rw [node?_set _ _ named, if_pos rfl]
  · rw [node?_set _ _ named, if_neg other]
    exact drafting.others place other

theorem does_append (drafting : Drafting base draft content tree)
    (bytes : Bytes) :
    Does (Host.append (m := StateM FileTree) draft bytes) tree
      (fun _ after => Drafting base draft (content ++ bytes) after)
      (fun after => ∃ handed, Drafting base draft handed after) := by
  have behind := drafting.ofAlike tree.alike_nextFault
  unfold Does
  simp only [Host.append, StateT.run]
  cases tree.nextFault.1 with
  | some fault => exact ⟨_, behind.append (bytes.take fault.done)⟩
  | none => exact behind.append bytes

theorem does_sync (drafting : Drafting base draft content tree) :
    Does (Host.sync (m := StateM FileTree) draft) tree
      (fun _ after => Drafting base draft content after)
      (fun after => Drafting base draft content after) := by
  refine (does_change _ tree).imp ?_ fun _ alike => drafting.ofAlike alike
  rintro ⟨⟩ after ⟨behind, alike, same⟩
  cases same
  exact drafting.ofAlike alike

theorem erase (drafting : Drafting base draft content tree) :
    base.Alike (tree.erase draft) := by
  refine ⟨fun place => ?_, drafting.current⟩
  rw [node?_erase _ (named_of_free drafting.free)]
  by_cases same : place = draft
  · rw [if_pos same, same, drafting.free]
  · rw [if_neg same, drafting.others place same]

private theorem published_set {path : Text} {place : Place}
    (drafting : Drafting base draft content tree)
    (pathNamed : pointsElsewhere (Path.splitLast path).2 = false)
    (located : tree.locate path = .ok place) (named : place ≠ [])
    (target : tree.node? place ≠ some .directory) :
    Published base path content place
      ((tree.erase draft).set place (.file content)) := by
  have nodes (other : Place) :
      ((tree.erase draft).set place (.file content)).node? other =
        if other = place then some (.file content) else base.node? other := by
    rw [node?_set _ _ named, drafting.erase.nodes]
  have replaced : base.node? place ≠ some .directory := fun directory =>
    target (drafting.toExtends.nodes _ _ directory)
  refine ⟨pathNamed, locate_eq_ok ?_ ?_ located, ?_, replaced, ?_,
    drafting.current⟩
  · -- The walk to the place meets directories only, and none of them was moved.
    intro other directory
    have notPlace : other ≠ place := fun same => target (same ▸ directory)
    have notDraft : other ≠ draft := by
      rintro rfl
      rw [drafting.drafted] at directory
      cases directory
    rw [nodes, if_neg notPlace, ← drafting.others other notDraft, directory]
  · rfl
  · rw [nodes, if_pos rfl]
  · intro other different
    rw [nodes, if_neg different]

theorem move {path : Text} (drafting : Drafting base draft content tree)
    (moved : tree.move draft path = .ok after) :
    ∃ place, Published base path content place after := by
  obtain ⟨place, moving, pathNamed, located, named, target, drafted, rfl⟩ :=
    move_eq_ok moved
  obtain rfl : content = moving := by
    rw [drafting.drafted] at drafted
    exact FileNode.file.inj (Option.some.inj drafted)
  exact ⟨place, drafting.published_set pathNamed located named target⟩

theorem does_publish (drafting : Drafting base draft content tree)
    (path : Text) :
    Does (Host.publish (m := StateM FileTree) draft path) tree
      (fun _ after => ∃ place, Published base path content place after)
      (fun after => Drafting base draft content after) := by
  refine (does_change _ tree).imp ?_ fun _ alike => drafting.ofAlike alike
  rintro ⟨⟩ after ⟨behind, alike, moved⟩
  exact (drafting.ofAlike alike).move moved

end Drafting

namespace Published

variable {path : Text} {content : Bytes}

theorem file?_of_ne (published : Published base path content place tree)
    {other : Place} (different : other ≠ place) :
    tree.file? other = base.file? other := by
  simp only [FileTree.file?, published.others other different]

theorem file?_place (published : Published base path content place tree) :
    tree.file? place = some content := by
  simp only [FileTree.file?, published.published]

theorem content_eq (published : Published base path content place tree) :
    tree.content path = .ok content :=
  content_eq_ok.mpr ⟨place, published.located, published.file?_place⟩

/-- Every directory is still there. -/
theorem directories (published : Published base path content place tree)
    (other : Place) (directory : base.node? other = some .directory) :
    tree.node? other = some .directory := by
  rw [published.others other fun same => published.replaced (same ▸ directory),
    directory]

end Published

end FileTree

end SqlDump
