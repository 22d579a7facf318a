import SqlDump.Glob
import SqlDump.Proofs.FileTree.Changes

/-!
# What a pattern names

A search for the files that a pattern names only looks around, and finds nothing
but regular files.
-/

namespace SqlDump

namespace FileTree

/-- The action leaves the tree as it is, and no fault changes what it
answers. -/
def Looks (action : StateM FileTree β) : Prop :=
  ∀ tree, action.run tree = (tree.answer action, tree)

namespace Looks

theorem pure (value : β) : Looks (pure value) :=
  fun _ => rfl

theorem bind {action : StateM FileTree β} {next : β → StateM FileTree γ}
    (looks : Looks action) (rest : ∀ value, Looks (next value)) :
    Looks (action >>= next) := by
  intro tree
  have calm : tree.calm.answer action = tree.answer action := rfl
  unfold answer
  rw [run_bind, run_bind, looks tree, looks tree.calm, calm]
  exact rest _ tree

theorem ite {first second : StateM FileTree β} {condition : Prop}
    [Decidable condition] (looks : Looks first) (other : Looks second) :
    Looks (if condition then first else second) := by
  split
  · exact looks
  · exact other

theorem mapM {action : β → StateM FileTree γ}
    (looks : ∀ value, Looks (action value)) (values : List β) :
    Looks (values.mapM action) := by
  induction values with
  | nil => exact pure []
  | cons value values ih =>
      rw [List.mapM_cons]
      exact (looks value).bind fun _ => ih.bind fun _ => pure _

private theorem run_filterAuxM {action : β → StateM FileTree Bool}
    (looks : ∀ value, Looks (action value)) (values kept : List β)
    (tree : FileTree) :
    (values.filterAuxM action kept).run tree =
      ((values.filter fun value => tree.answer (action value)).reverse ++ kept,
        tree) := by
  induction values generalizing kept with
  | nil => rfl
  | cons value values ih =>
      rw [List.filterAuxM, run_bind, looks value tree, ih, List.filter_cons]
      cases tree.answer (action value) <;> simp

theorem run_filterM {action : β → StateM FileTree Bool}
    (looks : ∀ value, Looks (action value)) (values : List β)
    (tree : FileTree) :
    (values.filterM action).run tree =
      (values.filter fun value => tree.answer (action value), tree) := by
  rw [List.filterM, run_bind, run_filterAuxM looks, run_pure]
  simp

theorem filterM {action : β → StateM FileTree Bool}
    (looks : ∀ value, Looks (action value)) (values : List β) :
    Looks (values.filterM action) := by
  intro tree
  unfold answer
  rw [run_filterM looks, run_filterM looks]
  rfl

theorem kind? (path : Text) :
    Looks (Host.kind? path : StateM FileTree (Option FileKind)) := by
  intro tree
  unfold answer
  simp only [Host.kind?, StateT.run, tree.alike_calm.find]

theorem names (path : Text) :
    Looks (Host.names path : StateM FileTree (List Text)) := by
  intro tree
  unfold answer
  simp only [Host.names, StateT.run, FileTree.names, tree.alike_calm.locate]
  rfl

theorem isFile (path : Text) :
    Looks (Host.isFile path : StateM FileTree Bool) :=
  (kind? path).bind fun _ => pure _

theorem isDirectory (path : Text) :
    Looks (Host.isDirectory path : StateM FileTree Bool) :=
  (kind? path).bind fun _ => pure _

theorem pathExists (path : Text) :
    Looks (Host.pathExists path : StateM FileTree Bool) :=
  (kind? path).bind fun _ => pure _

end Looks

private theorem content_of_isFile {tree : FileTree} {path : Text}
    (regular : tree.answer (Host.isFile path) = true) :
    ∃ content, tree.content path = .ok content := by
  unfold answer at regular
  rw [isFile_run, tree.alike_calm.find] at regular
  cases found : tree.find path with
  | error failure =>
      rw [found] at regular
      cases regular
  | ok node =>
      cases node with
      | directory =>
          rw [found] at regular
          cases regular
      | file content =>
          exact
            ⟨content, by simp [FileTree.content, found, Bind.bind, Except.bind]⟩

end FileTree

namespace Glob

open FileTree

section

variable {searchOn : List Glob → Text → StateM FileTree (List Text)}

theorem looks_matchEntry
    (looks : ∀ patterns path, Looks (searchOn patterns path))
    (patterns : List Glob) (entry : Text) :
    Looks (matchEntry searchOn patterns entry) := by
  unfold matchEntry
  split
  · exact (looks _ _).ite (.pure _)
  · exact .pure _

private theorem looks_searchEntry
    (looks : ∀ patterns path, Looks (searchOn patterns path)) (pattern : Glob)
    (patterns : List Glob) (entry : Text) :
    Looks (searchEntry searchOn pattern patterns entry) := by
  refine .ite (.bind (looks_matchEntry looks _ _) fun here => ?_)
    (looks_matchEntry looks _ _)
  refine (Looks.isDirectory entry).bind fun _ => .ite ?_ (.pure _)
  exact (looks _ _).bind fun _ => .pure _

end

theorem looks_search (fuel : Nat) (patterns : List Glob) (path : Text) :
    Looks (search fuel patterns path : StateM FileTree (List Text)) := by
  induction fuel generalizing patterns path with
  | zero =>
      cases patterns with
      | nil => exact .pure _
      | cons pattern patterns => exact .pure _
  | succ fuel ih =>
      cases patterns with
      | nil => exact .pure _
      | cons pattern patterns =>
          have here (entry : Text) (present : Bool) :
              Looks (if present = true then search fuel patterns entry
                else pure []) :=
            (ih patterns entry).ite (.pure [])
          unfold search
          split
          · exact .ite ((Looks.isDirectory path).bind (here _))
              ((Looks.pathExists _).bind (here _))
          · refine (Looks.isDirectory path).bind fun _ => .ite (.pure _) ?_
            refine (Looks.names path).bind fun _ => ?_
            refine (Looks.mapM (looks_searchEntry ih pattern patterns) _).bind
              fun _ => ?_
            exact (Looks.mapM (fun name => ih patterns (Path.join path name))
              _).bind fun _ => .pure _

theorem looks_files (text : Text) :
    Looks (files text : StateM FileTree (Except GlobError (List Text))) := by
  unfold files
  split
  · exact .pure _
  · refine .ite (.pure _) ((looks_search _ _ _).bind fun found => ?_)
    exact (Looks.filterM Looks.isFile found).bind fun _ => .pure _

/-- The regular files in a tree that a search by the parts of a pattern finds,
in order. -/
def found (tree : FileTree) (text : Text) (patterns : List Glob) : List Text :=
  if patterns = [] ∨ Text.endsWith text ['/'] then []
  else
    let start := if Path.isAbsolute text then ['/'] else ['.']
    let paths :=
      tree.answer (search (patterns.length + longestPath) patterns start)
    (paths.filter fun path => tree.answer (Host.isFile path)).mergeSort Path.le

theorem answer_files (tree : FileTree) (text : Text) :
    tree.answer (files text) =
      (do let _ ← parse text; (componentsOf text).mapM parse).map
        (found tree text) := by
  unfold answer files
  split
  · rename_i failure malformed
    rw [malformed]
    rfl
  · rename_i patterns parsed
    rw [parsed, Except.map, found]
    split
    · rfl
    · rw [run_bind, looks_search, run_bind, Looks.run_filterM Looks.isFile]
      rfl

theorem answer_files_of_sorted {tree : FileTree} {text : Text}
    (patterns : List Glob) {paths : List Text}
    (parsed : (do let _ ← parse text; (componentsOf text).mapM parse).toOption =
        some patterns) (wanted : ¬ (patterns = [] ∨ Text.endsWith text ['/']))
    (searched : let start := if Path.isAbsolute text then ['/']
      else ['.']
        (tree.answer (search (patterns.length + longestPath) patterns
        start)).filter (fun path => tree.answer (Host.isFile path)) = paths)
    (sorted : paths.Pairwise fun first second => Path.le first second = true) :
    tree.answer (files text) = .ok paths := by
  rw [answer_files, eq_ok_of_toOption parsed, Except.map, found, if_neg wanted]
  exact congrArg Except.ok ((congrArg (List.mergeSort · Path.le) searched).trans
    (List.mergeSort_of_pairwise sorted))

theorem content_of_mem_files {tree : FileTree} {text path : Text}
    {paths : List Text} (matched : tree.answer (files text) = .ok paths)
    (member : path ∈ paths) :
    ∃ content, tree.content path = .ok content := by
  rw [answer_files] at matched
  generalize (do let _ ← parse text; (componentsOf text).mapM parse) =
    parsed at matched
  cases parsed with
  | error failure => cases matched
  | ok patterns =>
      rw [← Except.ok.inj matched, found] at member
      split at member
      · cases member
      · exact content_of_isFile
          (List.mem_filter.mp (List.mem_mergeSort.mp member)).2

end Glob

end SqlDump
