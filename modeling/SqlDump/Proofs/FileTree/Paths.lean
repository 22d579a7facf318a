import SqlDump.Proofs.FileTree.Places
import SqlDump.Proofs.Text.Trim

/-!
# Where a path leads

A path leads to its last component in the directory that the rest of it leads
to.
-/

namespace SqlDump

namespace Path

theorem takeWhile_reverse_append {last : Text} (noSlash : '/' ∉ last)
    (rest : Text) :
    (last.reverse ++ rest).takeWhile (· != '/') = last.reverse ++
      rest.takeWhile (· != '/') := by
  rw [List.takeWhile_append_of_pos]
  intro character member
  have inside : character ∈ last := List.mem_reverse.mp member
  exact bne_iff_ne.mpr fun slash => noSlash (slash ▸ inside)

theorem splitLast_of_not_mem {path : Text} (noSlash : '/' ∉ path) :
    splitLast path = ([], path) := by
  have whole : path.reverse.takeWhile (· != '/') = path.reverse := by
    simpa using takeWhile_reverse_append noSlash []
  simp [splitLast, whole]

theorem splitLast_append (front : Text) {last : Text} (noSlash : '/' ∉ last) :
    splitLast (front ++ '/' :: last) = (front, last) := by
  have taken : (front ++ '/' :: last).reverse.takeWhile (· != '/') =
      last.reverse := by
    rw [List.reverse_append, List.reverse_cons, List.append_assoc,
      takeWhile_reverse_append noSlash]
    simp
  simp only [splitLast, taken, List.length_append, List.length_cons,
    List.reverse_reverse]
  rw [show front.length + (last.length + 1) - last.length - 1 =
    front.length by omega, List.take_left]

/-- A path is a name, or a name behind its last slash. -/
theorem name_or_append (path : Text) :
    '/' ∉ path ∨ ∃ front last, path = front ++ '/' :: last ∧ '/' ∉ last := by
  by_cases slash : '/' ∈ path
  · obtain ⟨last, front, same, noSlash⟩ :=
      List.eq_append_cons_of_mem (List.mem_reverse.mpr slash)
    refine .inr ⟨front.reverse, last.reverse, ?_, by simpa using noSlash⟩
    have turned := congrArg List.reverse same
    simpa using turned
  · exact .inl slash

private theorem not_mem_splitLast (path : Text) : '/' ∉ (splitLast path).2 := by
  rcases name_or_append path with noSlash | ⟨front, last, rfl, noSlash⟩
  · rwa [splitLast_of_not_mem noSlash]
  · rwa [splitLast_append front noSlash]

theorem not_mem_fileName? {path name : Text}
    (found : fileName? path = some name) : '/' ∉ name := by
  unfold fileName? at found
  split at found
  · cases found
  · dsimp only at found
    split at found
    · cases found
    · rw [← Option.some.inj found]
      exact not_mem_splitLast _

theorem not_isAbsolute_of_not_mem {name : Text} (noSlash : '/' ∉ name) :
    isAbsolute name = false := by
  cases name with
  | nil => rfl
  | cons head tail =>
      have different : head ≠ '/' := fun slash =>
        noSlash (slash ▸ List.mem_cons_self)
      simpa [isAbsolute] using different

theorem join_of_relative {directory name : Text} (nonempty : directory ≠ [])
    (relative : isAbsolute name = false) :
    join directory name =
      if Text.endsWith directory ['/'] then directory ++ name
      else directory ++ '/' :: name := by
  unfold join
  rw [if_neg (by simp [relative, nonempty])]

theorem join_eq_append (directory : Text) {name : Text} (noSlash : '/' ∉ name) :
    join directory name = join directory [] ++ name := by
  by_cases empty : directory = []
  · simp [join, empty]
  · rw [join_of_relative empty (not_isAbsolute_of_not_mem noSlash),
      join_of_relative empty rfl]
    split <;> simp

theorem join_nil (directory : Text) :
    join directory [] = [] ∨ ∃ front, join directory [] = front ++ ['/'] := by
  by_cases empty : directory = []
  · exact .inl (if_pos (.inr empty))
  · rw [join_of_relative empty rfl]
    split
    · rename_i slash
      obtain ⟨front, same⟩ := List.isSuffixOf_iff_suffix.mp slash
      exact .inr ⟨front, by rw [List.append_nil, same]⟩
    · exact .inr ⟨directory, rfl⟩

theorem splitLast_join (directory : Text) {name : Text} (noSlash : '/' ∉ name) :
    splitLast (join directory name) =
      ((splitLast (join directory [])).1, name) := by
  rw [join_eq_append directory noSlash]
  rcases join_nil directory with same | ⟨front, same⟩
  · rw [same, List.nil_append, splitLast_of_not_mem noSlash]
    rfl
  · rw [same, List.append_assoc, List.singleton_append,
      splitLast_append front noSlash, splitLast_append front List.not_mem_nil]

private theorem isAbsolute_join (directory : Text) {name : Text}
    (noSlash : '/' ∉ name) :
    isAbsolute (join directory name) = isAbsolute (join directory []) := by
  rw [join_eq_append directory noSlash]
  rcases join_nil directory with same | ⟨front, same⟩
  · rw [same]
    exact not_isAbsolute_of_not_mem noSlash
  · rw [same]
    cases front <;> rfl

end Path

namespace FileTree

variable {tree : FileTree}

private theorem walk_append (tree : FileTree) (here : Place)
    (first second : List Text) :
    tree.walk here (first ++ second) =
      (tree.walk here first >>= fun there => tree.walk there second) := by
  induction first generalizing here with
  | nil => rfl
  | cons name names ih => simp only [List.cons_append, walk, bind_assoc, ih]

/-- The directory that the rest of a path leads to. -/
def frontOf (tree : FileTree) (path : Text) : Except FileError Place :=
  let front := (Path.splitLast path).1
  if front = [] then .ok (tree.start path)
  else tree.walk (tree.start path) (front.splitOn '/')

/-- A walk takes the last name in the directory that the rest of the path leads
to. -/
theorem walk_splitOn (tree : FileTree) (path : Text) :
    tree.walk (tree.start path) (path.splitOn '/') =
      (tree.frontOf path >>= fun here =>
        tree.walk here [(Path.splitLast path).2]) := by
  rcases Path.name_or_append path with noSlash | ⟨front, last, rfl, noSlash⟩
  · rw [List.splitOn_eq_singleton noSlash]
    simp only [frontOf, Path.splitLast_of_not_mem noSlash, if_true]
    rfl
  · rw [List.splitOn_append_cons_self, List.splitOn_eq_singleton noSlash,
      walk_append]
    simp only [frontOf, Path.splitLast_append front noSlash]
    by_cases empty : front = []
    · subst empty
      rfl
    · rw [if_neg empty]

theorem frontOf_join (tree : FileTree) (directory : Text) {name : Text}
    (noSlash : '/' ∉ name) :
    tree.frontOf (Path.join directory name) =
      tree.frontOf (Path.join directory []) := by
  simp only [frontOf, start, Path.splitLast_join directory noSlash,
    Path.isAbsolute_join directory noSlash]

theorem follow_of_named {name : Text} (named : pointsElsewhere name = false)
    (here : Place) :
    follow here name = here ++ [name] := by
  simp only [pointsElsewhere, Bool.or_eq_false_iff, beq_eq_false_iff_ne]
    at named
  simp [follow, named.1, named.2]

private theorem dropEndWhile_of_not_endsWith {path : Text}
    (noSlash : Text.endsWith path ['/'] = false) :
    Text.dropEndWhile (· == '/') path = path := by
  rw [Text.dropEndWhile_eq_rdropWhile, List.rdropWhile_eq_self_iff]
  intro nonempty slash
  have ends : path.dropLast ++ ['/'] = path := by
    rw [← eq_of_beq slash]
    exact List.dropLast_append_getLast nonempty
  rw [Text.endsWith, ← ends,
    List.isSuffixOf_iff_suffix.mpr (List.suffix_append _ _)] at noSlash
  exact Bool.false_ne_true noSlash.symm

private theorem locateParent_eq (tree : FileTree) {path : Text}
    (nonempty : path ≠ []) (noSlash : Text.endsWith path ['/'] = false) :
    tree.locateParent path =
      (allowed (FileError.ofPath? path) >>= fun _ =>
        tree.frontOf path >>= fun here =>
          tree.enter here >>= fun _ =>
            .ok (here, (Path.splitLast path).2)) := by
  simp only [locateParent, dropEndWhile_of_not_endsWith noSlash,
    if_neg nonempty, frontOf]
  split <;> rfl

theorem locate_eq (tree : FileTree) {path : Text} (nonempty : path ≠ []) :
    tree.locate path =
      (allowed (FileError.ofPath? path) >>= fun _ =>
        tree.frontOf path >>= fun here =>
          tree.walk here [(Path.splitLast path).2]) := by
  simp only [locate, if_neg nonempty, walk_splitOn]

/-- A path whose last component names something leads to that name in the
directory that the rest of the path leads to. -/
theorem frontOf_of_locate {path : Text} {place : Place}
    (located : tree.locate path = .ok place)
    (named : pointsElsewhere (Path.splitLast path).2 = false) :
    ∃ here, tree.frontOf path = .ok here ∧
      place = here ++ [(Path.splitLast path).2] := by
  have nonempty : path ≠ [] := by
    rintro rfl
    cases named
  rw [locate_eq tree nonempty] at located
  obtain ⟨⟨⟩, -, located⟩ := bind_eq_ok.mp located
  obtain ⟨here, front, located⟩ := bind_eq_ok.mp located
  rw [walk] at located
  obtain ⟨⟨⟩, -, located⟩ := bind_eq_ok.mp located
  obtain ⟨⟨⟩, -, located⟩ := bind_eq_ok.mp located
  refine ⟨here, front, ?_⟩
  rw [← follow_of_named named]
  exact (Except.ok.inj located).symm

theorem locateParent_eq_ok {path name : Text} {here : Place}
    (found : tree.locateParent path = .ok (here, name))
    (noSlash : Text.endsWith path ['/'] = false) :
    path ≠ [] ∧ allowed (FileError.ofPath? path) = .ok () ∧
      tree.frontOf path = .ok here ∧
      tree.enter here = .ok () ∧ (Path.splitLast path).2 = name := by
  have nonempty : path ≠ [] := by
    rintro rfl
    obtain ⟨⟨⟩, -, found⟩ := bind_eq_ok.mp found
    cases found
  rw [locateParent_eq tree nonempty noSlash] at found
  obtain ⟨⟨⟩, permitted, found⟩ := bind_eq_ok.mp found
  obtain ⟨there, front, found⟩ := bind_eq_ok.mp found
  obtain ⟨⟨⟩, entered, found⟩ := bind_eq_ok.mp found
  obtain ⟨rfl, rfl⟩ := Prod.mk.inj (Except.ok.inj found)
  exact ⟨nonempty, permitted, front, entered, rfl⟩

theorem locate_of_locateParent {path name : Text} {here : Place}
    (found : tree.locateParent path = .ok (here, name))
    (named : pointsElsewhere name = false)
    (fits : allowed (FileError.ofName? name) = .ok ())
    (noSlash : Text.endsWith path ['/'] = false) :
    tree.locate path = .ok (here ++ [name]) := by
  obtain ⟨nonempty, permitted, front, entered, rfl⟩ :=
    locateParent_eq_ok found noSlash
  rw [locate_eq tree nonempty, permitted, ← follow_of_named named]
  refine bind_eq_ok.mpr ⟨(), rfl, bind_eq_ok.mpr ⟨here, front, ?_⟩⟩
  exact bind_eq_ok.mpr ⟨(), entered, bind_eq_ok.mpr ⟨(), fits, rfl⟩⟩

end FileTree

end SqlDump
