import SqlDump.Proofs.FileTree.Changes

/-!
# Files side by side in a directory

A file that is put under a name in a directory leaves the files alone that have
other names there.
-/

namespace SqlDump

namespace FileTree

variable {before tree after : FileTree} {place : Place}
  {directory name other path : Text}
  {inside bytes : Bytes} {spared more : Place → Prop}

/-- Every directory is still there, and so is every file at a place that is
spared. -/
structure Spares (before after : FileTree) (spared : Place → Prop) : Prop where
  directories : ∀ place, before.node? place = some .directory →
    after.node? place = some .directory
  files : ∀ place, spared place → after.file? place = before.file? place
  current : after.current = before.current

namespace Spares

theorem refl (tree : FileTree) (spared : Place → Prop) :
    tree.Spares tree spared :=
  ⟨fun _ directory => directory, fun _ _ => rfl, rfl⟩

theorem trans (first : before.Spares tree spared)
    (second : tree.Spares after spared) :
    before.Spares after spared :=
  ⟨fun place directory =>
    second.directories place (first.directories place directory),
    fun place calm => (second.files place calm).trans (first.files place calm),
    second.current.trans first.current⟩

theorem imp (spares : before.Spares after spared)
    (fewer : ∀ place, more place → spared place) :
    before.Spares after more :=
  ⟨spares.directories, fun place calm => spares.files place (fewer place calm),
    spares.current⟩

theorem ofGrown (grown : before.Grown after) (spared : Place → Prop) :
    before.Spares after spared :=
  ⟨fun place => grown.toExtends.nodes place .directory,
    fun place _ => grown.file? place, grown.current⟩

theorem locate (spares : before.Spares after spared)
    (found : before.locate path = .ok place) :
    after.locate path = .ok place :=
  locate_eq_ok spares.directories spares.current found

theorem frontOf (spares : before.Spares after spared)
    (found : before.frontOf path = .ok place) :
    after.frontOf path = .ok place := by
  unfold FileTree.frontOf at found ⊢
  simp only [start, spares.current] at found ⊢
  by_cases empty : (Path.splitLast path).1 = []
  · rwa [if_pos empty] at found ⊢
  · rw [if_neg empty] at found ⊢
    exact walk_eq_ok spares.directories found

theorem content (spares : before.Spares after spared)
    (calm : ∀ place, before.locate path = .ok place → spared place)
    (found : before.content path = .ok bytes) :
    after.content path = .ok bytes := by
  obtain ⟨place, located, stands⟩ := content_eq_ok.mp found
  exact content_eq_ok.mpr
    ⟨place, spares.locate located,
      (spares.files place (calm place located)).trans stands⟩

end Spares

/-- The tree is `before`, with some more directories and the given content where
the path leads. -/
def Gained (before : FileTree) (path : Text) (content : Bytes)
    (after : FileTree) : Prop :=
  ∃ base place, before.Grown base ∧ Published base path content place after

namespace Gained

theorem content_eq (gained : before.Gained path inside after) :
    after.content path = .ok inside := by
  obtain ⟨base, place, -, published⟩ := gained
  exact published.content_eq

theorem named (gained : before.Gained path inside after) :
    pointsElsewhere (Path.splitLast path).2 = false := by
  obtain ⟨base, place, -, published⟩ := gained
  exact published.named

theorem spares (gained : before.Gained path inside after) :
    before.Spares after fun place => after.locate path ≠ .ok place := by
  obtain ⟨base, place, grown, published⟩ := gained
  refine (Spares.ofGrown grown _).trans ⟨published.directories,
    fun other calm => ?_, published.current⟩
  exact published.file?_of_ne fun same => calm (same ▸ published.located)

theorem content_of_ne
    (gained : before.Gained (Path.join directory other) inside after)
    (different : name ≠ other) (noSlash : '/' ∉ name)
    (otherNoSlash : '/' ∉ other) (named : pointsElsewhere name = false)
    (found : before.content (Path.join directory name) = .ok bytes) :
    after.content (Path.join directory name) = .ok bytes := by
  refine gained.spares.content (fun place located otherLocated => ?_) found
  have pathNamed :
      pointsElsewhere (Path.splitLast (Path.join directory name)).2 =
        false := by
    rwa [Path.splitLast_join directory noSlash]
  obtain ⟨here, front, same⟩ := frontOf_of_locate located pathNamed
  obtain ⟨there, otherFront, otherSame⟩ :=
    frontOf_of_locate otherLocated gained.named
  have still := gained.spares.frontOf front
  rw [frontOf_join _ _ noSlash] at still
  rw [frontOf_join _ _ otherNoSlash, still] at otherFront
  rw [Path.splitLast_join directory noSlash] at same
  rw [Path.splitLast_join directory otherNoSlash, ← Except.ok.inj otherFront,
    same] at otherSame
  exact different (List.singleton_inj.mp (List.append_cancel_left otherSame))

end Gained

/-- A name in a directory leads to the place. -/
def InDirectory (tree : FileTree) (directory : Text) (place : Place) : Prop :=
  ∃ name, '/' ∉ name ∧ pointsElsewhere name = false ∧
    tree.locate (Path.join directory name) = .ok place

theorem InDirectory.eq_append (inside : tree.InDirectory directory place) :
    ∃ here name, tree.frontOf (Path.join directory []) = .ok here ∧
    place = here ++ [name] := by
  obtain ⟨name, noSlash, named, located⟩ := inside
  have pathNamed :
      pointsElsewhere (Path.splitLast (Path.join directory name)).2 =
        false := by
    rwa [Path.splitLast_join directory noSlash]
  obtain ⟨here, front, same⟩ := frontOf_of_locate located pathNamed
  rw [frontOf_join _ _ noSlash] at front
  rw [Path.splitLast_join directory noSlash] at same
  exact ⟨here, name, front, same⟩

theorem Gained.spares_outside
    (gained : before.Gained (Path.join directory name) inside tree)
    (noSlash : '/' ∉ name) (later : tree.Spares after spared) :
    before.Spares tree fun place => ¬ after.InDirectory directory place := by
  refine gained.spares.imp fun place outside located =>
    outside ⟨name, noSlash, ?_, later.locate located⟩
  have named := gained.named
  rwa [Path.splitLast_join directory noSlash] at named

end FileTree

end SqlDump
