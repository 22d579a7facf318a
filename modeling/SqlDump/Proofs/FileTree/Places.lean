import SqlDump.FileTree

/-!
# What stands at a place

A tree is used through what stands at its places and where its relative paths
begin.  Trees that agree on both give the same content for every path, and a
path that leads somewhere still leads there when more is added to the tree.
-/

namespace SqlDump

theorem eq_ok_of_toOption {outcome : Except ε β} {value : β}
    (found : outcome.toOption = some value) : outcome = .ok value := by
  cases outcome with
  | error failure => cases found
  | ok inside => exact congrArg Except.ok (Option.some.inj found)

theorem bind_eq_ok {first : Except ε β} {next : β → Except ε γ} {result : γ} :
    (first >>= next) = .ok result ↔ ∃ value, first = .ok value ∧
    next value = .ok result := by
  cases first with
  | error failure => simp [bind, Except.bind]
  | ok value => simp [bind, Except.bind]

namespace FileTree

variable {before after tree : FileTree} {place other : Place}

theorem lookup_filter_ne (entries : List (Place × FileNode))
    (place other : Place) :
    (entries.filter fun entry => entry.1 != place).lookup other =
      if other = place then none else entries.lookup other := by
  induction entries with
  | nil => simp
  | cons entry entries ih =>
      obtain ⟨first, node⟩ := entry
      by_cases removed : first = place
      · subst removed
        rw [List.filter_cons_of_neg (by simp), ih]
        by_cases same : other = first
        · rw [if_pos same, if_pos same]
        · have different : (other == first) = false := by simpa using same
          rw [if_neg same, if_neg same, List.lookup_cons, different]
      · rw [List.filter_cons_of_pos (by simpa using removed), List.lookup_cons,
          List.lookup_cons, ih]
        by_cases same : other = first
        · subst same
          simp [removed]
        · have different : (other == first) = false := by simpa using same
          rw [different]

theorem named_of_free (free : tree.node? place = none) : place ≠ [] := by
  rintro rfl
  exact absurd free (by simp [node?])

theorem node?_set (tree : FileTree) (node : FileNode) (named : place ≠ [])
    (other : Place) :
    (tree.set place node).node? other =
      if other = place then some node else tree.node? other := by
  cases other with
  | nil => simp [node?, named.symm]
  | cons head tail =>
      simp only [node?, set, List.lookup_append, lookup_filter_ne]
      by_cases same : head :: tail = place
      · simp [same]
      · have different : (head :: tail == place) = false := by simpa using same
        simp [same, List.lookup_cons, different]

theorem node?_erase (tree : FileTree) (named : place ≠ []) (other : Place) :
    (tree.erase place).node? other = if other = place then none
      else tree.node? other := by
  cases other with
  | nil => simp [node?, named.symm]
  | cons head tail => simp only [node?, erase, lookup_filter_ne]

/-- The content of the regular file at a place. -/
def file? (tree : FileTree) (place : Place) : Option Bytes :=
  match tree.node? place with
  | some (.file content) => some content
  | _ => none

/-- The same stands at every place. -/
structure Alike (before after : FileTree) : Prop where
  nodes : ∀ place, after.node? place = before.node? place
  current : after.current = before.current

namespace Alike

theorem refl (tree : FileTree) : tree.Alike tree :=
  ⟨fun _ => rfl, rfl⟩

theorem symm (alike : before.Alike after) : after.Alike before :=
  ⟨fun place => (alike.nodes place).symm, alike.current.symm⟩

theorem trans (first : before.Alike tree) (second : tree.Alike after) :
    before.Alike after :=
  ⟨fun place => (second.nodes place).trans (first.nodes place),
    second.current.trans first.current⟩

theorem file? (alike : before.Alike after) (place : Place) :
    after.file? place = before.file? place := by
  simp only [FileTree.file?, alike.nodes]

theorem walk (alike : before.Alike after) (here : Place) (names : List Text) :
    after.walk here names = before.walk here names := by
  induction names generalizing here with
  | nil => rfl
  | cons name names ih => simp only [FileTree.walk, enter, alike.nodes, ih]

theorem locate (alike : before.Alike after) (path : Text) :
    after.locate path = before.locate path := by
  simp only [FileTree.locate, alike.walk, start, alike.current]

theorem find (alike : before.Alike after) (path : Text) :
    after.find path = before.find path := by
  simp only [FileTree.find, alike.locate, alike.nodes]

theorem content (alike : before.Alike after) (path : Text) :
    after.content path = before.content path := by
  simp only [FileTree.content, alike.find]

end Alike

/-- What stood at a place still stands there. -/
structure Extends (before after : FileTree) : Prop where
  nodes : ∀ place node, before.node? place = some node →
    after.node? place = some node
  current : after.current = before.current

theorem Alike.toExtends (alike : before.Alike after) : before.Extends after :=
  ⟨fun place _ found => (alike.nodes place).trans found, alike.current⟩

theorem enter_eq_ok : tree.enter place = .ok () ↔
    tree.node? place = some .directory := by
  unfold enter
  split <;> simp_all

/-- A walk needs nothing but its directories. -/
theorem walk_eq_ok
    (directories : ∀ place, before.node? place = some .directory →
      after.node? place = some .directory) {here : Place} {names : List Text}
    (found : before.walk here names = .ok place) :
    after.walk here names = .ok place := by
  induction names generalizing here with
  | nil => exact found
  | cons name names ih =>
      rw [walk] at found ⊢
      obtain ⟨⟨⟩, entered, found⟩ := bind_eq_ok.mp found
      obtain ⟨⟨⟩, permitted, found⟩ := bind_eq_ok.mp found
      have stillEntered :=
        enter_eq_ok.mpr (directories here (enter_eq_ok.mp entered))
      exact bind_eq_ok.mpr ⟨(), stillEntered,
        bind_eq_ok.mpr ⟨(), permitted, ih found⟩⟩

theorem locate_eq_ok
    (directories : ∀ place, before.node? place = some .directory →
      after.node? place = some .directory)
    (current : after.current = before.current) {path : Text}
    (found : before.locate path = .ok place) :
    after.locate path = .ok place := by
  obtain ⟨⟨⟩, permitted, found⟩ := bind_eq_ok.mp found
  refine bind_eq_ok.mpr ⟨(), permitted, ?_⟩
  split at found
  · cases found
  · rename_i nonempty
    rw [if_neg nonempty]
    simp only [start, current] at found ⊢
    exact walk_eq_ok directories found

theorem find_eq_ok {path : Text} {node : FileNode} :
    tree.find path = .ok node ↔
      ∃ place, tree.locate path = .ok place ∧ tree.node? place = some node := by
  unfold find
  simp only [bind_eq_ok]
  refine exists_congr fun place => and_congr_right fun _ => ?_
  cases tree.node? place <;> simp

theorem content_eq_ok {path : Text} {bytes : Bytes} :
    tree.content path = .ok bytes ↔
      ∃ place, tree.locate path = .ok place ∧
        tree.file? place = some bytes := by
  constructor
  · intro found
    obtain ⟨node, found, inside⟩ := bind_eq_ok.mp found
    obtain ⟨place, located, stands⟩ := find_eq_ok.mp found
    cases node with
    | directory => cases inside
    | file content =>
        obtain rfl := Except.ok.inj inside
        exact ⟨place, located, by simp only [file?, stands]⟩
  · rintro ⟨place, located, found⟩
    unfold file? at found
    split at found
    · rename_i inside stands
      have node := find_eq_ok.mpr ⟨place, located, stands⟩
      exact bind_eq_ok.mpr ⟨_, node, congrArg Except.ok (Option.some.inj found)⟩
    · cases found

namespace Extends

theorem trans (first : before.Extends tree) (second : tree.Extends after) :
    before.Extends after :=
  ⟨fun place node found =>
    second.nodes place node (first.nodes place node found),
    second.current.trans first.current⟩

theorem locate (more : before.Extends after) {path : Text}
    (found : before.locate path = .ok place) :
    after.locate path = .ok place :=
  locate_eq_ok (fun place => more.nodes place .directory) more.current found

theorem file? (more : before.Extends after) {bytes : Bytes}
    (found : before.file? place = some bytes) :
    after.file? place = some bytes := by
  unfold FileTree.file? at found
  split at found
  · rename_i inside stands
    simp only [FileTree.file?, more.nodes _ _ stands]
    exact found
  · cases found

theorem content (more : before.Extends after) {path : Text} {bytes : Bytes}
    (found : before.content path = .ok bytes) :
    after.content path = .ok bytes := by
  obtain ⟨place, located, inside⟩ := content_eq_ok.mp found
  exact content_eq_ok.mpr ⟨place, more.locate located, more.file? inside⟩

end Extends

/-- Nothing was added but directories. -/
structure Grown (before after : FileTree) : Prop where
  nodes : ∀ place, after.node? place = before.node? place ∨
    before.node? place = none ∧ after.node? place = some .directory
  current : after.current = before.current

namespace Grown

theorem refl (tree : FileTree) : tree.Grown tree :=
  ⟨fun _ => .inl rfl, rfl⟩

theorem trans (first : before.Grown tree) (second : tree.Grown after) :
    before.Grown after := by
  refine ⟨fun place => ?_, second.current.trans first.current⟩
  rcases second.nodes place with same | ⟨free, made⟩
  · rw [same]
    exact first.nodes place
  · rcases first.nodes place with same | ⟨-, madeBefore⟩
    · exact .inr ⟨same ▸ free, made⟩
    · rw [madeBefore] at free
      cases free

theorem ofAlike (alike : before.Alike after) : before.Grown after :=
  ⟨fun place => .inl (alike.nodes place), alike.current⟩

theorem toExtends (grown : before.Grown after) : before.Extends after := by
  refine ⟨fun place node found => ?_, grown.current⟩
  rcases grown.nodes place with same | ⟨free, -⟩
  · rw [same, found]
  · rw [found] at free
    cases free

theorem file? (grown : before.Grown after) (place : Place) :
    after.file? place = before.file? place := by
  rcases grown.nodes place with same | ⟨free, made⟩
  · simp only [FileTree.file?, same]
  · simp only [FileTree.file?, free, made]

end Grown

end FileTree

end SqlDump
