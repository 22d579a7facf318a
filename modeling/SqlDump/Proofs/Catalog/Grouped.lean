import Mathlib.Data.List.AList
import SqlDump.Proofs.Catalog.History

/-!
# Catalogs grouped by schema

The tables of a catalog can also be kept schema by schema, in maps that come in
no known order, with the number of tables counted beside them.  Such an index is
filled and asked in a way of its own.  Whatever the order of its maps, it gives
the answers that the history of the insertions gives.
-/

namespace SqlDump

abbrev TableMap := AList fun _ : Text => TableInfo

abbrev SchemaMap := AList fun _ : Text => TableMap

/-- The tables of every schema, and the number of all of them. -/
structure TableIndex where
  schemas : SchemaMap := ∅
  count : Nat := 0

namespace TableIndex

variable {index : TableIndex} {rows : List CatalogEntry} {schema table : Text}
  {info : TableInfo}

def tablesOf (index : TableIndex) (schema : Text) : TableMap :=
  (index.schemas.lookup schema).getD ∅

/-- The count grows if the table was not there. -/
def insert (index : TableIndex) (schema table : Text) (info : TableInfo) :
    TableIndex where
  schemas :=
    index.schemas.insert schema ((index.tablesOf schema).insert table info)
  count :=
    if ((index.tablesOf schema).lookup table).isNone then index.count + 1
    else index.count

def get? (index : TableIndex) (schema table : Text) : Option TableInfo :=
  (index.schemas.lookup schema).bind (·.lookup table)

/-- The schemas that hold the table, in the order of the index. -/
def hits (index : TableIndex) (table : Text) : List (Text × TableInfo) :=
  index.schemas.entries.filterMap fun group =>
    (group.2.lookup table).map (group.1, ·)

def resolve (index : TableIndex) (schema : Option Text) (table : Text) :
    Lookup :=
  match schema with
  | some schema =>
      match index.get? schema table with
      | some info => .found schema info
      | none => .missing
  | none =>
      match index.hits table with
      | [] => .missing
      | (schema, info) :: rest =>
          if rest.length = 0 then .found schema info
          else .ambiguous (rest.length + 1)

def singleSchema? (index : TableIndex) : Option Text :=
  if index.schemas.keys.length = 1 then index.schemas.keys.head? else none

def view (index : TableIndex) : CatalogView where
  get? := index.get?
  size := index.count
  isEmpty := index.count == 0
  singleSchema? := index.singleSchema?
  resolve := index.resolve

/-- The index was filled by the insertions.  At any time its maps may come in
another order. -/
inductive Stores : List CatalogEntry → TableIndex → Prop where
  | empty : Stores [] {}
  | insert {rows : List CatalogEntry} {index : TableIndex}
      (stores : Stores rows index) (row : CatalogEntry) :
      Stores (rows ++ [row]) (index.insert row.schema row.table row.info)
  | reorderSchemas {rows : List CatalogEntry} {index : TableIndex}
      {schemas : SchemaMap} (stores : Stores rows index)
      (order : index.schemas.entries.Perm schemas.entries) :
      Stores rows ⟨schemas, index.count⟩
  | reorderTables {rows : List CatalogEntry} {index : TableIndex}
      {schemas : SchemaMap} {schema : Text} {tables reordered : TableMap}
      {front back : List (Sigma fun _ : Text => TableMap)}
      (stores : Stores rows index)
      (before : index.schemas.entries = front ++ ⟨schema, tables⟩ :: back)
      (after : schemas.entries = front ++ ⟨schema, reordered⟩ :: back)
      (order : tables.entries.Perm reordered.entries) :
      Stores rows ⟨schemas, index.count⟩

theorem get?_eq_some_iff :
    index.get? schema table = some info ↔
      ∃ tables, ⟨schema, tables⟩ ∈ index.schemas.entries ∧
      ⟨table, info⟩ ∈ tables.entries := by
  rw [get?, Option.bind_eq_some_iff]
  refine exists_congr fun tables => and_congr ?_ ?_ <;>
    exact AList.mem_lookup_iff

theorem get?_eq_lookup_tablesOf :
    index.get? schema table = (index.tablesOf schema).lookup table := by
  unfold get? tablesOf
  cases index.schemas.lookup schema <;> simp

private theorem get?_insert_self :
    (index.insert schema table info).get? schema table = some info := by
  simp [get?, insert]

private theorem get?_insert_of_ne {otherSchema otherTable : Text}
    (different : (otherSchema, otherTable) ≠ (schema, table)) :
    (index.insert schema table info).get? otherSchema otherTable =
      index.get? otherSchema otherTable := by
  by_cases same : otherSchema = schema
  · subst same
    have otherName : otherTable ≠ table := fun eq => different (eq ▸ rfl)
    rw [index.get?_eq_lookup_tablesOf, get?, insert, AList.lookup_insert,
      Option.bind_some, AList.lookup_insert_ne otherName]
  · rw [get?, insert, AList.lookup_insert_ne same, get?]

/-- The index keeps what the insertions left, and no schema without tables. -/
structure Keeps (index : TableIndex) (rows : List CatalogEntry) : Prop where
  get? : ∀ schema table info,
    index.get? schema table = some info ↔ LastInsert rows ⟨schema, table, info⟩
  filled : ∀ group ∈ index.schemas.entries, group.2.entries ≠ []
  count : index.count = (rows.map CatalogEntry.key).toFinset.card

theorem keeps_empty : ({} : TableIndex).Keeps [] where
  get? := by simp [TableIndex.get?, LastInsert]
  filled := by simp
  count := rfl

theorem Keeps.get?_eq_none_iff (keeps : index.Keeps rows)
    (schema table : Text) :
    index.get? schema table = none ↔
      (schema, table) ∉ rows.map CatalogEntry.key := by
  rw [Option.eq_none_iff_forall_ne_some, List.mem_map]
  constructor
  · rintro absent ⟨row, member, keyEq⟩
    obtain ⟨entry, last, sameKey⟩ := exists_lastInsert member
    obtain ⟨rfl, rfl⟩ := Prod.mk.inj (sameKey.trans keyEq)
    exact absent entry.info ((keeps.get? ..).mpr last)
  · intro absent info found
    exact absent ⟨_, ((keeps.get? ..).mp found).mem, rfl⟩

theorem Keeps.insert (keeps : index.Keeps rows) (row : CatalogEntry) :
    (index.insert row.schema row.table row.info).Keeps (rows ++ [row]) where
  get? schema table info := by
    rw [lastInsert_concat]
    by_cases same : (schema, table) = row.key
    · obtain ⟨rfl, rfl⟩ := Prod.mk.inj same
      have sameRow : (⟨row.schema, row.table, info⟩ : CatalogEntry) = row ↔
      row.info = info := by
        cases row
        simp [eq_comm]
      rw [get?_insert_self, Option.some.injEq, sameRow]
      simp [CatalogEntry.key]
    · have otherRow : (⟨schema, table, info⟩ : CatalogEntry) ≠ row := fun eq =>
        same (eq ▸ rfl)
      rw [get?_insert_of_ne same, keeps.get?]
      exact ⟨fun last => .inr ⟨last, same⟩,
        fun either => (either.resolve_left otherRow).1⟩
  filled group member := by
    rw [TableIndex.insert, AList.entries_insert] at member
    rcases List.mem_cons.mp member with rfl | other
    · simp [AList.entries_insert]
    · exact keeps.filled group ((List.kerase_sublist _ _).subset other)
  count := by
    have keys : ((rows ++ [row]).map CatalogEntry.key).toFinset =
        Insert.insert row.key (rows.map CatalogEntry.key).toFinset := by
      ext key
      simp
    have absent := keeps.get?_eq_none_iff row.schema row.table
    rw [get?_eq_lookup_tablesOf, ← List.mem_toFinset] at absent
    rw [keys, TableIndex.insert]
    by_cases known : row.key ∈ (rows.map CatalogEntry.key).toFinset
    · have found : (index.tablesOf row.schema).lookup row.table ≠ none :=
        fun none => absent.mp none known
      rw [Finset.card_insert_of_mem known, if_neg (by simpa using found),
        keeps.count]
    · rw [Finset.card_insert_of_notMem known,
        if_pos (by simp [absent.mpr known]), keeps.count]

theorem Keeps.reorder {schemas : SchemaMap} (keeps : index.Keeps rows)
    (same : ∀ schema table info,
      (TableIndex.mk schemas index.count).get? schema table = some info ↔
        index.get? schema table = some info)
    (filled : ∀ group ∈ schemas.entries, group.2.entries ≠ []) :
    (TableIndex.mk schemas index.count).Keeps rows where
  get? _ _ _ := (same ..).trans (keeps.get? ..)
  filled := filled
  count := keeps.count

theorem Stores.keeps (stores : Stores rows index) : index.Keeps rows := by
  induction stores with
  | empty => exact keeps_empty
  | insert stores row ih => exact ih.insert row
  | reorderSchemas stores order ih =>
      refine ih.reorder (fun _ _ _ => ?_) fun group member => ?_
      · simp only [get?_eq_some_iff, order.mem_iff]
      · exact ih.filled group (order.mem_iff.mpr member)
  | reorderTables stores before after order ih =>
      have filled := ih.filled
      refine ih.reorder (fun _ _ _ => ?_) ?_
      · simp only [get?_eq_some_iff, before, after, List.mem_append,
          List.mem_cons, or_and_right, exists_or, Sigma.mk.injEq, heq_eq_eq,
          and_assoc, exists_and_left, exists_eq_left, order.mem_iff]
      · rw [after]
        rw [before] at filled
        simp only [List.forall_mem_append, List.forall_mem_cons] at filled ⊢
        refine ⟨filled.1, fun none => filled.2.1 ?_, filled.2.2⟩
        exact (none ▸ order).eq_nil

def entriesOf (group : Sigma fun _ : Text => TableMap) : List CatalogEntry :=
  group.2.entries.map fun pair => ⟨group.1, pair.1, pair.2⟩

def catalog (index : TableIndex) : Catalog where
  entries := index.schemas.entries.flatMap entriesOf

private theorem mem_entries_iff :
    (⟨schema, table, info⟩ : CatalogEntry) ∈ index.catalog.entries ↔
      index.get? schema table = some info := by
  rw [get?_eq_some_iff]
  simp only [catalog, entriesOf, List.mem_flatMap, List.mem_map,
    CatalogEntry.mk.injEq]
  constructor
  · rintro ⟨group, groupMember, pair, member, rfl, rfl, rfl⟩
    exact ⟨group.2, groupMember, member⟩
  · rintro ⟨tables, groupMember, member⟩
    exact ⟨_, groupMember, _, member, rfl, rfl, rfl⟩

/-- No two entries have the same key, as no two schemas and no two tables of a
schema have. -/
theorem distinct_entries (index : TableIndex) :
    (index.catalog.entries.map CatalogEntry.key).Nodup := by
  rw [catalog, List.map_flatMap, List.nodup_flatMap]
  constructor
  · intro group _
    refine List.Nodup.of_map Prod.snd ?_
    rw [entriesOf, List.map_map, List.map_map]
    exact group.2.keys_nodup
  · refine (List.nodupKeys_iff_pairwise.mp index.schemas.nodupKeys).imp ?_
    intro first second different key firstMember secondMember
    simp only [entriesOf, List.map_map, List.mem_map]
      at firstMember secondMember
    obtain ⟨_, -, rfl⟩ := firstMember
    obtain ⟨_, -, keyEq⟩ := secondMember
    exact different (Prod.mk.inj keyEq).1.symm

theorem Keeps.catalog_keeps (keeps : index.Keeps rows) :
    index.catalog.Keeps rows where
  distinct := index.distinct_entries
  mem_iff _ := mem_entries_iff.trans (keeps.get? ..)

theorem Keeps.forall_schema_iff (keeps : index.Keeps rows)
    (holds : Text → Prop) :
    (∀ entry ∈ index.catalog.entries, holds entry.schema) ↔
      ∀ schema ∈ index.schemas.keys, holds schema := by
  simp only [catalog, entriesOf, List.mem_flatMap, List.mem_map, AList.keys,
    List.keys]
  constructor
  · rintro all _ ⟨group, member, rfl⟩
    obtain ⟨pair, pairMember⟩ :=
      List.exists_mem_of_ne_nil _ (keeps.filled group member)
    exact all _ ⟨group, member, pair, pairMember, rfl⟩
  · rintro all _ ⟨group, member, pair, -, rfl⟩
    exact all group.1 ⟨group, member, rfl⟩

theorem Keeps.entries_eq_nil_iff (keeps : index.Keeps rows) :
    index.catalog.entries = [] ↔ index.schemas.keys = [] := by
  simp only [List.eq_nil_iff_forall_not_mem]
  exact keeps.forall_schema_iff fun _ => False

theorem Keeps.singleSchema?_eq_some_iff (keeps : index.Keeps rows) :
    index.singleSchema? = some schema ↔
      index.catalog.singleSchema? = some schema := by
  rw [Catalog.singleSchema?_eq_some_iff, ne_eq, keeps.entries_eq_nil_iff,
    keeps.forall_schema_iff (· = schema), singleSchema?]
  have distinct := index.schemas.keys_nodup
  match index.schemas.keys, distinct with
  | [], _ => simp
  | [only], _ => simp
  | first :: second :: rest, distinct =>
      have different : first ≠ second :=
        List.ne_of_not_mem_cons (List.nodup_cons.mp distinct).1
      simp only [List.length_cons, Nat.add_eq_right, Nat.add_eq_zero_iff,
        one_ne_zero, and_false, if_false, reduceCtorEq, List.forall_mem_cons,
        false_iff, not_and]
      rintro - rfl second_eq
      exact absurd second_eq.symm different

private theorem filter_key (tables : TableMap) (table : Text) :
    tables.entries.filter (·.1 == table) =
      ((tables.lookup table).map (Sigma.mk table)).toList := by
  obtain ⟨pairs, distinct⟩ := tables
  rw [AList.lookup]
  induction pairs with
  | nil => rfl
  | cons pair rest ih =>
      obtain ⟨fresh, later⟩ := List.nodupKeys_cons.mp distinct
      by_cases same : pair.1 = table
      · subst same
        rw [List.filter_cons_of_pos (by simp), ih later,
          List.dlookup_eq_none.mpr fresh, List.dlookup_cons_eq]
        rfl
      · rw [List.filter_cons_of_neg (by simpa using same), ih later,
          List.dlookup_cons_ne _ _ (Ne.symm same)]

private theorem filter_entriesOf (group : Sigma fun _ : Text => TableMap)
    (table : Text) :
    (entriesOf group).filter (·.table == table) =
      (((group.2.lookup table).map (group.1, ·)).map fun hit =>
        (⟨hit.1, table, hit.2⟩ : CatalogEntry)).toList := by
  have found := filter_key group.2 table
  rw [entriesOf, List.filter_map]
  change List.map _ (group.2.entries.filter (·.1 == table)) = _
  rw [found]
  cases group.2.lookup table <;> rfl

private theorem filter_entries (index : TableIndex) (table : Text) :
    index.catalog.entries.filter (·.table == table) =
      (index.hits table).map fun hit => ⟨hit.1, table, hit.2⟩ := by
  rw [catalog, hits, List.map_filterMap, List.filter_flatMap]
  rw [List.filterMap_eq_flatMap_toList]
  congr 1
  funext group
  exact filter_entriesOf group table

theorem Keeps.get?_eq (keeps : index.Keeps rows) (schema table : Text) :
    index.get? schema table = index.catalog.get? schema table :=
  Option.ext fun _ =>
    (keeps.get? ..).trans keeps.catalog_keeps.get?_eq_some_iff.symm

theorem Keeps.resolve_eq (keeps : index.Keeps rows) (schema : Option Text)
    (table : Text) :
    index.resolve schema table = index.catalog.resolve schema table := by
  cases schema with
  | some schema =>
      rw [resolve, keeps.get?_eq]
      rfl
  | none =>
      rw [resolve, Catalog.resolve, index.filter_entries]
      cases index.hits table with
      | nil => rfl
      | cons hit rest =>
          cases rest with
          | nil => rfl
          | cons second rest => simp

theorem Keeps.fits (keeps : index.Keeps rows) : index.view.Fits rows where
  get? := keeps.get?
  size := keeps.count
  isEmpty := by
    rw [view, beq_iff_eq, keeps.count]
    simp
  singleSchema? schema :=
    keeps.singleSchema?_eq_some_iff.trans
      (keeps.catalog_keeps.fits.singleSchema? schema)
  resolve schema table found := by
    change index.resolve schema table = found ↔ _
    rw [keeps.resolve_eq]
    exact keeps.catalog_keeps.fits.resolve schema table found

end TableIndex

/-- The insertions decide every answer of a catalog.  Neither the order of its
entries nor that of insertions with different keys shows, and an index that
groups the tables by schema answers the same in whatever order its maps come. -/
theorem Catalog.answers_from_history (rows : List CatalogEntry) :
    let catalog := Catalog.ofList rows
    catalog.view.Fits rows ∧
      (∀ entries, catalog.entries.Perm entries →
        (Catalog.mk entries).view = catalog.view) ∧
      (∀ other, SameInserts rows other →
        (Catalog.ofList other).view = catalog.view) ∧
      ∀ index, TableIndex.Stores rows index → index.view = catalog.view := by
  intro catalog
  have keeps : catalog.Keeps rows := Catalog.keeps_ofList rows
  refine ⟨keeps.fits, ?_, ?_, ?_⟩
  · intro entries order
    exact (keeps.perm order).fits.unique keeps.fits
  · intro other same
    exact (Catalog.keeps_ofList other).fits.unique (keeps.congr same).fits
  · intro index stores
    exact stores.keeps.fits.unique keeps.fits

end SqlDump
