import Mathlib.Data.Finset.Card
import SqlDump.Catalog

/-!
# A catalog answers from its history

A catalog that was made by insertions has one entry for each pair of a schema
and a table, the last one that was inserted.  Everything that it can be asked
follows from these entries, and nothing from their order.
-/

namespace SqlDump

namespace CatalogEntry

def key (entry : CatalogEntry) : Text × Text :=
  (entry.schema, entry.table)

theorem hasKey_iff {entry : CatalogEntry} {schema table : Text} :
    entry.hasKey schema table = true ↔ entry.key = (schema, table) := by
  simp [hasKey, key]

end CatalogEntry

/-- No later insertion has the key of this one. -/
def LastInsert (rows : List CatalogEntry) (entry : CatalogEntry) : Prop :=
  ∃ before after, rows = before ++ entry :: after ∧ ∀ later ∈ after,
    later.key ≠ entry.key

/-- Two histories that differ at most in the order of insertions with different
keys. -/
def SameInserts (first second : List CatalogEntry) : Prop :=
  ∀ schema table, first.filter (·.hasKey schema table) =
    second.filter (·.hasKey schema table)

section LastInsert

variable {rows first second : List CatalogEntry}
  {row entry other : CatalogEntry}

theorem lastInsert_concat :
    LastInsert (rows ++ [row]) entry ↔
      entry = row ∨ LastInsert rows entry ∧ entry.key ≠ row.key := by
  constructor
  · rintro ⟨before, after, split, last⟩
    rcases List.eq_nil_or_concat after with rfl | ⟨after, final, rfl⟩
    · obtain ⟨-, same⟩ := List.append_inj' split rfl
      exact .inl (List.head_eq_of_cons_eq same).symm
    · rw [List.concat_eq_append] at split last
      have parts : rows ++ [row] = (before ++ entry :: after) ++ [final] := by
        simpa using split
      obtain ⟨rowsEq, same⟩ := List.append_inj' parts rfl
      obtain rfl := List.head_eq_of_cons_eq same
      have others : ∀ later ∈ after, later.key ≠ entry.key :=
        fun later member => last later (List.mem_append_left _ member)
      exact .inr ⟨⟨before, after, rowsEq, others⟩, (last row (by simp)).symm⟩
  · rintro (rfl | ⟨⟨before, after, rfl, last⟩, otherKey⟩)
    · exact ⟨rows, [], rfl, by simp⟩
    · refine ⟨before, after ++ [row], by simp, ?_⟩
      intro later member
      rcases List.mem_append.mp member with earlier | final
      · exact last later earlier
      · rw [List.mem_singleton.mp final]
        exact otherKey.symm

theorem lastInsert_iff :
    LastInsert rows entry ↔
      (rows.filter (·.hasKey entry.schema entry.table)).getLast? =
        some entry := by
  induction rows using List.reverseRecOn with
  | nil => simp [LastInsert]
  | append_singleton rows row ih =>
      rw [lastInsert_concat, List.filter_append]
      by_cases same : entry.key = row.key
      · have found : row.hasKey entry.schema entry.table = true :=
          CatalogEntry.hasKey_iff.mpr same.symm
        simp [found, same, eq_comm]
      · have absent : row.hasKey entry.schema entry.table = false :=
          Bool.eq_false_iff.mpr fun found =>
            same (CatalogEntry.hasKey_iff.mp found).symm
        have different : entry ≠ row := fun eq => same (eq ▸ rfl)
        simp [absent, same, different, ih]

theorem LastInsert.eq_of_key_eq (last : LastInsert rows entry)
    (otherLast : LastInsert rows other) (same : entry.key = other.key) :
    entry = other := by
  obtain ⟨schemaEq, tableEq⟩ := Prod.mk.inj same
  rw [lastInsert_iff, schemaEq, tableEq] at last
  exact Option.some.inj (last.symm.trans (lastInsert_iff.mp otherLast))

theorem LastInsert.mem (last : LastInsert rows entry) : entry ∈ rows := by
  obtain ⟨before, after, rfl, -⟩ := last
  simp

theorem exists_lastInsert (member : row ∈ rows) :
    ∃ entry, LastInsert rows entry ∧ entry.key = row.key := by
  induction rows using List.reverseRecOn with
  | nil => simp at member
  | append_singleton rows final ih =>
      by_cases same : row.key = final.key
      · exact ⟨final, lastInsert_concat.mpr (.inl rfl), same.symm⟩
      · have earlier : row ∈ rows := by
          rcases List.mem_append.mp member with earlier | last
          · exact earlier
          · exact absurd (congrArg CatalogEntry.key
              (List.mem_singleton.mp last)) same
        obtain ⟨entry, last, keyEq⟩ := ih earlier
        exact ⟨entry, lastInsert_concat.mpr (.inr ⟨last, keyEq ▸ same⟩), keyEq⟩

theorem SameInserts.lastInsert_iff (same : SameInserts first second) :
    LastInsert first entry ↔ LastInsert second entry := by
  rw [SqlDump.lastInsert_iff, SqlDump.lastInsert_iff, same]

end LastInsert

/-- All that a catalog can be asked. -/
@[ext] structure CatalogView where
  get? : Text → Text → Option TableInfo
  size : Nat
  isEmpty : Bool
  singleSchema? : Option Text
  resolve : Option Text → Text → Lookup

def Catalog.view (catalog : Catalog) : CatalogView where
  get? := catalog.get?
  size := catalog.size
  isEmpty := catalog.isEmpty
  singleSchema? := catalog.singleSchema?
  resolve := catalog.resolve

/-- The schemas in which the table was inserted. -/
def holders (rows : List CatalogEntry) (table : Text) : Finset Text :=
  ((rows.filter (·.table == table)).map (·.schema)).toFinset

/-- What a lookup finds behind the insertions, in one schema or in all of
them. -/
inductive Resolves (rows : List CatalogEntry) :
    Option Text → Text → Lookup → Prop where
  | inSchema {schema table : Text} {info : TableInfo}
      (last : LastInsert rows ⟨schema, table, info⟩) :
      Resolves rows (some schema) table (.found schema info)
  | notInSchema {schema table : Text}
      (absent : ∀ row ∈ rows, row.key ≠ (schema, table)) :
      Resolves rows (some schema) table .missing
  | once {schema table : Text} {info : TableInfo}
      (only : holders rows table = {schema})
      (last : LastInsert rows ⟨schema, table, info⟩) :
      Resolves rows none table (.found schema info)
  | nowhere {table : Text} (absent : holders rows table = ∅) :
      Resolves rows none table .missing
  | several {table : Text} (many : 2 ≤ (holders rows table).card) :
      Resolves rows none table (.ambiguous (holders rows table).card)

/-- The answers are those of a map that the insertions filled. -/
structure CatalogView.Fits (view : CatalogView) (rows : List CatalogEntry) :
    Prop where
  get? : ∀ schema table info,
    view.get? schema table = some info ↔ LastInsert rows ⟨schema, table, info⟩
  size : view.size = (rows.map CatalogEntry.key).toFinset.card
  isEmpty : view.isEmpty = true ↔ rows = []
  singleSchema? : ∀ schema,
    view.singleSchema? = some schema ↔ rows ≠ [] ∧ ∀ row ∈ rows,
      row.schema = schema
  resolve : ∀ schema table found,
    view.resolve schema table = found ↔ Resolves rows schema table found

theorem Resolves.unique {rows : List CatalogEntry} {schema : Option Text}
    {table : Text} {found other : Lookup}
    (resolves : Resolves rows schema table found)
    (otherwise : Resolves rows schema table other) : found = other := by
  cases resolves with
  | inSchema last =>
      cases otherwise with
      | inSchema otherLast => cases last.eq_of_key_eq otherLast rfl; rfl
      | notInSchema absent => exact absurd rfl (absent _ last.mem)
  | notInSchema absent =>
      cases otherwise with
      | inSchema last => exact absurd rfl (absent _ last.mem)
      | notInSchema => rfl
  | once only last =>
      cases otherwise with
      | once otherOnly otherLast =>
          obtain rfl := Finset.singleton_injective (only.symm.trans otherOnly)
          cases last.eq_of_key_eq otherLast rfl
          rfl
      | nowhere absent =>
          exact absurd (only.symm.trans absent) (Finset.singleton_ne_empty _)
      | several many => simp [only] at many
  | nowhere absent =>
      cases otherwise with
      | once only =>
          exact absurd (only.symm.trans absent) (Finset.singleton_ne_empty _)
      | nowhere => rfl
      | several many => simp [absent] at many
  | several many =>
      cases otherwise with
      | once only => simp [only] at many
      | nowhere absent => simp [absent] at many
      | several => rfl

/-- The history leaves no choice in an answer. -/
theorem CatalogView.Fits.unique {view other : CatalogView}
    {rows : List CatalogEntry} (fits : view.Fits rows)
    (otherFits : other.Fits rows) : view = other := by
  ext1
  · funext schema table
    exact Option.ext fun info => (fits.get? ..).trans (otherFits.get? ..).symm
  · exact fits.size.trans otherFits.size.symm
  · exact Bool.eq_iff_iff.mpr (fits.isEmpty.trans otherFits.isEmpty.symm)
  · exact Option.ext fun schema =>
      (fits.singleSchema? _).trans (otherFits.singleSchema? _).symm
  · funext schema table
    exact (fits.resolve ..).mpr ((otherFits.resolve ..).mp rfl)

namespace Catalog

/-- The catalog has the last insertion of every key as its only entry for that
key. -/
structure Keeps (catalog : Catalog) (rows : List CatalogEntry) : Prop where
  distinct : (catalog.entries.map CatalogEntry.key).Nodup
  mem_iff : ∀ entry, entry ∈ catalog.entries ↔ LastInsert rows entry

variable {catalog : Catalog} {rows other : List CatalogEntry}
  {entries : List CatalogEntry} {schema table : Text}

theorem keeps_empty : ({} : Catalog).Keeps [] where
  distinct := List.nodup_nil
  mem_iff := by simp [LastInsert]

private theorem mem_entries_insert {entry : CatalogEntry} {info : TableInfo} :
    entry ∈ (catalog.insert schema table info).entries ↔
      entry = ⟨schema, table, info⟩ ∨ entry ∈ catalog.entries ∧
      entry.key ≠ (schema, table) := by
  have otherKey : entry.hasKey schema table = false ↔
      entry.key ≠ (schema, table) := by
    rw [← Bool.not_eq_true, CatalogEntry.hasKey_iff]
  simp [insert, otherKey, or_comm]

theorem Keeps.insert (keeps : catalog.Keeps rows) (row : CatalogEntry) :
    (catalog.insert row.schema row.table row.info).Keeps (rows ++ [row]) where
  distinct := by
    have kept :
        (catalog.entries.filter (fun entry =>
        !entry.hasKey row.schema row.table)).map
        CatalogEntry.key |>.Nodup :=
          keeps.distinct.sublist (List.filter_sublist.map _)
    simp only [Catalog.insert, List.map_append, List.map_cons, List.map_nil]
    refine List.nodup_append.mpr ⟨kept, List.nodup_singleton _, ?_⟩
    intro key member final finalEq same
    obtain ⟨entry, entryMember, rfl⟩ := List.mem_map.mp member
    have otherKey := (List.mem_filter.mp entryMember).2
    rw [List.mem_singleton.mp finalEq] at same
    rw [CatalogEntry.hasKey_iff.mpr same] at otherKey
    exact absurd otherKey (by simp)
  mem_iff entry := by
    rw [mem_entries_insert, lastInsert_concat, keeps.mem_iff]
    rfl

theorem keeps_ofList (rows : List CatalogEntry) : (ofList rows).Keeps rows := by
  induction rows using List.reverseRecOn with
  | nil => exact keeps_empty
  | append_singleton rows row ih =>
      rw [ofList, List.foldl_append]
      exact ih.insert row

theorem Keeps.perm (keeps : catalog.Keeps rows)
    (reordered : catalog.entries.Perm entries) :
    (Catalog.mk entries).Keeps rows where
  distinct := (reordered.map _).nodup_iff.mp keeps.distinct
  mem_iff entry := reordered.mem_iff.symm.trans (keeps.mem_iff entry)

theorem Keeps.congr (keeps : catalog.Keeps rows)
    (same : SameInserts rows other) :
    catalog.Keeps other where
  distinct := keeps.distinct
  mem_iff entry := (keeps.mem_iff entry).trans same.lastInsert_iff

theorem Keeps.mem_key (keeps : catalog.Keeps rows) {key : Text × Text} :
    key ∈ catalog.entries.map CatalogEntry.key ↔
    key ∈ rows.map CatalogEntry.key := by
  simp only [List.mem_map]
  constructor
  · rintro ⟨entry, member, rfl⟩
    exact ⟨entry, ((keeps.mem_iff entry).mp member).mem, rfl⟩
  · rintro ⟨row, member, rfl⟩
    obtain ⟨entry, last, keyEq⟩ := exists_lastInsert member
    exact ⟨entry, (keeps.mem_iff entry).mpr last, keyEq⟩

theorem Keeps.get?_eq_some_iff (keeps : catalog.Keeps rows) {info : TableInfo} :
    catalog.get? schema table = some info ↔
    LastInsert rows ⟨schema, table, info⟩ := by
  rw [← keeps.mem_iff, get?, Option.map_eq_some_iff]
  constructor
  · rintro ⟨entry, found, rfl⟩
    obtain ⟨rfl, rfl⟩ :=
      Prod.mk.inj (CatalogEntry.hasKey_iff.mp (List.find?_some found))
    exact List.mem_of_find?_eq_some found
  · intro member
    have isKey : (CatalogEntry.mk schema table info).hasKey schema table =
      true :=
      CatalogEntry.hasKey_iff.mpr rfl
    obtain ⟨entry, found⟩ :=
      Option.isSome_iff_exists.mp (List.find?_isSome.mpr ⟨_, member, isKey⟩)
    have same : entry.key = (CatalogEntry.mk schema table info).key :=
      CatalogEntry.hasKey_iff.mp (List.find?_some found)
    have only := List.inj_on_of_nodup_map keeps.distinct
      (List.mem_of_find?_eq_some found) member
    exact ⟨entry, found, by rw [only same]⟩

theorem Keeps.size_eq (keeps : catalog.Keeps rows) :
    catalog.size = (rows.map CatalogEntry.key).toFinset.card := by
  have keys : (rows.map CatalogEntry.key).toFinset =
      (catalog.entries.map CatalogEntry.key).toFinset := by
    ext key
    rw [List.mem_toFinset, List.mem_toFinset, keeps.mem_key]
  rw [keys, List.toFinset_card_of_nodup keeps.distinct, List.length_map, size]

theorem Keeps.entries_eq_nil_iff (keeps : catalog.Keeps rows) :
    catalog.entries = [] ↔ rows = [] := by
  have keys : catalog.entries.map CatalogEntry.key = [] ↔
      rows.map CatalogEntry.key = [] := by
    simp only [List.eq_nil_iff_forall_not_mem, keeps.mem_key]
  simpa using keys

theorem Keeps.forall_schema_iff (keeps : catalog.Keeps rows)
    (holds : Text → Prop) :
    (∀ entry ∈ catalog.entries, holds entry.schema) ↔ ∀ row ∈ rows,
      holds row.schema := by
  have keys (entries : List CatalogEntry) :
      (∀ entry ∈ entries, holds entry.schema) ↔
      ∀ key ∈ entries.map CatalogEntry.key, holds key.1 := by
        simp [CatalogEntry.key]
  rw [keys, keys rows]
  simp only [keeps.mem_key]

theorem singleSchema?_eq_some_iff :
    catalog.singleSchema? = some schema ↔
      catalog.entries ≠ [] ∧
        ∀ entry ∈ catalog.entries, entry.schema = schema := by
  unfold singleSchema?
  cases catalog.entries with
  | nil => simp
  | cons first rest =>
      simp only [List.all_eq_true, beq_iff_eq, Option.ite_none_right_eq_some,
        Option.some.injEq, ne_eq, reduceCtorEq, not_false_eq_true, true_and,
        List.forall_mem_cons]
      constructor
      · rintro ⟨all, rfl⟩
        exact ⟨rfl, all⟩
      · rintro ⟨rfl, all⟩
        exact ⟨all, rfl⟩

theorem Keeps.holders_eq (keeps : catalog.Keeps rows) (table : Text) :
    ((catalog.entries.filter (·.table == table)).map (·.schema)).Nodup ∧
      holders rows table =
        ((catalog.entries.filter (·.table == table)).map
          (·.schema)).toFinset := by
  constructor
  · have keys :
        ((catalog.entries.filter (·.table == table)).map
          CatalogEntry.key).Nodup :=
      keeps.distinct.sublist (List.filter_sublist.map _)
    refine List.Nodup.map_on ?_ keys.of_map
    intro first firstMember second secondMember schemaEq
    have firstTable := (List.mem_filter.mp firstMember).2
    have secondTable := (List.mem_filter.mp secondMember).2
    rw [beq_iff_eq] at firstTable secondTable
    apply List.inj_on_of_nodup_map keys firstMember secondMember
    rw [CatalogEntry.key, CatalogEntry.key, schemaEq, firstTable, secondTable]
  · have held (entries : List CatalogEntry) (schema : Text) :
        schema ∈ ((entries.filter (·.table == table)).map (·.schema)).toFinset ↔
          (schema, table) ∈ entries.map CatalogEntry.key := by
      simp only [List.mem_toFinset, List.mem_map, List.mem_filter, beq_iff_eq,
        CatalogEntry.key, Prod.mk.injEq, and_assoc]
      exact exists_congr fun entry => and_congr_right fun _ => and_comm
    ext schema
    rw [holders, held, held, keeps.mem_key]

theorem Keeps.resolves (keeps : catalog.Keeps rows) (schema : Option Text)
    (table : Text) :
    Resolves rows schema table (catalog.resolve schema table) := by
  cases schema with
  | some schema =>
      rw [resolve]
      cases known : catalog.get? schema table with
      | some info => exact .inSchema (keeps.get?_eq_some_iff.mp known)
      | none =>
          refine .notInSchema fun row member keyEq => ?_
          obtain ⟨entry, last, sameKey⟩ := exists_lastInsert member
          obtain ⟨rfl, rfl⟩ := Prod.mk.inj (sameKey.trans keyEq)
          rw [keeps.get?_eq_some_iff.mpr last] at known
          exact Option.some_ne_none _ known
  | none =>
      obtain ⟨distinct, holdersEq⟩ := keeps.holders_eq table
      have member (entry : CatalogEntry)
          (found : entry ∈ catalog.entries.filter (·.table == table)) :
          LastInsert rows ⟨entry.schema, table, entry.info⟩ := by
        obtain ⟨known, tableEq⟩ := List.mem_filter.mp found
        rw [← beq_iff_eq.mp tableEq]
        exact (keeps.mem_iff entry).mp known
      have card := List.toFinset_card_of_nodup distinct
      rw [← holdersEq, List.length_map] at card
      rw [resolve]
      generalize catalog.entries.filter (·.table == table) = found at *
      match found with
      | [] => exact .nowhere holdersEq
      | [entry] => exact .once holdersEq (member entry (.head _))
      | first :: second :: others =>
          dsimp only
          rw [← card]
          exact .several (by rw [card]; simp)

theorem Keeps.fits (keeps : catalog.Keeps rows) : catalog.view.Fits rows where
  get? _ _ _ := keeps.get?_eq_some_iff
  size := keeps.size_eq
  isEmpty := List.isEmpty_iff.trans keeps.entries_eq_nil_iff
  singleSchema? schema := by
    have all := keeps.forall_schema_iff (· = schema)
    exact singleSchema?_eq_some_iff.trans
      (and_congr keeps.entries_eq_nil_iff.not all)
  resolve schema table found :=
    ⟨fun same => same ▸ keeps.resolves schema table,
      fun resolves => (keeps.resolves schema table).unique resolves⟩

end Catalog

end SqlDump
