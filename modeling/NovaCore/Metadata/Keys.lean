import NovaCore.Metadata.Ops

/-!
# Records and their keys

A database, a table or a dynamic table is stored under its own identifier.  Scans come in key order,
so a lookup by name finds the record with the least identifier, and it is the identifier of that
record that is looked at next.

## Main definitions

* `OMap.Keyed` : every value is stored under its own key.
* `Catalog.Keyed` : the records of a catalogue are.
-/

namespace NovaCore

namespace OMap

variable {β : Type}

/-- Every value is stored under its own key. -/
def Keyed (key : β → ℕ) (m : OMap β) : Prop := ∀ (k : ℕ) (b : β), m[k]? = some b → key b = k

variable {key : β → ℕ} {m : OMap β}

theorem Keyed.empty : Keyed key (∅ : OMap β) := fun k b h => by simp at h

theorem Keyed.insert (h : Keyed key m) (b : β) : Keyed key (m.insert (key b) b) := by
  intro k c hc
  rw [Std.ExtTreeMap.getElem?_insert] at hc
  split_ifs at hc with hk
  · cases hc
    simpa using hk
  · exact h k c hc

theorem Keyed.pairwise_scanAll (h : Keyed key m) : m.scanAll.Pairwise fun a b => key a < key b := by
  unfold scanAll
  rw [List.pairwise_map]
  refine (Std.ExtTreeMap.ordered_keys_toList).imp_of_mem fun {a b} ha hb hlt => ?_
  rw [h a.1 a.2 (Std.ExtTreeMap.mem_toList_iff_getElem?_eq_some.1 ha),
    h b.1 b.2 (Std.ExtTreeMap.mem_toList_iff_getElem?_eq_some.1 hb)]
  exact compare_lt_iff_lt.1 hlt

end OMap

/-- Databases, tables and dynamic tables are stored under their identifiers, tables in the schema
that they name. -/
structure Catalog.Keyed (cat : Catalog) : Prop where
  databases : OMap.Keyed DatabaseMeta.id cat.databases
  tables : ∀ dbId schemaId, OMap.Keyed TableMeta.id (cat.tables dbId schemaId)
  scope : ∀ dbId schemaId (k : ℕ) t, (cat.tables dbId schemaId)[k]? = some t →
    t.dbId = dbId ∧ t.schemaId = schemaId
  dynamicTables : OMap.Keyed DynamicTableMeta.id cat.dynamicTables

theorem keyed_emptyCatalog : emptyCatalog.Keyed where
  databases := OMap.Keyed.empty
  tables _ _ := OMap.Keyed.empty
  scope _ _ k t h := by simp [emptyCatalog] at h
  dynamicTables := OMap.Keyed.empty

end NovaCore
