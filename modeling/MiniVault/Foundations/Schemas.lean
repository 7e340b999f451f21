import Mathlib.Data.List.Induction
import Mathlib.Data.Option.Basic

/-!
# Scripts that create a schema

A script of `CREATE TABLE IF NOT EXISTS` and `CREATE INDEX IF NOT EXISTS` statements is run
on whatever schema there is. Each statement does nothing where its object exists, and fails
where the name is taken by something else, or the table or the column of an index is missing.
Names are compared as SQLite compares them, without regard to the case of the letters.

## What is proved

* `Ddl.execAll_present`, `Ddl.execAll_of_present` — a script that was run leaves all its objects,
  and run again it does nothing.
* `Ddl.execAll_resume` — a script that was stopped ends, when it is run from the start, where it
  would have ended.
* `Ddl.execAll_iff` — a script in which every table comes before its indexes can be run on a schema
  exactly when no name is taken and no column of an index is missing in a table there already is.
-/

namespace MiniVault.Foundations

/-- A table, as far as the statements look at it. -/
structure TableSchema where
  /-- Its name. -/
  name : String
  /-- The names of its columns. -/
  columns : List String
  deriving DecidableEq

/-- What there is in a database. -/
structure Schema where
  /-- The tables. -/
  tables : List TableSchema
  /-- The names of the indexes. -/
  indexes : List String
  deriving DecidableEq

/-- The schema of an empty file. -/
def Schema.empty : Schema := ⟨[], []⟩

/-- A statement. -/
inductive Ddl where
  /-- `CREATE TABLE IF NOT EXISTS`. -/
  | createTable (table : TableSchema)
  /-- `CREATE INDEX IF NOT EXISTS name ON table(column)`. -/
  | createIndex (name table column : String)
  deriving DecidableEq

/-- A name without the case of its letters. -/
def folded (name : String) : List Char := name.toList.map Char.toLower

/-- The table has the column. -/
def TableSchema.hasColumn (t : TableSchema) (column : String) : Bool :=
  t.columns.any fun c => folded c = folded column

/-- The table with a name, among others. -/
def findTable (tables : List TableSchema) (name : String) : Option TableSchema :=
  tables.find? fun t => folded t.name = folded name

namespace Schema

/-- The table with a name. -/
def table? (schema : Schema) (name : String) : Option TableSchema := findTable schema.tables name

/-- There is an index with the name. -/
def hasIndex (schema : Schema) (name : String) : Bool := schema.indexes.any fun i => folded i = folded name

end Schema

namespace Ddl

/-- What a statement makes of a schema; nothing where it fails. -/
def exec (schema : Schema) : Ddl → Option Schema
  | .createTable t =>
    if (schema.table? t.name).isSome then some schema
    else if schema.hasIndex t.name then none
    else some { schema with tables := schema.tables ++ [t] }
  | .createIndex name table column =>
    match schema.table? table with
    | none => none
    | some t =>
      if (schema.table? name).isSome then none
      else if schema.hasIndex name then some schema
      else if t.hasColumn column then some { schema with indexes := schema.indexes ++ [name] }
      else none

/-- What a script makes of a schema; nothing where one of its statements fails. -/
def execAll (script : List Ddl) (schema : Schema) : Option Schema := script.foldlM exec schema

/-- What the statement creates is there. -/
def Present (schema : Schema) : Ddl → Prop
  | .createTable t => (schema.table? t.name).isSome
  | .createIndex name table _ =>
    (schema.table? table).isSome ∧ schema.table? name = none ∧ schema.hasIndex name = true

variable {schema schema' : Schema} {d d' : Ddl} {script : List Ddl}

/-! ### One statement -/

theorem findTable_append (tables : List TableSchema) (t : TableSchema) (name : String) :
    findTable (tables ++ [t]) name =
      (findTable tables name).or (if folded t.name = folded name then some t else none) := by
  unfold findTable
  rw [List.find?_append, List.find?_singleton]
  simp only [decide_eq_true_eq]

/-- **What a statement does**: its object exists, and it does nothing; or the name is free and it
creates it. -/
theorem exec_cases (h : exec schema d = some schema') :
    (Present schema d ∧ schema' = schema) ∨
      (∃ t, d = .createTable t ∧ schema.table? t.name = none ∧ schema.hasIndex t.name = false ∧
        schema' = { schema with tables := schema.tables ++ [t] }) ∨
      ∃ name table column t, d = .createIndex name table column ∧ schema.table? table = some t ∧
        schema.table? name = none ∧ t.hasColumn column = true ∧
        schema' = { schema with indexes := schema.indexes ++ [name] } := by
  cases d with
  | createTable t =>
    simp only [exec] at h
    split_ifs at h with htable hindex
    · exact .inl ⟨htable, (Option.some.inj h).symm⟩
    · exact .inr (.inl ⟨t, rfl, by simpa using htable, by simpa using hindex, (Option.some.inj h).symm⟩)
  | createIndex name table column =>
    simp only [exec] at h
    split at h
    · cases h
    · next t ht =>
      split_ifs at h with hname hindex hcolumn
      · exact .inl ⟨⟨by rw [ht]; rfl, by simpa using hname, hindex⟩, (Option.some.inj h).symm⟩
      · exact .inr (.inr ⟨name, table, column, t, rfl, ht, by simpa using hname, hcolumn, (Option.some.inj h).symm⟩)

/-- A statement whose object exists does nothing. -/
theorem exec_of_present (h : Present schema d) : exec schema d = some schema := by
  cases d with
  | createTable t => exact if_pos h
  | createIndex name table column =>
    obtain ⟨htable, hname, hindex⟩ := h
    obtain ⟨t, ht⟩ := Option.isSome_iff_exists.mp htable
    simp [exec, ht, hname, hindex]

/-- A table stays as it is. -/
theorem exec_table? (h : exec schema d = some schema') {name : String} {t : TableSchema}
    (ht : schema.table? name = some t) : schema'.table? name = some t := by
  rcases exec_cases h with ⟨-, rfl⟩ | ⟨new, -, -, -, rfl⟩ | ⟨_, _, _, _, -, -, -, -, rfl⟩
  · exact ht
  · show findTable (schema.tables ++ [new]) name = some t
    rw [findTable_append, show findTable schema.tables name = some t from ht, Option.some_or]
  · exact ht

/-- A statement leaves its object. -/
theorem exec_present (h : exec schema d = some schema') : Present schema' d := by
  rcases exec_cases h with ⟨hpresent, rfl⟩ | ⟨t, rfl, -, -, rfl⟩ | ⟨name, table, column, t, rfl, ht, hname, -, rfl⟩
  · exact hpresent
  · show (findTable (schema.tables ++ [t]) t.name).isSome
    rw [findTable_append, if_pos rfl]
    simp
  · exact ⟨Option.isSome_iff_exists.mpr ⟨t, ht⟩, hname, by simp [Schema.hasIndex]⟩

/-- No later statement takes an object away. -/
theorem Present.exec (hpresent : Present schema d) (h : exec schema d' = some schema') : Present schema' d := by
  have hindexes : ∀ name, schema.hasIndex name = true → schema'.hasIndex name = true := by
    intro name hname
    rcases exec_cases h with ⟨-, rfl⟩ | ⟨_, -, -, -, rfl⟩ | ⟨_, _, _, _, -, -, -, -, rfl⟩
    · exact hname
    · exact hname
    · simp only [Schema.hasIndex, List.any_append, Bool.or_eq_true]
      exact .inl hname
  have htables : ∀ name, (schema.table? name).isSome → (schema'.table? name).isSome := by
    intro name hname
    obtain ⟨t, ht⟩ := Option.isSome_iff_exists.mp hname
    rw [exec_table? h ht]
    rfl
  cases d with
  | createTable t => exact htables _ hpresent
  | createIndex name table column =>
    obtain ⟨htable, hname, hindex⟩ := hpresent
    refine ⟨htables _ htable, ?_, hindexes _ hindex⟩
    rcases exec_cases h with ⟨-, rfl⟩ | ⟨new, rfl, -, hfree, rfl⟩ | ⟨_, _, _, _, -, -, -, -, rfl⟩
    · exact hname
    · -- the new table cannot have the name, which an index has
      show findTable (schema.tables ++ [new]) name = none
      rw [findTable_append, show findTable schema.tables name = none from hname, if_neg, Option.or_none]
      intro heq
      simp only [Schema.hasIndex, heq] at hfree hindex
      rw [hfree] at hindex
      cases hindex
    · exact hname

/-! ### A script -/

@[simp] theorem execAll_nil (schema : Schema) : execAll [] schema = some schema := rfl

theorem execAll_cons : execAll (d :: script) schema = (exec schema d).bind (execAll script) := rfl

theorem execAll_append (script more : List Ddl) (schema : Schema) :
    execAll (script ++ more) schema = (execAll script schema).bind (execAll more) := List.foldlM_append

theorem Present.execAll (hpresent : Present schema d) (h : execAll script schema = some schema') :
    Present schema' d := by
  induction script generalizing schema with
  | nil => rwa [← Option.some.inj h]
  | cons e script ih =>
    obtain ⟨mid, hmid, hrest⟩ := Option.bind_eq_some_iff.mp h
    exact ih (hpresent.exec hmid) hrest

/-- **A script leaves all its objects.** -/
theorem execAll_present (h : execAll script schema = some schema') : ∀ d ∈ script, Present schema' d := by
  induction script generalizing schema with
  | nil => simp
  | cons e script ih =>
    obtain ⟨mid, hmid, hrest⟩ := Option.bind_eq_some_iff.mp h
    exact List.forall_mem_cons.mpr ⟨(exec_present hmid).execAll hrest, ih hrest⟩

/-- **A script whose objects exist does nothing.** -/
theorem execAll_of_present (h : ∀ d ∈ script, Present schema d) : execAll script schema = some schema := by
  induction script with
  | nil => rfl
  | cons e script ih =>
    obtain ⟨he, hrest⟩ := List.forall_mem_cons.mp h
    rw [execAll_cons, exec_of_present he]
    exact ih hrest

/-- **A script that was stopped ends, run from the start, where it would have ended**, and up to any
statement it has come where it had been. -/
theorem execAll_resume {before after : List Ddl} (h : execAll before schema = some schema') :
    execAll (before ++ after) schema' = execAll (before ++ after) schema := by
  rw [execAll_append, execAll_append, execAll_of_present (execAll_present h), h]

/-! ### Which schemas a script can be run on -/

/-- The statement is at odds with nothing in the schema. -/
def Fits (schema : Schema) : Ddl → Prop
  | .createTable t => schema.table? t.name = none → schema.hasIndex t.name = false
  | .createIndex name table column =>
    schema.table? name = none ∧
      (schema.hasIndex name = true ∨ ∀ t, schema.table? table = some t → t.hasColumn column = true)

instance (schema : Schema) : DecidablePred (Fits schema) := fun d =>
  match d with
  | .createTable t => inferInstanceAs (Decidable (schema.table? t.name = none → schema.hasIndex t.name = false))
  | .createIndex name table column =>
    inferInstanceAs (Decidable (schema.table? name = none ∧
      (schema.hasIndex name = true ∨ ∀ t ∈ schema.table? table, t.hasColumn column = true)))

/-- The tables a script creates. -/
def newTables (script : List Ddl) : List TableSchema :=
  script.filterMap fun d => match d with | .createTable t => some t | _ => none

/-- The names of the indexes it creates. -/
def newIndexes (script : List Ddl) : List String :=
  script.filterMap fun d => match d with | .createIndex name _ _ => some name | _ => none

/-- The statement may follow the script: its name is new, and its table was created, with the
column. -/
def Follows (before : List Ddl) : Ddl → Prop
  | .createTable t =>
    findTable (newTables before) t.name = none ∧ ∀ i ∈ newIndexes before, folded i ≠ folded t.name
  | .createIndex name table column =>
    findTable (newTables before) name = none ∧ (∀ i ∈ newIndexes before, folded i ≠ folded name) ∧
      ∃ t, findTable (newTables before) table = some t ∧ t.hasColumn column = true

/-- Every statement of the script may follow those before it. -/
def Ordered (script : List Ddl) : Prop :=
  ∀ before d after, script = before ++ d :: after → Follows before d

/-- **What a script that was run has created**: the tables and the indexes that were not there. -/
structure Created (script : List Ddl) (schema schema' : Schema) : Prop where
  /-- The tables. -/
  table : ∀ name, schema'.table? name = (schema.table? name).or (findTable (newTables script) name)
  /-- The indexes. -/
  index : ∀ name, schema'.hasIndex name =
    (schema.hasIndex name || (newIndexes script).any fun i => folded i = folded name)

/-- **One statement more.** Where the script has run, a statement that may follow it can be run exactly
when it is at odds with nothing that was there before. -/
theorem Created.exec (h : Created script schema schema') (hfollows : Follows script d) :
    ((exec schema' d).isSome ↔ Fits schema d) ∧
      ∀ schema'', exec schema' d = some schema'' → Created (script ++ [d]) schema schema'' := by
  cases d with
  | createTable t =>
    obtain ⟨hnew, hindexes⟩ := hfollows
    have htable : schema'.table? t.name = schema.table? t.name := by rw [h.table, hnew, Option.or_none]
    have hindex : schema'.hasIndex t.name = schema.hasIndex t.name := by
      rw [h.index, List.any_eq_false.mpr (by simpa using hindexes), Bool.or_false]
    have hnewTables : newTables (script ++ [.createTable t]) = newTables script ++ [t] := by simp [newTables]
    have hnewIndexes : newIndexes (script ++ [.createTable t]) = newIndexes script := by simp [newIndexes]
    refine ⟨?_, fun schema'' hexec => ⟨fun name => ?_, fun name => ?_⟩⟩
    · simp only [Ddl.exec, htable, hindex, Fits]
      cases schema.table? t.name <;> cases schema.hasIndex t.name <;> simp
    · rw [hnewTables, findTable_append, ← Option.or_assoc, ← h.table]
      simp only [Ddl.exec] at hexec
      split_ifs at hexec with hsome
      · rw [← Option.some.inj hexec]
        split_ifs with hname
        · obtain ⟨old, hold⟩ := Option.isSome_iff_exists.mp hsome
          have heq : schema'.table? name = some old := by
            rw [← hold]
            simp only [Schema.table?, findTable, hname]
          rw [heq, Option.some_or]
        · rw [Option.or_none]
      · rw [← Option.some.inj hexec]
        exact findTable_append _ _ _
    · rw [hnewIndexes, ← h.index]
      simp only [Ddl.exec] at hexec
      split_ifs at hexec <;> rw [← Option.some.inj hexec]
      rfl
  | createIndex name table column =>
    obtain ⟨hnew, hindexes, t, ht, hcolumn⟩ := hfollows
    have hname : schema'.table? name = schema.table? name := by rw [h.table, hnew, Option.or_none]
    have hindex : schema'.hasIndex name = schema.hasIndex name := by
      rw [h.index, List.any_eq_false.mpr (by simpa using hindexes), Bool.or_false]
    have htable : schema'.table? table = some ((schema.table? table).getD t) := by
      rw [h.table, ht]
      cases schema.table? table <;> rfl
    have hnewTables : newTables (script ++ [.createIndex name table column]) = newTables script := by simp [newTables]
    have hnewIndexes : newIndexes (script ++ [.createIndex name table column]) = newIndexes script ++ [name] := by
      simp [newIndexes]
    refine ⟨?_, fun schema'' hexec => ⟨fun other => ?_, fun other => ?_⟩⟩
    · simp only [Ddl.exec, htable, hname, hindex, Fits]
      cases schema.table? name <;> cases schema.hasIndex name <;> cases schema.table? table <;> simp [hcolumn]
    · rw [hnewTables, ← h.table]
      simp only [Ddl.exec, htable] at hexec
      split_ifs at hexec <;> rw [← Option.some.inj hexec]
      rfl
    · rw [hnewIndexes, List.any_append, ← Bool.or_assoc, ← h.index]
      simp only [Ddl.exec, htable] at hexec
      split_ifs at hexec with htaken hthere hcol
      · rw [← Option.some.inj hexec]
        simp only [List.any_cons, List.any_nil, Bool.or_false]
        by_cases heq : folded name = folded other
        · have : schema'.hasIndex other = true := by
            rw [← hthere]
            simp only [Schema.hasIndex, heq]
          simp [this]
        · simp [heq]
      · rw [← Option.some.inj hexec]
        exact List.any_append

/-- What an ordered script comes to, and what it has created. -/
theorem execAll_ordered (hordered : Ordered script) (schema : Schema) :
    ((execAll script schema).isSome ↔ ∀ d ∈ script, Fits schema d) ∧
      ∀ schema', execAll script schema = some schema' → Created script schema schema' := by
  induction script using List.reverseRecOn with
  | nil =>
    refine ⟨by simp, fun schema' h => ?_⟩
    rw [← Option.some.inj h]
    exact ⟨fun name => by simp [newTables, findTable], fun name => by simp [newIndexes]⟩
  | append_singleton script d ih =>
    obtain ⟨hiff, hcreated⟩ := ih fun before e after h => hordered before e (after ++ [d]) (by simp [h])
    have hfollows := hordered script d [] rfl
    have hone : ∀ mid, execAll [d] mid = exec mid d := fun mid => by simp [execAll]
    rw [execAll_append]
    cases hrun : execAll script schema with
    | none =>
      rw [hrun] at hiff
      refine ⟨?_, fun schema' h => by cases h⟩
      simp only [Option.bind_none, Option.isSome_none, Bool.false_eq_true, false_iff] at hiff ⊢
      exact fun h => hiff fun e he => h e (List.mem_append_left _ he)
    | some mid =>
      obtain ⟨hone', hnext⟩ := (hcreated mid hrun).exec hfollows
      rw [hrun] at hiff
      rw [Option.bind_some, hone]
      refine ⟨?_, hnext⟩
      rw [hone']
      simp only [Option.isSome_some, true_iff] at hiff
      simp only [List.mem_append, List.mem_singleton, or_imp, forall_and, forall_eq]
      exact ⟨fun hd => ⟨hiff, hd⟩, fun hd => hd.2⟩

/-- **Which schemas a script can be run on**: those that none of its statements is at odds with. -/
theorem execAll_iff (hordered : Ordered script) (schema : Schema) :
    (execAll script schema).isSome ↔ ∀ d ∈ script, Fits schema d := (execAll_ordered hordered schema).1

theorem execAll_created (hordered : Ordered script) (h : execAll script schema = some schema') :
    Created script schema schema' := (execAll_ordered hordered schema).2 schema' h

instance (before : List Ddl) : DecidablePred (Follows before) := fun d =>
  match d with
  | .createTable t => inferInstanceAs
      (Decidable (findTable (newTables before) t.name = none ∧ ∀ i ∈ newIndexes before, folded i ≠ folded t.name))
  | .createIndex name table column => inferInstanceAs
      (Decidable (findTable (newTables before) name = none ∧ (∀ i ∈ newIndexes before, folded i ≠ folded name) ∧
        ∃ t ∈ findTable (newTables before) table, t.hasColumn column = true))

/-- A script is ordered when each of its places is. -/
theorem Ordered.of_places (h : ∀ i : Fin script.length, Follows (script.take i) (script.get i)) : Ordered script := by
  rintro before d after rfl
  simpa using h ⟨before.length, by simp⟩

end Ddl

end MiniVault.Foundations
