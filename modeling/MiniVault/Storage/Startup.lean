import MiniVault.Auth.Sessions
import MiniVault.Core.Runs
import MiniVault.Core.Sample
import MiniVault.Services.Runs
import MiniVault.Storage.Schema

/-!
# Starts of the program

What a database file is after any number of starts: of builds with different versions, of starts
that were stopped, and of starts with the services at work in between.

## What is proved

* `version_never_decreases` — when a start does not misstate the schema, and that in a run of such
  starts the recorded version never decreases.
* `restart_completes` — after which starts that were stopped another one completes the schema; and that a
  start changes no row where one has completed before, whatever the services have done since.
* `version_decreases_sample`, `restart_refused_sample` — where they do not.
-/

namespace MiniVault

open Foundations

section Startup

variable [Platform]

/-! ### The recorded version -/

omit [Platform] in
/-- The row of the version, where it was replaced. -/
theorem selectMetadata_replaceVersion (db : Database) (value : Value) :
    (db.replaceMetadata versionKey value).selectMetadata versionKey = some ⟨.str versionKey, value⟩ := by
  have hgone : (db.schemaMetadata.filter fun m => !m.key.sqlEq (.str versionKey)).find?
      (fun m => m.key.sqlEq (.str versionKey)) = none := by
    rw [List.find?_eq_none]
    intro m hm
    simpa using (List.mem_filter.mp hm).2
  simp only [Database.selectMetadata, Database.replaceMetadata, List.find?_append, hgone]
  simp

/-- `int(str(version))` is the version. -/
def ReadsBack (version : ℤ) : Prop := ∀ text, intRepr version = .ok text → Platform.intOfText text = some version

/-- A file in which the version was recorded. -/
theorem recorded_of_stamped {version : ℤ} {file : DatabaseFile} {db : Database} (hreads : ReadsBack version)
    (hdigits : (Nat.toDigits 10 version.natAbs).length ≤ 4300)
    (hrows : file.rows = db.replaceMetadata versionKey (.str (decimal version))) :
    file.recorded = some version ∧ file.Stated := by
  have hrow : file.rows.selectMetadata versionKey = some ⟨.str versionKey, .str (decimal version)⟩ := by
    rw [hrows, selectMetadata_replaceVersion]
  have hint : pyInt (.str (decimal version)) = .ok version := by
    have h := hreads (decimal version) (if_pos hdigits)
    simp only [pyInt, h]
  refine ⟨DatabaseFile.recorded_eq_some.mpr ⟨_, hrow, hint⟩, fun row hrow' => ⟨version, ?_⟩⟩
  rw [← Option.some.inj (hrow.symm.trans hrow')]
  exact hint

/-- The version that is recorded later is not smaller. -/
def NotBelow (before after : Option ℤ) : Prop := ∀ s, before = some s → ∃ t, after = some t ∧ s ≤ t

omit [Platform] in
theorem NotBelow.trans {a b c : Option ℤ} (h : NotBelow a b) (h' : NotBelow b c) : NotBelow a c := by
  intro s hs
  obtain ⟨t, ht, hst⟩ := h s hs
  obtain ⟨u, hu, htu⟩ := h' t ht
  exact ⟨u, hu, hst.trans htu⟩

/-- The guard changes nothing. -/
theorem guardLegacySchema_keeps {γ : Type} (f : OpenDatabase → γ) (version : ℤ) :
    (guardLegacySchema version).Sat (fun _ => True) fun _ c c' => f c' = f c := by
  refine .bind (.look fun _ _ => rfl) fun existing => .ite (fun _ => .done _) fun _ => .ite (fun _ => .done _) fun _ =>
    .bind (.look fun _ _ => rfl) fun row => ?_
  cases row with
  | none => exact .done _
  | some row => exact .bind (.done _) fun recorded => .ite (fun _ => .done _) fun _ => .done _

/-- On a file without versioned tables, the guard is one statement and lets it pass. -/
theorem guardLegacySchema_unversioned (version : ℤ) {file : DatabaseFile} (h : file.versioned = false) :
    (guardLegacySchema version).run ⟨file, file⟩ = (.ok (), ⟨file, file⟩) ∧
      (guardLegacySchema version).steps ⟨file, file⟩ = 1 := by
  have hnames : (Prog.look () fun c : OpenDatabase => .ok c.seen.tableNames : Startup (List String)).run ⟨file, file⟩ =
      (.ok file.tableNames, ⟨file, file⟩) := rfl
  have hall : (file.tableNames.all fun name => !versionedTables.contains name) = true := by
    rw [DatabaseFile.versioned, List.any_eq_not_all_not, Bool.not_eq_false'] at h
    exact h
  unfold guardLegacySchema
  rw [Prog.run_bind_ok hnames, Prog.steps_bind_ok hnames, if_pos hall]
  exact ⟨rfl, rfl⟩

/-- **A start on a file without versioned tables that is stopped**: before its last statement it has run so many
statements of the script as came before the stop; behind it, it was not stopped. -/
theorem stoppedOn_unversioned {version : ℤ} {file : DatabaseFile} (hversioned : file.versioned = false)
    (hrunnable : file.Runnable version) (n : ℕ) :
    if n < databaseSchema.length + 3 then
      (stoppedOn version n file).rows = file.rows ∧
        Ddl.execAll (databaseSchema.take (n - 1)) file.schema = some (stoppedOn version n file).schema
    else stoppedOn version n file = (startOn version file).2 := by
  obtain ⟨hguard, hguardSteps⟩ := guardLegacySchema_unversioned version hversioned
  obtain ⟨mid, hmidRows, ⟨hall, hscript, hscriptSteps⟩ | ⟨hall, -⟩⟩ := run_executescript file databaseSchema
  swap
  · have hsome := (Ddl.execAll_iff databaseSchema_ordered file.schema).mpr hrunnable.1
    rw [hall] at hsome
    cases hsome
  have hholds := (DatabaseFile.holdsMetadata_execAll hall).mpr hrunnable.2.1
  obtain ⟨stamped, hreplace, -, -⟩ := DatabaseFile.replaceVersion_ok hholds (decimal version)
  have hrepr : intRepr version = .ok (decimal version) := if_pos hrunnable.2.2
  have hstamp : (stampVersion version).run ⟨mid, mid⟩ = (.ok (), ⟨mid, stamped⟩) := by
    rw [stampVersion, Prog.run_attempt]
    simp only [hrepr, ok_bind, hreplace, pure_eq_ok]
  have hstampSteps : (stampVersion version).steps ⟨mid, mid⟩ = 1 := rfl
  have hbody : (initializeBody version).run ⟨file, file⟩ = (.ok (), ⟨stamped, stamped⟩) := by
    unfold initializeBody
    rw [Prog.run_bind_ok hguard, Prog.run_bind_ok hscript, Prog.run_bind_ok hstamp]
    rfl
  have hsteps : (initializeBody version).steps ⟨file, file⟩ = databaseSchema.length + 3 := by
    unfold initializeBody
    rw [Prog.steps_bind_ok hguard, Prog.steps_bind_ok hscript, Prog.steps_bind_ok hstamp, hguardSteps, hscriptSteps,
      hstampSteps]
    rfl
  unfold stoppedOn initializeDatabase
  rw [Prog.stopAfter_handle hbody]
  split_ifs with hn
  · unfold initializeBody
    rcases Nat.lt_or_ge 1 n with hn₁ | hn₁
    · rw [Prog.stopAfter_bind_ok hguard (by omega), hguardSteps]
      rcases Nat.le_total (n - 1) databaseSchema.length with hn₂ | hn₂
      · rw [Prog.stopAfter_bind_le (by rw [hscriptSteps]; exact hn₂)]
        obtain ⟨file', hrows', hall', hstop⟩ := stopAfter_executescript hall (n - 1)
        rw [hstop]
        exact ⟨hrows', hall'⟩
      · -- the row of the version is inserted, or is not yet; it is not committed
        rw [Prog.stopAfter_bind_ok hscript (by omega), hscriptSteps, Prog.stopAfter_bind_le (by rw [hstampSteps]; omega),
          List.take_of_length_le hn₂]
        have hdisk := Prog.stopAfter_frame OpenDatabase.disk (p := stampVersion version)
          (.attempt (fun c u c' _ hc => by
            simp only [bind_eq_ok] at hc
            obtain ⟨_, -, _, -, hc⟩ := hc
            rw [← (Prod.mk.inj (Except.ok.inj hc)).2]) fun _ _ => rfl) (n - 1 - databaseSchema.length) ⟨mid, mid⟩
        rw [hdisk]
        exact ⟨hmidRows, hall⟩
    · rw [Prog.stopAfter_bind_le (by omega)]
      have hdisk := Prog.stopAfter_frame OpenDatabase.disk (guardLegacySchema_keeps _ version) n ⟨file, file⟩
      rw [hdisk, Nat.sub_eq_zero_of_le hn₁]
      exact ⟨rfl, rfl⟩
  · rw [Prog.stopAfter_of_le (by omega), hbody, DatabaseFile.startOn_of_ok hbody rfl]

/-- A start that stays where it is, wherever it is stopped. -/
theorem stoppedOn_of_sat {version : ℤ} {file : DatabaseFile}
    (h : (initializeBody version).Sat (· = ⟨file, file⟩) fun _ _ c' => c' = ⟨file, file⟩) (n : ℕ) :
    stoppedOn version n file = file := by
  have hall : (initializeDatabase version).Sat (· = ⟨file, file⟩) fun _ _ c' => c' = ⟨file, file⟩ :=
    .handle h fun e => .bind (.change fun c hc => by rw [hc]) fun _ => .done _
  unfold stoppedOn
  rw [Prog.stopAfter_invariant hall n rfl]

theorem guardLegacySchema_stays (version : ℤ) (c : OpenDatabase) :
    (guardLegacySchema version).Sat (· = c) fun _ _ c' => c' = c :=
  (guardLegacySchema_keeps (fun c => c) version).stays c

/-- **A start on a file that the guard refuses** leaves it as it is, wherever it is stopped. -/
theorem stoppedOn_of_refuses {version : ℤ} {file : DatabaseFile} (hstated : file.Stated) (h : file.Refuses version)
    (n : ℕ) : stoppedOn version n file = file := by
  refine stoppedOn_of_sat (.bind_yields (P := fun _ => False) (guardLegacySchema_stays version _) ?_ fun _ h => h.elim) n
  apply Prog.yields_of_run (guardLegacySchema_stays version _)
  intro u hu
  rcases DatabaseFile.run_guard hstated version (c := ⟨file, file⟩) rfl with ⟨haccepts, -⟩ | ⟨-, hrun⟩ | ⟨-, hnot, -⟩
  · rcases haccepts with hnot | ⟨hname, s, hs, hle⟩
    · rw [h.1] at hnot
      cases hnot
    · exact absurd ((h.2 hname).2 s hs) (not_lt_of_ge hle)
  · rw [hrun] at hu
    cases hu
  · exact hnot h

/-- **A start on a file that is complete** leaves it as it is, wherever it is stopped. -/
theorem stoppedOn_of_complete {version : ℤ} {file : DatabaseFile} (hpresent : ∀ d ∈ databaseSchema, d.Present file.schema)
    (hstamp : ∀ text, intRepr version = .ok text → file.replaceVersion text = .ok file) (n : ℕ) :
    stoppedOn version n file = file := by
  refine stoppedOn_of_sat (.bind (guardLegacySchema_stays version _) fun _ => .bind ?_ fun _ => .bind
    (.attempt (fun c u c' hc hrun => ?_) fun _ h => h) fun _ => .change fun c hc => by rw [hc]) n
  · have hscript : ∀ script : List Ddl, (∀ d ∈ script, d.Present file.schema) →
        (executescript script).Sat (· = ⟨file, file⟩) fun _ _ c' => c' = ⟨file, file⟩ := by
      intro script
      induction script with
      | nil => exact fun _ => .done _
      | cons d script ih =>
        intro hscript
        obtain ⟨hd, hrest⟩ := List.forall_mem_cons.mp hscript
        refine .bind (.attempt (fun c u c' hc hrun => ?_) fun _ h => h) fun _ => ih hrest
        have hcreate : file.create d = .ok file := DatabaseFile.create_eq_ok.mpr ⟨Ddl.exec_of_present hd, rfl⟩
        rw [hc, hcreate] at hrun
        exact (Prod.mk.inj (Except.ok.inj hrun)).2.symm
    exact hscript databaseSchema hpresent
  · simp only [bind_eq_ok, hc] at hrun
    obtain ⟨text, htext, file', hreplace, hrun⟩ := hrun
    obtain rfl := Except.ok.inj ((hstamp text htext).symm.trans hreplace)
    exact (Prod.mk.inj (Except.ok.inj hrun)).2.symm

/-! ### From an empty file -/

/-- The statement creates a table whose shape has changed. -/
def createsVersioned : Ddl → Bool
  | .createTable t => versionedTables.contains t.name
  | .createIndex .. => false

/-- A start that is stopped after `n` statements, of which the first is the guard's, has created such a
table. -/
def getsToVersioned (n : ℕ) : Bool := (databaseSchema.take (n - 1)).any createsVersioned

/-- A start that is stopped after `n` statements was not stopped: behind the guard there are the script, the row of
the version and the commit. -/
def RunsToEnd (n : ℕ) : Prop := databaseSchema.length + 3 ≤ n

instance : DecidablePred RunsToEnd := fun n => inferInstanceAs (Decidable (_ ≤ n))

/-- What the starts leave that were stopped after so many statements, on an empty file. -/
def stopped (stops : List ℕ) : DatabaseFile :=
  stops.foldl (fun file n => stoppedOn schemaVersion n file) .empty

/-- The file has the whole schema. -/
def FullSchema (file : DatabaseFile) : Prop := Ddl.execAll databaseSchema .empty = some file.schema

/-- A start succeeds, and leaves the whole schema with the version recorded. -/
def Completes (file : DatabaseFile) : Prop :=
  ∃ file', startOn schemaVersion file = (.ok (), file') ∧ FullSchema file' ∧ file'.recorded = some schemaVersion

/-- The first statements of the script have run, on an empty file. -/
structure Begun (k : ℕ) (file : DatabaseFile) : Prop where
  /-- What they create is there. -/
  schema : Ddl.execAll (databaseSchema.take k) .empty = some file.schema
  /-- There are no rows. -/
  rows : file.rows = DatabaseFile.empty.rows

/-- `initialize` has completed, and nothing has happened since. -/
structure Finished (file : DatabaseFile) : Prop where
  /-- The schema is whole. -/
  schema : FullSchema file
  /-- The row of the version is the only one. -/
  rows : file.rows = .fresh

namespace Begun

variable {k : ℕ} {file : DatabaseFile}

omit [Platform] in
/-- The table names that a part of the script creates. -/
theorem versioned_prefix : ∀ k < databaseSchema.length + 1,
    (Ddl.execAll (databaseSchema.take k) .empty).map (fun schema =>
      (schema.tables.map TableSchema.name).any versionedTables.contains) =
        some ((databaseSchema.take k).any createsVersioned) := by
  decide +kernel

omit [Platform] in
/-- There is a versioned table exactly when a statement that creates one has run. -/
theorem versioned_eq (h : Begun k file) : file.versioned = (databaseSchema.take k).any createsVersioned := by
  have hprefix := versioned_prefix (min k databaseSchema.length) (by omega)
  rw [← List.take_eq_take_min, h.schema] at hprefix
  exact Option.some.inj hprefix

omit [Platform] in
theorem selectMetadata (h : Begun k file) (key : PyStr) : file.rows.selectMetadata key = none := by
  rw [h.rows]
  rfl

theorem recorded (h : Begun k file) : file.recorded = none := by
  rw [DatabaseFile.recorded, h.selectMetadata]
  rfl

theorem stated (h : Begun k file) : file.Stated := by
  intro row hrow
  rw [h.selectMetadata] at hrow
  cases hrow

omit [Platform] in
/-- The whole script ends in the whole schema from wherever it had come. -/
theorem execAll_take (h : Begun k file) (m : ℕ) : Ddl.execAll (databaseSchema.take m) file.schema =
    Ddl.execAll (databaseSchema.take (max k m)) .empty := by
  rcases Nat.le_total k m with hkm | hmk
  · rw [Nat.max_eq_right hkm]
    have hsplit : databaseSchema.take m = databaseSchema.take k ++ (databaseSchema.drop k).take (m - k) := by
      rw [← List.take_add, Nat.add_sub_cancel' hkm]
    rw [hsplit]
    exact Ddl.execAll_resume h.schema
  · rw [Nat.max_eq_left hmk, h.schema]
    refine Ddl.execAll_of_present fun d hd => Ddl.execAll_present h.schema d ?_
    exact (List.take_subset_take_left databaseSchema hmk) hd

omit [Platform] in
theorem runnable (h : Begun k file) : file.Runnable schemaVersion := by
  have hall : Ddl.execAll databaseSchema file.schema =
      Ddl.execAll (databaseSchema.take (max k databaseSchema.length)) .empty := by
    conv_lhs => rw [← List.take_length (l := databaseSchema)]
    exact h.execAll_take _
  rw [List.take_of_length_le (Nat.le_max_right k _)] at hall
  have hwhole : (Ddl.execAll databaseSchema .empty).map holdsMetadata = some true := by decide +kernel
  obtain ⟨full, hfull, hholds⟩ := Option.map_eq_some_iff.mp hwhole
  rw [hfull] at hall
  exact ⟨(Ddl.execAll_iff databaseSchema_ordered file.schema).mp (by rw [hall]; rfl),
    (DatabaseFile.holdsMetadata_execAll hall).mp hholds, by decide⟩

omit [Platform] in
theorem holdsMetadata_prefix : ∀ k < databaseSchema.length + 1,
    (Ddl.execAll (databaseSchema.take k) .empty).map (fun schema =>
      !(schema.tables.map TableSchema.name).any versionedTables.contains || holdsMetadata schema) = some true := by
  decide +kernel

/-- **A start that was stopped behind a versioned table** leaves a file that is refused for good. -/
theorem refuses (h : Begun k file) (hversioned : file.versioned = true) : file.Refuses schemaVersion := by
  have hprefix := holdsMetadata_prefix (min k databaseSchema.length) (by omega)
  rw [← List.take_eq_take_min, h.schema] at hprefix
  have hholds := Option.some.inj hprefix
  have hnames : (file.schema.tables.map TableSchema.name).any versionedTables.contains = true := hversioned
  dsimp only at hholds
  rw [hnames, Bool.not_true, Bool.false_or] at hholds
  refine ⟨hversioned, fun _ => ⟨hholds, fun s hs => ?_⟩⟩
  rw [h.recorded] at hs
  cases hs

/-- **A start on a file without such a table** completes. -/
theorem start (h : Begun k file) (hversioned : file.versioned = false) :
    ∃ file', startOn schemaVersion file = (.ok (), file') ∧ Finished file' := by
  obtain ⟨file', ⟨-, hstart, hall, hrows⟩ | ⟨hnot, -⟩⟩ := DatabaseFile.startOn_of_accepts h.stated (.inl hversioned)
  · refine ⟨file', hstart, ?_, ?_⟩
    · have htake := h.execAll_take databaseSchema.length
      rw [List.take_length, List.take_of_length_le (Nat.le_max_right k _), hall] at htake
      exact htake.symm
    · rw [hrows, h.rows]
      rfl
  · exact absurd h.runnable hnot

end Begun

namespace Finished

variable {file : DatabaseFile}

omit [Platform] in
theorem present (h : Finished file) : ∀ d ∈ databaseSchema, d.Present file.schema := Ddl.execAll_present h.schema

omit [Platform] in
theorem tables (h : Finished file) : metadataTable ∈ file.tableNames ∧ holdsMetadata file.schema = true := by
  have hwhole : (Ddl.execAll databaseSchema .empty).map (fun schema =>
      (schema.tables.map TableSchema.name).contains metadataTable && holdsMetadata schema) = some true := by decide +kernel
  rw [h.schema] at hwhole
  simpa [DatabaseFile.tableNames] using Option.some.inj hwhole

theorem recorded (h : Finished file) (hreads : ReadsBack schemaVersion) :
    file.recorded = some schemaVersion ∧ file.Stated := by
  have hrows : file.rows = DatabaseFile.empty.rows.replaceMetadata versionKey (.str (decimal schemaVersion)) := by
    rw [h.rows]
    rfl
  exact recorded_of_stamped hreads (by decide) hrows

omit [Platform] in
theorem replaceVersion (h : Finished file) {text : PyStr} (htext : intRepr schemaVersion = .ok text) :
    file.replaceVersion text = .ok file := by
  obtain ⟨file', hreplace, hschema, hrows⟩ := DatabaseFile.replaceVersion_ok h.tables.2 text
  rw [hreplace]
  refine congrArg _ (DatabaseFile.ext hschema (hrows.trans ?_))
  obtain rfl : decimal schemaVersion = text := Except.ok.inj ((if_pos (by decide)).symm.trans htext)
  rw [h.rows]
  have hfilter : (Database.fresh.schemaMetadata.filter fun m => !m.key.sqlEq (.str versionKey)) = [] := by decide +kernel
  simp only [Database.replaceMetadata, hfilter]
  rfl

/-- It stays as it is, wherever a start is stopped. -/
theorem stoppedOn (h : Finished file) (n : ℕ) : stoppedOn schemaVersion n file = file :=
  stoppedOn_of_complete h.present (fun _ htext => h.replaceVersion htext) n

/-- Another start completes. -/
theorem completes (h : Finished file) (hreads : ReadsBack schemaVersion) : Completes file := by
  obtain ⟨hrecorded, hstated⟩ := h.recorded hreads
  obtain ⟨file', ⟨hrunnable, hstart, hall, hrows⟩ | ⟨hnot, -⟩⟩ :=
    DatabaseFile.startOn_of_accepts hstated (.inr ⟨h.tables.1, schemaVersion, hrecorded, le_rfl⟩)
  · refine ⟨file', hstart, ?_, (recorded_of_stamped hreads (by decide) hrows).1⟩
    rw [Ddl.execAll_of_present h.present] at hall
    rw [FullSchema, ← Option.some.inj hall]
    exact h.schema
  · have hall := Ddl.execAll_of_present h.present
    exact absurd ⟨(Ddl.execAll_iff databaseSchema_ordered file.schema).mp (by rw [hall]; rfl),
      (DatabaseFile.holdsMetadata_execAll hall).mp h.tables.2, by decide⟩ hnot

end Finished

omit [Platform] in
theorem any_take_max (p : Ddl → Bool) (script : List Ddl) (a b : ℕ) :
    (script.take (max a b)).any p = ((script.take a).any p || (script.take b).any p) := by
  have hle : ∀ {m n : ℕ}, m ≤ n → ((script.take m).any p || (script.take n).any p) = (script.take n).any p := by
    intro m n hmn
    cases hm : (script.take m).any p with
    | false => simp
    | true =>
      obtain ⟨d, hd, hpd⟩ := List.any_eq_true.mp hm
      rw [Bool.true_or, eq_comm, List.any_eq_true]
      exact ⟨d, List.take_subset_take_left script hmn hd, hpd⟩
  rcases Nat.le_total a b with hab | hba
  · rw [Nat.max_eq_right hab, hle hab]
  · rw [Nat.max_eq_left hba, Bool.or_comm, hle hba]

/-- **What starts that were stopped leave**: it is decided by the first of them that has created a versioned
table. -/
theorem stopped_cases (stops : List ℕ) :
    match stops.find? getsToVersioned with
    | none => ∃ k, Begun k (stopped stops) ∧ (stopped stops).versioned = false
    | some n => if RunsToEnd n then Finished (stopped stops) else
        ∃ k, Begun k (stopped stops) ∧ (stopped stops).versioned = true := by
  induction stops using List.reverseRecOn with
  | nil => exact ⟨0, ⟨rfl, rfl⟩, rfl⟩
  | append_singleton stops n ih =>
    have hconcat : stopped (stops ++ [n]) = stoppedOn schemaVersion n (stopped stops) := List.foldl_append
    rw [hconcat, List.find?_append, List.find?_singleton]
    cases hfind : stops.find? getsToVersioned with
    | some m =>
      rw [hfind] at ih
      rw [Option.some_or]
      dsimp only at ih ⊢
      split_ifs at ih ⊢ with hm
      · rw [ih.stoppedOn]
        exact ih
      · obtain ⟨k, hbegun, hversioned⟩ := ih
        rw [stoppedOn_of_refuses hbegun.stated (hbegun.refuses hversioned)]
        exact ⟨k, hbegun, hversioned⟩
    | none =>
      rw [hfind] at ih
      obtain ⟨k, hbegun, hversioned⟩ := ih
      rw [Option.none_or]
      have hstop := stoppedOn_unversioned hversioned hbegun.runnable n
      by_cases hn : RunsToEnd n
      · have hgets : getsToVersioned n = true := by
          unfold getsToVersioned
          unfold RunsToEnd at hn
          rw [List.take_of_length_le (by omega)]
          decide +kernel
        rw [if_neg (Nat.not_lt.mpr hn)] at hstop
        obtain ⟨file', hstart, hfinished⟩ := hbegun.start hversioned
        rw [hgets, if_pos rfl, hstop, hstart]
        exact (if_pos hn).mpr hfinished
      · rw [if_pos (Nat.lt_of_not_ge hn)] at hstop
        obtain ⟨hrows, hall⟩ := hstop
        rw [hbegun.execAll_take] at hall
        have hnext : Begun (max k (n - 1)) (stoppedOn schemaVersion n (stopped stops)) := ⟨hall, hrows.trans hbegun.rows⟩
        have hiff : (stoppedOn schemaVersion n (stopped stops)).versioned = getsToVersioned n := by
          rw [hnext.versioned_eq, any_take_max, ← hbegun.versioned_eq, hversioned, Bool.false_or]
          rfl
        cases hgets : getsToVersioned n with
        | true =>
          rw [if_pos rfl]
          exact (if_neg hn).mpr ⟨_, hnext, hiff.trans hgets⟩
        | false =>
          rw [if_neg (by decide)]
          exact ⟨_, hnext, hiff.trans hgets⟩

/-- **When another start completes**: the first start that has created a versioned table ran to its end. -/
theorem completes_iff (hreads : ReadsBack schemaVersion) (stops : List ℕ) :
    Completes (stopped stops) ↔ ∀ n, stops.find? getsToVersioned = some n → RunsToEnd n := by
  have hcases := stopped_cases stops
  cases hfind : stops.find? getsToVersioned with
  | none =>
    rw [hfind] at hcases
    obtain ⟨k, hbegun, hversioned⟩ := hcases
    obtain ⟨file', hstart, hfinished⟩ := hbegun.start hversioned
    exact iff_of_true ⟨file', hstart, hfinished.schema, (hfinished.recorded hreads).1⟩ fun n hn => by cases hn
  | some n =>
    rw [hfind] at hcases
    dsimp only at hcases
    split_ifs at hcases with hn
    · apply iff_of_true (hcases.completes hreads)
      intro m hm
      rwa [← Option.some.inj hm]
    · obtain ⟨k, hbegun, hversioned⟩ := hcases
      refine iff_of_false ?_ fun h => hn (h n rfl)
      rintro ⟨file', hstart, -⟩
      rw [DatabaseFile.startOn_of_refuses hbegun.stated (hbegun.refuses hversioned)] at hstart
      cases (Prod.mk.inj hstart).1

/-! ### The services at work -/

/-- An operation of the program. -/
inductive AppOp where
  /-- Of the vault. -/
  | vault (op : VaultOp)
  /-- Of the key-value store or the named keys; the passphrase is that of `unlock`. -/
  | service (passphrase : PyStr) (op : ServiceOp)
  /-- Of the accounts and sessions. -/
  | auth (op : AuthOp)
  /-- `get_current_user`. -/
  | currentUser (credentials : Option (PyStr × PyStr))
  /-- `AuditRepository.list_for_requester`. -/
  | listAudit (requesterEmail : PyStr) (limit : ℤ)
  /-- `AuditRepository.verify`. -/
  | verifyAudit

/-- Its program. -/
def AppOp.exec : AppOp → Act Unit
  | .vault op => do let _ ← op.exec
  | .service passphrase op => do let _ ← op.exec passphrase
  | .auth op => do let _ ← op.exec
  | .currentUser credentials => do let _ ← getCurrentUser credentials
  | .listAudit requesterEmail limit => do let _ ← AuditRepository.listForRequester requesterEmail limit
  | .verifyAudit => do let _ ← AuditRepository.verify

/-- The rows of the version. -/
def Database.versionRows (db : Database) : List SchemaMetadata :=
  db.schemaMetadata.filter fun m => m.key.sqlEq (.str versionKey)

omit [Platform] in
theorem Database.versionRows_of_logPart {db db' : Database} (h : db'.logPart = db.logPart) :
    db'.versionRows = db.versionRows := by
  simp only [logPart, Prod.mk.injEq] at h
  simp only [versionRows, h.2]

omit [Platform] in
/-- The stored head is under another key. -/
theorem Database.versionRows_replaceHead (db : Database) (value : Value) :
    (db.replaceMetadata AuditRepository.headKey value).versionRows = db.versionRows := by
  have hother : ¬ ((Value.str AuditRepository.headKey).sqlEq (.str versionKey) = true) := by decide +kernel
  rw [Bool.not_eq_true] at hother
  simp only [versionRows, replaceMetadata, List.filter_append, List.filter_filter, List.filter_singleton, hother,
    cond_false, List.append_nil]
  apply List.filter_congr
  intro m _
  cases hversion : m.key.sqlEq (.str versionKey) with
  | false => rfl
  | true =>
    have hkey := (Value.sqlEq_eq_true hversion).1
    rw [hkey, Bool.true_and]
    decide +kernel

/-- Logging leaves the row of the version. -/
theorem AuditRepository.log_keepsVersion (o : Occurrence) : Keeps (fun w => w.db.versionRows) (log o) := by
  refine .bind .now fun now => .connectionDb (.bind (.query _ _) fun head => .bind (.done _) fun sequence =>
    .bind (.done _) fun entryHash => .bind (.execute fun w _ db hins => ?_) fun _ => .execute fun w _ db hrep => ?_)
  · have hins := (limitRow_eq_ok.mp hins).2
    cases hinsert : w.db.insertLog (o.entry sequence now) (previousHash head) (.str entryHash) with
    | error e => simp [hinsert, Except.map] at hins
    | ok db' =>
      simp only [hinsert, Except.map, Except.ok.injEq, Prod.mk.injEq, true_and] at hins
      rw [← hins]
      simp only [Database.insertLog] at hinsert
      split_ifs at hinsert
      · cases hinsert
      · obtain ⟨id, -, hdb⟩ := bind_eq_ok.mp hinsert
        rw [← Except.ok.inj hdb]
        rfl
  · obtain ⟨-, rfl⟩ := Prod.mk.inj (Except.ok.inj hrep)
    exact Database.versionRows_replaceHead _ _

theorem KvService.authorize_keepsVersion (owner path : PyStr) :
    Keeps (fun w => w.db.versionRows) (authorize owner path) :=
  Prog.Sat.ite (fun _ => .bind (AuditRepository.log_keepsVersion _) fun _ => .throw _) fun _ => .pure _

theorem TransitService.ownedKey_keepsVersion (owner name : PyStr) :
    Keeps (fun w => w.db.versionRows) (ownedKey owner name) := by
  refine .bind (Prog.Sat.ite (fun _ => .pure _) fun _ => .throw _) fun _ => .bind (.connectionDb (.query _ _)) fun row => ?_
  cases row with
  | none => exact .bind (AuditRepository.log_keepsVersion _) fun _ => .throw _
  | some r => exact .pure _

/-- An operation of either service leaves what is neither of the records nor of the keys, where its check does. -/
theorem ServiceOp.exec_aside {γ : Type} {f : Database → γ}
    (hrecords : ∀ {db db' : Database}, db'.besideRecords = db.besideRecords → f db' = f db)
    (hkeys : ∀ {db db' : Database}, db'.besideKeys = db.besideKeys → f db' = f db)
    (hauthorize : ∀ owner path, Keeps (fun w => f w.db) (KvService.authorize owner path))
    (hownedKey : ∀ owner name, Keeps (fun w => f w.db) (TransitService.ownedKey owner name)) (passphrase : PyStr)
    (op : ServiceOp) : Keeps (fun w => f w.db) (op.exec passphrase) := by
  cases op with
  | kv op =>
    refine Keeps.bind ?_ fun _ => .pure _
    cases htarget : op.target with
    | none => exact (op.exec_keepsDb passphrase htarget).besideDb
    | some target =>
      obtain ⟨owner, path⟩ := target
      obtain ⟨k, hexec, hk⟩ := op.afterAuthorize passphrase htarget
      rw [hexec]
      exact .bind (hauthorize _ _) fun u => (hk u).ofTables hrecords
  | transit op =>
    refine Keeps.bind ?_ fun _ => .pure _
    cases htarget : op.target with
    | none => exact (op.exec_besideKeys passphrase htarget).ofTables hkeys
    | some target =>
      obtain ⟨owner, name⟩ := target
      obtain ⟨k, hexec, hk⟩ := op.afterOwnedKey passphrase htarget
      rw [hexec]
      exact .bind (hownedKey _ _) fun r => (hk r).ofTables hkeys

/-- An operation of either service leaves the row of the version. -/
theorem ServiceOp.exec_keepsVersion (passphrase : PyStr) (op : ServiceOp) :
    Keeps (fun w => w.db.versionRows) (op.exec passphrase) :=
  op.exec_aside (fun h => Database.versionRows_of_logPart (Database.logPart_of_besideRecords h))
    (fun h => Database.versionRows_of_logPart (Database.logPart_of_besideKeys h)) KvService.authorize_keepsVersion
    TransitService.ownedKey_keepsVersion passphrase

/-- The vault leaves the database. -/
theorem VaultOp.exec_keepsDb (op : VaultOp) : Keeps World.db op.exec := by
  cases op with
  | initializeVault passphrase coins =>
    exact .bind (VaultService.initializeVault_keepsDb passphrase coins) fun _ => .pure _
  | unlock passphrase => exact .bind (VaultService.unlock_keeps fun _ _ => rfl) fun _ => .pure _
  | lock => exact .bind (.bind (.change fun _ => rfl) fun _ => VaultService.status_keeps) fun _ => .pure _
  | restart => exact .bind (.change fun _ => rfl) fun _ => .pure _
  | setEnviron environ => exact .bind (.change fun _ => rfl) fun _ => .pure _

/-! ### The accounts -/

/-- The tables without those of the accounts and the sessions. -/
def Database.besideAccounts (db : Database) : Database := { db with users := .empty, sessions := .empty }

omit [Platform] in
theorem Database.versionRows_of_besideAccounts {db db' : Database} (h : db'.besideAccounts = db.besideAccounts) :
    db'.versionRows = db.versionRows := by
  simp only [besideAccounts, Database.mk.injEq] at h
  simp only [versionRows, h]

/-- The part `f` of the world has nothing of the accounts and the sessions in it. -/
structure BesideAccounts {γ : Type} (f : World → γ) : Prop where
  /-- It is as it was where only their tables have changed. -/
  stays : ∀ (w : World) (db : Database), db.besideAccounts = w.db.besideAccounts → f { w with db := db } = f w
  /-- It is as it was where a transaction is rolled back. -/
  restored : ∀ w w', f w' = f w → f { w' with db := w.db } = f w
  /-- It does not look at the hash of the placeholder. -/
  placeholder : ∀ (w : World) hash, f { w with dummyHash := hash } = f w

omit [Platform] in
theorem besideAccounts_beside : BesideAccounts fun w => w.db.besideAccounts :=
  ⟨fun _ _ h => h, fun _ _ _ => rfl, fun _ _ => rfl⟩

section BesideAccounts

variable {γ : Type} {f : World → γ}

omit [Platform] in
theorem BesideAccounts.connection {α : Type} (hf : BesideAccounts f) {label : Label} {body : Act α} (hb : Keeps f body) :
    Keeps f (MiniVault.connection label body) :=
  .connection hb hf.restored

namespace UserRepository

theorem getByEmail_keeps (email : PyStr) : Keeps f (getByEmail email) := TransitService.reads_keep

omit [Platform] in
/-- A statement that changes the row of an account. -/
theorem updateLogin_keeps (hf : BesideAccounts f) {params : List Value} {id count : ℤ} {lockedUntil : Value} {now : PyStr}
    (label : Label) : Keeps f (connection label (execute params fun db => .ok ((), db.updateLogin count lockedUntil now id))) :=
  hf.connection (.execute fun w _ db h => by
    obtain ⟨-, rfl⟩ := Prod.mk.inj (Except.ok.inj h)
    exact hf.stays _ _ rfl)

omit [Platform] in
theorem resetLoginFailures_keeps (hf : BesideAccounts f) (label : Label) (id : ℤ) : Keeps f (resetLoginFailures label id) :=
  .bind .now fun _ => updateLogin_keeps hf label

omit [Platform] in
theorem updateAfterFailedLogin_keeps (hf : BesideAccounts f) (label : Label) (id count : ℤ) (lockedUntil : Value) :
    Keeps f (updateAfterFailedLogin label id count lockedUntil) :=
  .bind .now fun _ => updateLogin_keeps hf label

theorem create_keeps (hf : BesideAccounts f) (email passwordHash : PyStr) : Keeps f (create email passwordHash) := by
  refine .bind .now fun now => .bind (.mapExc (hf.connection (.execute fun w _ db h => hf.stays _ _ ?_))) fun _ =>
    .bind (getByEmail_keeps _) fun row => ?_
  · cases hinsert : w.db.insertUser (normalizeEmail email) passwordHash now with
    | error e => simp [hinsert, Except.map] at h
    | ok db' =>
      simp only [hinsert, Except.map, Except.ok.injEq, Prod.mk.injEq, true_and] at h
      rw [← h]
      unfold Database.insertUser at hinsert
      split_ifs at hinsert
      · cases hinsert
      · obtain ⟨id, -, hdb⟩ := bind_eq_ok.mp hinsert
        rw [← Except.ok.inj hdb]
        rfl
  · cases row with
    | none => exact .throw _
    | some row => exact .pure _

end UserRepository

namespace SessionRepository

omit [Platform] in
theorem create_keeps (hf : BesideAccounts f) (userId : ℤ) (tokenHash expiresAt : PyStr) :
    Keeps f (create userId tokenHash expiresAt) := by
  refine .bind .now fun now => hf.connection (.execute fun w _ db h => hf.stays _ _ ?_)
  cases hinsert : w.db.insertSession userId tokenHash expiresAt now with
  | error e => simp [hinsert, Except.map] at h
  | ok db' =>
    simp only [hinsert, Except.map, Except.ok.injEq, Prod.mk.injEq, true_and] at h
    obtain ⟨-, id, hdb⟩ := Database.insertSession_eq_ok hinsert
    rw [← h, hdb]
    rfl

omit [Platform] in
theorem revoke_keeps (hf : BesideAccounts f) (tokenHash : PyStr) : Keeps f (revoke tokenHash) := by
  refine .bind .now fun now => hf.connection (.bind (.execute fun w rowcount db h => hf.stays _ _ ?_) fun _ => .pure _)
  obtain ⟨-, rfl⟩ := Prod.mk.inj (Except.ok.inj h)
  rfl

end SessionRepository

theorem hashPassword_keeps (password : PyStr) (salt : Bytes) : Keeps f (hashPassword password salt) :=
  Prog.Sat.ite (fun _ => .throw _) fun _ => Keeps.bind (.look _ _) fun _ => .done _

namespace AuthService

theorem register_keeps (hf : BesideAccounts f) (email passphrase confirmPassphrase : PyStr) (salt : Bytes) :
    Keeps f (register email passphrase confirmPassphrase salt) := by
  refine Prog.Sat.ite (fun _ => .throw _) fun _ => ?_
  cases evaluate passphrase with
  | some issue => exact .throw _
  | none =>
    exact .bind (hashPassword_keeps _ _) fun hash => .bind (UserRepository.create_keeps hf _ _) fun _ => .pure _

theorem passLockout_keeps (hf : BesideAccounts f) (email : PyStr) (user : User) : Keeps f (passLockout email user) := by
  refine Prog.Sat.ite (fun _ => .pure _) fun _ => Keeps.bind (.done _) fun lockedUntil => .bind (.look _ _) fun time =>
    Prog.Sat.ite (fun _ => .throw _) fun _ => .bind (UserRepository.resetLoginFailures_keeps hf _ _) fun _ =>
      .bind (UserRepository.getByEmail_keeps _) fun row => ?_
  cases row with
  | none => exact .throw _
  | some row => exact .pure _

theorem registerFailedAttempt_keeps (hf : BesideAccounts f) (user : User) : Keeps f (registerFailedAttempt user) := by
  refine .bind (.done _) fun count => .bind (.look _ _) fun threshold => Prog.Sat.ite (fun _ => ?_) fun _ =>
    UserRepository.updateAfterFailedLogin_keeps hf _ _ _ _
  exact Keeps.bind (.bind (.look _ _) fun time => .bind (.look _ _) fun minutes => .bind (.done _) fun _ => .pure _)
    fun _ => UserRepository.updateAfterFailedLogin_keeps hf _ _ _ _

theorem dummyHash_keeps (hf : BesideAccounts f) (salt : Bytes) : Keeps f (dummyHash salt) := by
  refine .bind (.look _ _) fun kept => ?_
  cases kept with
  | some hash => exact .pure _
  | none =>
    exact .bind (hashPassword_keeps _ _) fun hash => .bind (.change fun w => hf.placeholder w _) fun _ => .pure _

/-- The accounts and sessions are all that a login changes, and the hash of the placeholder. -/
theorem login_keeps (hf : BesideAccounts f) (email passphrase : PyStr) (coins : LoginCoins) :
    Keeps f (login email passphrase coins) := by
  refine .bind (UserRepository.getByEmail_keeps _) fun user => ?_
  cases user with
  | none => exact .bind (dummyHash_keeps hf _) fun hash => .bind (.look _ _) fun _ => .throw _
  | some user =>
    refine .bind (passLockout_keeps hf _ _) fun user => .bind (.look _ _) fun right =>
      Prog.Sat.ite (fun _ => ?_) fun _ => ?_
    · exact Keeps.bind (registerFailedAttempt_keeps hf _) fun _ => .throw _
    · exact Keeps.bind (UserRepository.resetLoginFailures_keeps hf _ _) fun _ =>
        .bind (.bind (.look _ _) fun time => .bind (.look _ _) fun minutes => .done _) fun expiresAt =>
          .bind (.done _) fun tokenHash => .bind (SessionRepository.create_keeps hf _ _ _) fun _ => .pure _

theorem logout_keeps (hf : BesideAccounts f) (token : PyStr) : Keeps f (logout token) :=
  .bind (.done _) fun _ => .bind (SessionRepository.revoke_keeps hf _) fun _ => .pure _

end AuthService

/-- The question who a token is of changes nothing. -/
theorem getCurrentUser_keeps (credentials : Option (PyStr × PyStr)) : Keeps f (getCurrentUser credentials) := by
  cases credentials with
  | none => exact .throw _
  | some credentials =>
    obtain ⟨scheme, credentials⟩ := credentials
    refine Prog.Sat.ite (fun _ => .throw _) fun _ => Prog.Sat.ite (fun _ => .throw _) fun _ => Keeps.bind (.done _)
      fun tokenHash => .bind TransitService.reads_keep fun found => ?_
    cases found with
    | none => exact .throw _
    | some found =>
      exact .bind (.done _) fun expiresAt => .bind (.look _ _) fun time => Prog.Sat.ite (fun _ => .throw _) fun _ => .pure _

end BesideAccounts

/-- The accounts and sessions are all that these operations change. -/
theorem AuthOp.exec_besideAccounts (op : AuthOp) : Keeps (fun w => w.db.besideAccounts) op.exec := by
  cases op with
  | register email passphrase confirmPassphrase salt =>
    exact .bind (AuthService.register_keeps besideAccounts_beside _ _ _ _) fun _ => .pure _
  | login email passphrase coins => exact .bind (AuthService.login_keeps besideAccounts_beside _ _ _) fun _ => .pure _
  | logout token => exact .bind (AuthService.logout_keeps besideAccounts_beside _) fun _ => .pure _
  | advance time => exact .bind (.change fun _ => rfl) fun _ => .pure _

/-- **Every operation of the program leaves the row of the version.** -/
theorem AppOp.exec_keepsVersion (op : AppOp) : Keeps (fun w => w.db.versionRows) op.exec := by
  cases op with
  | vault op => exact .bind op.exec_keepsDb.besideDb fun _ => .pure _
  | service passphrase op => exact .bind (op.exec_keepsVersion passphrase) fun _ => .pure _
  | auth op => exact .bind (op.exec_besideAccounts.ofTables Database.versionRows_of_besideAccounts) fun _ => .pure _
  | currentUser credentials => exact .bind (getCurrentUser_keeps credentials) fun _ => .pure _
  | listAudit requesterEmail limit => exact .bind (.connectionDb (.query _ _)) fun _ => .pure _
  | verifyAudit =>
    exact .bind (.bind (.connectionDb (.query _ _)) fun rows => .bind (.bind (.connectionDb (.query _ _)) fun row =>
      .pure _) fun stored => .done _) fun _ => .pure _

/-! ### Restarts -/

/-- The rows are the same; those of the metadata need not be in the order they were in. -/
def SameRows (db db' : Database) : Prop :=
  db'.schemaMetadata.Perm db.schemaMetadata ∧ db' = { db with schemaMetadata := db'.schemaMetadata }

/-- A start that has completed has run the script and recorded the version. -/
theorem startOn_eq_ok {version : ℤ} {file file' : DatabaseFile} (h : startOn version file = (.ok (), file')) :
    file.Runnable version ∧ Ddl.execAll databaseSchema file.schema = some file'.schema ∧
      file'.rows = file.rows.replaceMetadata versionKey (.str (decimal version)) := by
  unfold startOn initializeDatabase at h
  rw [Prog.run_handle] at h
  rcases hbody : (initializeBody version).run ⟨file, file⟩ with ⟨e | u, c⟩
  · rw [hbody] at h
    cases (Prod.mk.inj h).1
  · rw [hbody] at h
    obtain ⟨-, rfl⟩ := Prod.mk.inj h
    obtain ⟨v, c₁, hguard, hrest⟩ := Prog.run_bind_eq_ok.mp hbody
    have hstays := Prog.run_frame (fun c => c) (guardLegacySchema_keeps (fun c => c) version) ⟨file, file⟩
    rw [hguard] at hstays
    dsimp only at hstays
    subst hstays
    obtain ⟨final, ⟨hrunnable, hall, hrows, hrun⟩ | ⟨-, -, e, -, hrun⟩⟩ := DatabaseFile.run_rest version file
    · obtain ⟨-, rfl⟩ := Prod.mk.inj (hrun.symm.trans hrest)
      exact ⟨hrunnable, hall, hrows⟩
    · cases (Prod.mk.inj (hrun.symm.trans hrest)).1

omit [Platform] in
/-- Recording what is recorded changes no row. -/
theorem sameRows_replaceVersion {db : Database} {value : Value} (h : db.versionRows = [⟨.str versionKey, value⟩]) :
    SameRows db (db.replaceMetadata versionKey value) := by
  refine ⟨?_, rfl⟩
  have hrows : (db.replaceMetadata versionKey value).schemaMetadata =
      (db.schemaMetadata.filter fun m => !m.key.sqlEq (.str versionKey)) ++ db.versionRows := by
    rw [h]
    rfl
  rw [hrows]
  exact List.perm_append_comm.trans (List.filter_append_perm _ _)

omit [Platform] in
theorem versionRows_replaceVersion (db : Database) (value : Value) :
    (db.replaceMetadata versionKey value).versionRows = [⟨.str versionKey, value⟩] := by
  simp only [Database.versionRows, Database.replaceMetadata, List.filter_append, List.filter_filter]
  simp

/-- The guard finds the table of metadata under its name, where it looks for it. It compares names with the case of
their letters; SQLite does not. -/
def DatabaseFile.Spelled (file : DatabaseFile) : Prop := file.versioned = true → metadataTable ∈ file.tableNames

/-- **A start after another has completed**, whatever the operations of the program have done in between: where the
guard finds the table of metadata, it completes and changes no row. -/
theorem restart_changes_nothing (hreads : ReadsBack schemaVersion) {file completed : DatabaseFile}
    (hstart : startOn schemaVersion file = (.ok (), completed)) {w : World} (hw : w.db = completed.rows)
    (ops : List AppOp) (schedule : List ℕ) {later : DatabaseFile} (hschema : later.schema = completed.schema)
    (hrows : later.rows = ((⟨w, ops.map AppOp.exec⟩ : Config World Label Exc Unit).exec schedule).state.db) :
    (∃ final, startOn schemaVersion later = (.ok (), final) ∧ final.schema = later.schema ∧
      SameRows later.rows final.rows) ↔ completed.Spelled := by
  obtain ⟨hrunnable, hall, hstamped⟩ := startOn_eq_ok hstart
  -- the row of the version is the one that the start has inserted
  have hversion : later.rows.versionRows = [⟨.str versionKey, .str (decimal schemaVersion)⟩] := by
    rw [hrows]
    have hstep : ∀ (l : Label) (w w' : World), w.db.versionRows = [⟨.str versionKey, .str (decimal schemaVersion)⟩] →
        w'.db.versionRows = w.db.versionRows → True →
          w'.db.versionRows = [⟨.str versionKey, .str (decimal schemaVersion)⟩] := fun _ _ _ hI hG _ => hG.trans hI
    refine Config.exec_invariant hstep ?_ ?_ (C := fun _ _ => True) fun _ _ => trivial
    · intro p hp
      obtain ⟨op, -, rfl⟩ := List.mem_map.mp hp
      exact op.exec_keepsVersion.mono (fun _ _ => trivial) fun _ _ _ h => h
    · rw [hw, hstamped]
      exact versionRows_replaceVersion _ _
  have hrow : later.rows.selectMetadata versionKey = some ⟨.str versionKey, .str (decimal schemaVersion)⟩ := by
    have hhead : later.rows.versionRows.head? = later.rows.selectMetadata versionKey := List.head?_filter
    rw [← hhead, hversion]
    rfl
  have hint : pyInt (.str (decimal schemaVersion)) = .ok schemaVersion := by
    have h := hreads (decimal schemaVersion) (if_pos (by decide))
    simp only [pyInt, h]
  have hrecorded : later.recorded = some schemaVersion := DatabaseFile.recorded_eq_some.mpr ⟨_, hrow, hint⟩
  have hstated : later.Stated := fun row hrow' =>
    ⟨schemaVersion, by rw [← Option.some.inj (hrow.symm.trans hrow')]; exact hint⟩
  have hpresent : ∀ d ∈ databaseSchema, d.Present later.schema := by
    rw [hschema]
    exact Ddl.execAll_present hall
  have hagain := Ddl.execAll_of_present hpresent
  have hlater : later.Runnable schemaVersion :=
    ⟨(Ddl.execAll_iff databaseSchema_ordered later.schema).mp (by rw [hagain]; rfl),
      (DatabaseFile.holdsMetadata_execAll hagain).mp (DatabaseFile.holdsMetadata_of_recorded hrecorded), by decide⟩
  have hspelled : completed.Spelled ↔ later.Spelled := by
    simp only [DatabaseFile.Spelled, DatabaseFile.versioned, DatabaseFile.tableNames, hschema]
  rw [hspelled]
  constructor
  · rintro ⟨final, hok, -⟩ hversioned
    by_contra hname
    rw [DatabaseFile.startOn_of_refuses hstated ⟨hversioned, fun h => absurd h hname⟩] at hok
    cases (Prod.mk.inj hok).1
  · intro hname
    have haccepts : later.Accepts schemaVersion := by
      by_cases hversioned : later.versioned = true
      · exact .inr ⟨hname hversioned, schemaVersion, hrecorded, le_rfl⟩
      · exact .inl (by simpa using hversioned)
    obtain ⟨final, ⟨-, hok, hfinal, hfinalRows⟩ | ⟨hnot, -⟩⟩ := DatabaseFile.startOn_of_accepts hstated haccepts
    · refine ⟨final, hok, Option.some.inj (hfinal.symm.trans hagain), ?_⟩
      rw [hfinalRows]
      exact sameRows_replaceVersion hversion
    · exact absurd hlater hnot

omit [Platform] in
/-- The whole schema is spelled as the guard expects. -/
theorem FullSchema.spelled {file : DatabaseFile} (h : FullSchema file) : file.Spelled := by
  have hwhole : (Ddl.execAll databaseSchema .empty).map (fun schema =>
      (schema.tables.map TableSchema.name).contains metadataTable) = some true := by decide +kernel
  rw [h] at hwhole
  intro _
  simpa [DatabaseFile.tableNames] using Option.some.inj hwhole

/-- **`initialize` can be run again**, after starts on an empty file that were stopped, exactly where the first of
them that had created a versioned table ran to its end; and after it has completed, with any operations of the
program since, exactly where the guard finds the table of metadata, as it does in what began as an empty file. -/
theorem restart_completes (hreads : ReadsBack schemaVersion) :
    (∀ stops, Completes (stopped stops) ↔ ∀ n, stops.find? getsToVersioned = some n → RunsToEnd n) ∧
    (∀ stops completed, startOn schemaVersion (stopped stops) = (.ok (), completed) → completed.Spelled) ∧
    ∀ (file completed : DatabaseFile), startOn schemaVersion file = (.ok (), completed) →
      ∀ (w : World), w.db = completed.rows → ∀ (ops : List AppOp) (schedule : List ℕ) (later : DatabaseFile),
        later.schema = completed.schema →
        later.rows = ((⟨w, ops.map AppOp.exec⟩ : Config World Label Exc Unit).exec schedule).state.db →
          ((∃ final, startOn schemaVersion later = (.ok (), final) ∧ final.schema = later.schema ∧
            SameRows later.rows final.rows) ↔ completed.Spelled) := by
  refine ⟨completes_iff hreads, fun stops completed hstart => ?_, fun file completed hstart w hw ops schedule later
    hschema hrows => restart_changes_nothing hreads hstart hw ops schedule hschema hrows⟩
  have hcases := stopped_cases stops
  obtain ⟨-, hall, -⟩ := startOn_eq_ok hstart
  apply FullSchema.spelled
  have hbegun : ∀ {k : ℕ}, Begun k (stopped stops) → FullSchema completed := by
    intro k hbegun
    have htake := hbegun.execAll_take databaseSchema.length
    rw [List.take_length, List.take_of_length_le (Nat.le_max_right k _), hall] at htake
    exact htake.symm
  cases hfind : stops.find? getsToVersioned with
  | none =>
    rw [hfind] at hcases
    exact hbegun hcases.choose_spec.1
  | some n =>
    rw [hfind] at hcases
    dsimp only at hcases
    split_ifs at hcases
    · rw [Ddl.execAll_of_present hcases.present] at hall
      rw [FullSchema, ← Option.some.inj hall]
      exact hcases.schema
    · exact hbegun hcases.choose_spec.1

end Startup

/-! ### An example -/

section Sample

attribute [local instance] samplePlatform

theorem readsBack_sample {version : ℤ} (h : Platform.intOfText (decimal version) = some version) : ReadsBack version := by
  intro text htext
  unfold intRepr at htext
  split_ifs at htext
  rwa [← Except.ok.inj htext]

/-- Operations of the program. -/
def sampleApp : List AppOp :=
  [.verifyAudit, .service samplePassphrase (.transit (.deleteKey sampleOwner sampleKeyName))]

/-- The world in the midst of them, on a database. -/
def sampleAppWorld (db : Database) : World :=
  ((⟨{ World.fresh (fun _ => none) with db := db }, sampleApp.map AppOp.exec⟩ : Config World Label Exc Unit).exec
    [1, 0, 1, 1, 0]).state

/-- Starts that are stopped before the first versioned table, and one that is not stopped; and the services at work
behind one. -/
theorem restart_completes_sample :
    Completes (stopped [3, 6, 20, 9]) ∧ ∃ completed later final : DatabaseFile,
      startOn schemaVersion .empty = (.ok (), completed) ∧ later.schema = completed.schema ∧
        later.rows = (sampleAppWorld completed.rows).db ∧ startOn schemaVersion later = (.ok (), final) ∧
          SameRows later.rows final.rows := by
  have hreads : ReadsBack schemaVersion := readsBack_sample (by decide +kernel)
  obtain ⟨hstops, hspelled, hagain⟩ := restart_completes hreads
  refine ⟨(hstops _).mpr ?_, ?_⟩
  · intro n hn
    rw [show [3, 6, 20, 9].find? getsToVersioned = some 20 by decide +kernel] at hn
    rw [← Option.some.inj hn]
    decide
  · have hempty : Begun 0 .empty := ⟨rfl, rfl⟩
    obtain ⟨completed, hstart, hfinished⟩ := hempty.start rfl
    have hholds : holdsMetadata completed.schema = true := hfinished.tables.2
    let later : DatabaseFile := ⟨completed.schema, (sampleAppWorld completed.rows).db,
      fun hnot => by rw [hholds] at hnot; cases hnot⟩
    obtain ⟨final, hok, -, hsame⟩ :=
      (hagain .empty completed hstart _ rfl sampleApp [1, 0, 1, 1, 0] later rfl rfl).mpr (hspelled [] completed hstart)
    exact ⟨completed, later, final, hstart, rfl, rfl, hok, hsame⟩

/-- **A start that is stopped right behind the first versioned table** leaves a file that is refused for good. -/
theorem restart_refused_sample :
    startOn schemaVersion (stopped [7]) = (.error .legacySchemaError, stopped [7]) ∧
      ¬ ∀ stops, Completes (stopped stops) := by
  have hreads : ReadsBack schemaVersion := readsBack_sample (by decide +kernel)
  refine ⟨?_, fun h => ?_⟩
  · have hcases := stopped_cases [7]
    rw [show [7].find? getsToVersioned = some 7 by decide +kernel] at hcases
    obtain ⟨k, hbegun, hversioned⟩ := hcases
    exact DatabaseFile.startOn_of_refuses hbegun.stated (hbegun.refuses hversioned)
  · exact absurd ((completes_iff hreads [7]).mp (h [7]) 7 (by decide +kernel)) (by decide)

end Sample

end MiniVault
