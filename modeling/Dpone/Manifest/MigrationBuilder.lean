import Mathlib.Data.List.Dedup
import Mathlib.Data.List.Sort
import Dpone.Schemes.Document

/-! Merging, comparing and intersecting manifest documents: `batch_merge.py` and `migration_diff.py`.

    The batch compiler lays a schema's defaults and a table's overrides over the root defaults with
    `deep_merge`. The migration finds what a group of documents has in common with
    `deep_common_dict`, and what a document has beyond its defaults with `deep_diff`, whose `None` is
    the null document here. -/

namespace Dpone.Manifest
open Dpone.Schemes Document

variable {σ : Type}

/-- What goes wrong when a batch manifest is built. -/
inductive ManifestError where
  | emptyGroup
  | dependsOnNotList
  | dependsOnItem
  | missingSink (manifestName : String)
  | missingSource (manifestName : String)
  | missingSourceTable (fileName : String)
  deriving DecidableEq, Repr

/-- `_append_list_keys` of `deep_merge`. -/
def appendListKeys : List String := ["depends_on", "transforms"]

/-- Whether two lists at this path are concatenated. -/
def appendsAt : List String → Bool
  | [k] => appendListKeys.contains k
  | _ => false

/-- `deep_merge`. -/
def deepMerge : List String → Document σ → Document σ → Document σ
  | path, .map ks f, .map ls g =>
    .map (ks ++ ls.filter fun k => !ks.contains k) fun k =>
      if ls.contains k then
        if ks.contains k then deepMerge (path ++ [k]) (f k) (g k) else g k
      else f k
  | path, .list n f, .list m g =>
    if appendsAt path then .list (n + m) fun i => if i < n then f i else g (i - n)
    else .list m g
  | _, _, override => override

/-- `_strip_empty_dicts`. -/
def stripEmptyDicts : Document σ → Document σ
  | .map ks f =>
    .map (ks.filter fun k => !(stripEmptyDicts (f k)).isEmptyMap) fun k => stripEmptyDicts (f k)
  | .list n f => .list n fun i => stripEmptyDicts (f i)
  | other => other

section
variable [BEq σ]

/-- Python's `==` of two documents. -/
def same : Document σ → Document σ → Bool := sameBy (· == ·)

/-- Whether a difference says nothing: `None` or an empty mapping. -/
def saysNothing (d : Document σ) : Bool := d.isNull || d.isEmptyMap

/-- `deep_diff`. -/
def deepDiff : Document σ → Document σ → Document σ
  | .map ks f, .map ls g =>
    .map (ks.filter fun k => !ls.contains k || !saysNothing (deepDiff (f k) (g k))) fun k =>
      if ls.contains k then deepDiff (f k) (g k) else f k
  | value, base => if same value base then .null else value

/-- What `deep_common_dict` keeps under one key, for the values `first :: others` there. -/
def commonValue : Document σ → List (Document σ) → Option (Document σ)
  | .map ks f, others =>
    if others.all isMap then
      let sub := stripEmptyDicts <| .map
        (ks.filter fun k =>
          others.all (hasKey k) && (commonValue (f k) (others.map (valueAt k))).isSome)
        fun k => (commonValue (f k) (others.map (valueAt k))).getD .null
      if sub.isEmptyMap then none else some sub
    else none
  | first, others => if others.all (same first) then some first else none

/-- `deep_common_dict`. -/
def deepCommonDict : List (Document σ) → Document σ
  | [] => empty
  | .map ks f :: others =>
    if others.all isMap then
      .map (ks.filter fun k =>
          others.all (hasKey k) && (commonValue (f k) (others.map (valueAt k))).isSome)
        fun k => (commonValue (f k) (others.map (valueAt k))).getD .null
    else empty
  | _ :: _ => empty

end

/-- One block of `_ensure_required_defaults`: taken from the sample unless the defaults have it. -/
def ensureBlock (block : String) (missing : ManifestError) (sample defaults : Document σ) :
    Except ManifestError (Document σ) :=
  if (defaults.valueAt block).isMap then .ok defaults
  else if (sample.valueAt block).isMap then .ok (defaults.insert block (sample.valueAt block))
  else .error missing

/-- `_ensure_required_defaults`. -/
def ensureRequiredDefaults (defaults sample : Document σ) (manifestName : String) :
    Except ManifestError (Document σ) := do
  let out ← ensureBlock "sink" (.missingSink manifestName) sample defaults
  ensureBlock "source" (.missingSource manifestName) sample out

end Dpone.Manifest

/-! Migration of legacy manifests to one batch manifest, and the merge that compiles it back:
    `migration_builder.py` with naming inference off, and the `deep_merge` calls of
    `BatchManifestCompiler.compile`.

    What all processes of the group have in common becomes the root defaults, what those of one
    schema have in common beyond that its schema defaults, and the rest the overrides of a table. -/

namespace Dpone.Manifest
open Dpone.Schemes Document

variable {σ : Type}

/-- A legacy manifest: its document with a source and a sink block, and what its load configuration
    says of the source. -/
structure LegacyProcess (σ : Type) where
  raw : Document σ
  srcSchema : String
  sourceTable : Option String
  fileName : String
  raw_isMap : raw.isMap = true
  source_isMap : (raw.valueAt "source").isMap = true
  sink_isMap : (raw.valueAt "sink").isMap = true

namespace LegacyProcess

def srcTable (p : LegacyProcess σ) : Except ManifestError String :=
  match p.sourceTable with
  | none => .error (.missingSourceTable p.fileName)
  | some table => if table = "" then .error (.missingSourceTable p.fileName) else .ok table

/-- The document without its `depends_on`. -/
def body (p : LegacyProcess σ) : Document σ := p.raw.erase "depends_on"

end LegacyProcess

/-- One entry of `depends_on`: a path, or a mapping. -/
def normalizeDependency : Document σ → Except ManifestError (Document σ)
  | .text path => .ok (ofFields [("path", .text path)])
  | .map ks f => .ok (.map ks f)
  | _ => .error .dependsOnItem

/-- `normalize_depends_on`. -/
def normalizeDependsOn : Document σ → Except ManifestError (List (Document σ))
  | .null => .ok []
  | .list n f => (List.range n).mapM fun i => normalizeDependency (f i)
  | _ => .error .dependsOnNotList

/-- A table of a batch manifest: its name, or its name with what is its own. -/
inductive TableSpec (σ : Type) where
  | plain (table : String)
  | detailed (table : String) (dependsOn : List (Document σ)) (overrides : Option (Document σ))

namespace TableSpec

def table : TableSpec σ → String
  | plain table => table
  | detailed table _ _ => table

/-- `table_spec.get("overrides") or {}`. -/
def overrides : TableSpec σ → Document σ
  | plain _ => empty
  | detailed _ _ overrides => overrides.getD empty

end TableSpec

structure SchemaBlock (σ : Type) where
  defaults : Option (Document σ)
  tables : List (TableSpec σ)

structure BatchManifest (σ : Type) where
  defaults : Document σ
  schemas : List (String × SchemaBlock σ)

/-- The order of the schemas: `sorted(proc_by_schema.keys())`. -/
def schemaNames (ps : List (LegacyProcess σ)) : List String :=
  (ps.map (·.srcSchema)).dedup.insertionSort (· ≤ ·)

/-- The order of tables within a schema: by table, then by file name. -/
def tableBefore (p q : LegacyProcess σ) : Prop :=
  p.sourceTable.getD "" < q.sourceTable.getD "" ∨
    (p.sourceTable.getD "" = q.sourceTable.getD "" ∧ p.fileName ≤ q.fileName)

instance : DecidableRel (tableBefore (σ := σ)) := fun _ _ =>
  inferInstanceAs (Decidable (_ < _ ∨ (_ = _ ∧ _ ≤ _)))

/-- The processes of a schema, in the order of the group. -/
def schemaProcesses (ps : List (LegacyProcess σ)) (schema : String) : List (LegacyProcess σ) :=
  ps.filter (·.srcSchema = schema)

/-- The processes in the order of their tables in the batch manifest. -/
def batchOrder (ps : List (LegacyProcess σ)) : List (LegacyProcess σ) :=
  (schemaNames ps).flatMap fun schema => (schemaProcesses ps schema).insertionSort tableBefore

/-- A difference that is worth writing down: the empty one is not. -/
def nonEmpty (d : Document σ) : Option (Document σ) := if saysNothing d then none else some d

section
variable [BEq σ]

/-- What the processes of one schema have in common beyond the root defaults. -/
def schemaExtra (rootDefaults : Document σ) (procs : List (LegacyProcess σ)) :
    Option (Document σ) :=
  nonEmpty (stripEmptyDicts (deepDiff (deepCommonDict (procs.map (·.body))) rootDefaults))

/-- The table of one process over the defaults of its schema; `rewrite` puts references to batch
    manifests into its dependencies. -/
def tableSpec (rewrite : LegacyProcess σ → Document σ → Document σ) (schemaBase : Document σ)
    (p : LegacyProcess σ) : Except ManifestError (TableSpec σ) := do
  let table ← p.srcTable
  let deps ← normalizeDependsOn (p.raw.valueAt "depends_on")
  let overrides := nonEmpty (stripEmptyDicts (deepDiff p.body schemaBase))
  return if overrides.isNone && deps.isEmpty then .plain table
    else .detailed table (deps.map (rewrite p)) overrides

/-- The block of one schema. -/
def schemaBlock (rewrite : LegacyProcess σ → Document σ → Document σ) (rootDefaults : Document σ)
    (procs : List (LegacyProcess σ)) : Except ManifestError (SchemaBlock σ) := do
  let schemaDefaults := schemaExtra rootDefaults procs
  let schemaBase := deepMerge [] rootDefaults (schemaDefaults.getD empty)
  let _ ← procs.mapM (·.srcTable)
  let tables ← (procs.insertionSort tableBefore).mapM (tableSpec rewrite schemaBase)
  return { defaults := schemaDefaults, tables := tables }

/-- `build_batch_manifest` with `infer_naming` off. -/
def buildBatchManifest (rewrite : LegacyProcess σ → Document σ → Document σ)
    (manifestName : String) : List (LegacyProcess σ) → Except ManifestError (BatchManifest σ)
  | [] => .error .emptyGroup
  | first :: rest => do
    let ps := first :: rest
    let _ ← ps.mapM fun p => normalizeDependsOn (p.raw.valueAt "depends_on")
    let rootDefaults ←
      ensureRequiredDefaults (deepCommonDict (ps.map (·.body))) first.body manifestName
    let schemas ← (schemaNames ps).mapM fun schema => do
      let block ← schemaBlock rewrite rootDefaults (schemaProcesses ps schema)
      return (schema, block)
    return { defaults := rootDefaults, schemas := schemas }

end

/-- What the compiler merges for one table. -/
structure MergedProcess (σ : Type) where
  schema : String
  table : String
  config : Document σ

/-- The merge of `BatchManifestCompiler.compile`: root defaults, schema defaults, overrides. -/
def compileMerge (manifest : BatchManifest σ) : List (MergedProcess σ) :=
  manifest.schemas.flatMap fun (schema, block) =>
    let schemaDefaults := deepMerge [] manifest.defaults (block.defaults.getD empty)
    block.tables.map fun spec => ⟨schema, spec.table, deepMerge [] schemaDefaults spec.overrides⟩

/-- A merged process that says of a legacy manifest all it said, and no more. -/
structure GivesBack [DecidableEq σ] (merged : MergedProcess σ) (p : LegacyProcess σ) : Prop where
  schema : merged.schema = p.srcSchema
  table : .ok merged.table = p.srcTable
  config : Identical merged.config p.body

/-- Migration preserves meaning: the group is migrated, and the compiler's merge gives back the body
    of every manifest. -/
def Preserves [BEq σ] [DecidableEq σ] (rewrite : LegacyProcess σ → Document σ → Document σ)
    (manifestName : String) (ps : List (LegacyProcess σ)) : Prop :=
  match buildBatchManifest rewrite manifestName ps with
  | .ok manifest => List.Forall₂ GivesBack (compileMerge manifest) (batchOrder ps)
  | .error _ => False

instance [DecidableEq σ] : DecidableRel (GivesBack (σ := σ)) := fun merged p =>
  decidable_of_iff
    (merged.schema = p.srcSchema ∧ .ok merged.table = p.srcTable ∧
      Identical merged.config p.body)
    ⟨fun ⟨h₁, h₂, h₃⟩ => ⟨h₁, h₂, h₃⟩, fun h => ⟨h.schema, h.table, h.config⟩⟩

instance [BEq σ] [DecidableEq σ] (rewrite : LegacyProcess σ → Document σ → Document σ)
    (manifestName : String) (ps : List (LegacyProcess σ)) :
    Decidable (Preserves rewrite manifestName ps) :=
  match h : buildBatchManifest rewrite manifestName ps with
  | .ok manifest =>
    decidable_of_iff (List.Forall₂ GivesBack (compileMerge manifest) (batchOrder ps))
      (by rw [Preserves, h])
  | .error _ => .isFalse (by rw [Preserves, h]; exact id)

/-- A process with a given sink that reads one table of a source. -/
def processWithSink (table : String) (sink : List (String × Document Unit)) :
    LegacyProcess Unit where
  raw := ofFields [("source", ofFields [("type", .text "postgres")]), ("sink", ofFields sink)]
  srcSchema := "public"
  sourceTable := some table
  fileName := table ++ ".yaml"
  raw_isMap := rfl
  source_isMap := rfl
  sink_isMap := rfl

/-- Two processes whose sinks have nothing in common. -/
def differentSinks : List (LegacyProcess Unit) :=
  [processWithSink "orders" [("type", .text "bigquery"), ("partition", .text "day")],
    processWithSink "users" [("type", .text "clickhouse")]]

/-- Two processes whose sinks share their type. -/
def sharedSinks : List (LegacyProcess Unit) :=
  [processWithSink "orders" [("type", .text "bigquery"), ("partition", .text "day")],
    processWithSink "users" [("type", .text "bigquery")]]

end Dpone.Manifest
