import MiniDB.Catalog.CatalogManager
import MiniDB.Storage.RecordManager

/-!
# Databases

A `Database` has three page pools: one for the catalog, one for the rows of the tables and one for
the indexes.  The pool of the indexes is left open (`σ`): what the executor needs of it is said in
`Index/IndexPool.lean`, and both the B+trees in a page store and plain multimaps provide it.

The functions that use a database are `Db` actions: they return a value or a status, and die of a
fault.  `onData` and `onCatalog` run programs on one of the pools.
-/

namespace MiniDB

open Paged Effect

/-- `Database`, with the open tables of its table manager. -/
structure Database (σ : Type) where
  catalogPool : Store
  dataPool : Store
  indexPool : σ
  catalog : CatalogManager
  openTables : UnorderedMap Str RecordManager

/-- Code that uses a database. -/
abbrev Db (σ : Type) : Type → Type := Action Fault Status (Database σ)

namespace Database

variable {σ α : Type}

/-- Run a program on the pages of the tables. -/
def onData (x : Nat → Prog PageId Page Empty α) : Db σ α :=
  Action.onPart Database.dataPool (fun st db => { db with dataPool := st }) (Store.exec x)

/-- A call on the pool of the indexes. -/
def onIndex (x : σ → Except Fault (α × σ)) : Db σ α :=
  Action.onPart Database.indexPool (fun pool db => { db with indexPool := pool }) x

/-- Run a program on the catalog and its pages. -/
def onCatalog (x : CatalogManager → Nat → Prog PageId Page Empty (α × CatalogManager)) : Db σ α :=
  Action.onPart (fun db => (db.catalog, db.catalogPool))
    (fun p db => { db with catalog := p.1, catalogPool := p.2 })
    (fun p => (Store.exec (x p.1) p.2).map fun r => (r.1.1, r.1.2, r.2))

/-- The constructor for a new directory: three new files and a new catalog. -/
def create (order : CatalogOrder) (openTables : UnorderedMap Str RecordManager) (indexPool : σ) :
    Except Fault (Database σ) :=
  (Store.exec (fun _ => CatalogManager.create (C := Empty) order) Store.new).map fun r => {
    catalogPool := r.2
    dataPool := Store.new
    indexPool := indexPool
    catalog := r.1
    openTables := openTables }

/-! ### Weakest preconditions -/

variable {allow : Fault → Prop} {db : Database σ} {Q : Result α → Database σ → Prop}

theorem wp_onData {x : Nat → Prog PageId Page Empty α} {P : α → Store → Prop}
    (hx : (x (db.dataPool.pages.length + 1)).wp allow (fun _ _ => True) P db.dataPool)
    (hQ : ∀ a st, P a st → Q (.ok a) { db with dataPool := st }) : Action.wp allow (onData x) Q db := by
  refine Action.wp_onPart ?_ hQ
  unfold Store.exec
  rcases Prog.run_of_wp hx with ⟨a, st, hok, hP⟩ | ⟨f, herr, hf⟩
  · rw [hok]
    exact hP
  · rw [herr]
    exact hf

theorem wp_onCatalog {x : CatalogManager → Nat → Prog PageId Page Empty (α × CatalogManager)}
    {P : α → CatalogManager → Store → Prop}
    (hx : (x db.catalog (db.catalogPool.pages.length + 1)).wp allow (fun _ _ => True)
      (fun r st => P r.1 r.2 st) db.catalogPool)
    (hQ : ∀ a c st, P a c st → Q (.ok a) { db with catalog := c, catalogPool := st }) :
    Action.wp allow (onCatalog x) Q db := by
  refine Action.wp_onPart (P := fun a p => P a p.1 p.2) ?_ fun a p hp => hQ a p.1 p.2 hp
  unfold Store.exec
  rcases Prog.run_of_wp hx with ⟨r, st, hok, hP⟩ | ⟨f, herr, hf⟩
  · simp only [hok]
    exact hP
  · simp only [herr]
    exact hf

end Database

end MiniDB
