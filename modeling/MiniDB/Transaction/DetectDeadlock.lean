import MiniDB.Lib.ThreeColors
import MiniDB.Lib.UnorderedMap
import MiniDB.Transaction.TransactionManager

/-!
# Deadlock detection

`LockManager::DetectDeadlock` looks for a cycle in a graph of transactions that wait for one another:
a depth-first search that starts from every transaction with an entry.  The graph is a map of sets,
and what is visited first depends on the orders of their iterations.
-/

namespace MiniDB

open ThreeColors

/-- Who waits for whom. -/
abbrev WaitForGraph := UnorderedMap TxnId (UnorderedSet TxnId)

namespace LockManager

/-- The variables of a search; `cycleOut` is what `cycle_out` points to, if it points to something.  A
transaction that has no color yet is white. -/
structure Search where
  color : TxnId → Color
  stack : List TxnId
  cycleOut : Option (List TxnId)

namespace Search

/-- The search enters a transaction. -/
def enter (s : Search) (node : TxnId) : Search :=
  { s with color := Function.update s.color node .gray, stack := s.stack ++ [node] }

/-- The search leaves a transaction. -/
def leave (s : Search) (node : TxnId) : Search :=
  { s with stack := s.stack.dropLast, color := Function.update s.color node .black }

/-- The stack from `neighbor` on is copied to `cycle_out`. -/
def report (s : Search) (neighbor : TxnId) : Search :=
  { s with cycleOut := s.cycleOut.map fun _ => s.stack.dropWhile (· ≠ neighbor) }

end Search

/-- The search goes on, unless a cycle was found. -/
def unlessFound (r : Option (Bool × Search)) (next : Search → Option (Bool × Search)) :
    Option (Bool × Search) :=
  match r with
  | some (false, s) => next s
  | r => r

/-- The loop over the neighbors of a transaction. -/
def visitNeighbors (visit : TxnId → Search → Option (Bool × Search)) :
    List TxnId → Search → Option (Bool × Search)
  | [], s => some (false, s)
  | neighbor :: neighbors, s =>
    match s.color neighbor with
    | .gray => some (true, s.report neighbor)
    | .white => unlessFound (visit neighbor s) (visitNeighbors visit neighbors)
    | .black => visitNeighbors visit neighbors s

/-- The transactions that one waits for, in the order of an iteration. -/
def neighborsOf (graph : WaitForGraph) (node : TxnId) : List TxnId :=
  match graph.find? node with
  | some neighbors => neighbors.elems
  | none => []

/-- `visit`, with a bound on the depth of its recursion. -/
def visit (graph : WaitForGraph) : Nat → TxnId → Search → Option (Bool × Search)
  | 0, _, _ => none
  | fuel + 1, node, s =>
    unlessFound (visitNeighbors (visit graph fuel) (neighborsOf graph node) (s.enter node))
      fun s => some (false, s.leave node)

/-- The loop over the transactions with an entry. -/
def visitAll (visit : TxnId → Search → Option (Bool × Search)) :
    List TxnId → Search → Option (Bool × Search)
  | [], s => some (false, s)
  | node :: nodes, s =>
    match s.color node with
    | .white => unlessFound (visit node s) (visitAll visit nodes)
    | _ => visitAll visit nodes s

/-- All transactions of a graph. -/
def vertices (graph : WaitForGraph) : List TxnId :=
  graph.entries.flatMap fun (node, neighbors) => node :: neighbors.elems

/-- `DetectDeadlock`: what it returns, and what `cycle_out` then points to.  No result would mean that
the recursion went deeper than there are transactions. -/
def detectDeadlock (graph : WaitForGraph) (cycleOut : Option (List TxnId)) :
    Option (Bool × Option (List TxnId)) :=
  (visitAll (visit graph (vertices graph).length) (graph.entries.map Prod.fst)
    ⟨fun _ => .white, [], cycleOut⟩).map fun (found, s) => (found, s.cycleOut)

end LockManager

end MiniDB
