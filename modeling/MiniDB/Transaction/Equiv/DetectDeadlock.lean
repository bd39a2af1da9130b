import MiniDB.Transaction.DetectDeadlock

/-!
# Deadlock detection is exact

The search finds a cycle if and only if there is one, for every order in which it may visit the
transactions.  Its recursion ends because every call colors one more transaction.
-/

namespace MiniDB.LockManager

open ThreeColors Relation
open Function (update update_apply update_of_ne update_self)

variable {graph : WaitForGraph} {s s' s'' : Search} {node : TxnId} {fuel : Nat} {t u : TxnId}
  {nodes : List TxnId} {r : Option (Bool × Search)}

/-- A transaction waits for another one. -/
def WaitsFor (graph : WaitForGraph) (t u : TxnId) : Prop :=
  ∃ neighbors, graph.find? t = some neighbors ∧ u ∈ neighbors.elems

theorem mem_neighborsOf_iff : u ∈ neighborsOf graph t ↔ WaitsFor graph t u := by
  rw [neighborsOf, WaitsFor]
  cases graph.find? t with
  | none => simp
  | some neighbors => simp

theorem WaitsFor.mem_keys (h : WaitsFor graph t u) : t ∈ graph.entries.map Prod.fst := by
  obtain ⟨neighbors, hfind, -⟩ := h
  exact List.mem_map.mpr ⟨_, UnorderedMap.mem_entries_iff.mpr hfind, rfl⟩

theorem mem_vertices_of_mem_keys (h : t ∈ graph.entries.map Prod.fst) : t ∈ vertices graph := by
  obtain ⟨e, he, rfl⟩ := List.mem_map.mp h
  exact List.mem_flatMap.mpr ⟨e, he, List.mem_cons_self ..⟩

theorem WaitsFor.mem_vertices (h : WaitsFor graph t u) : u ∈ vertices graph := by
  obtain ⟨neighbors, hfind, hmem⟩ := h
  exact List.mem_flatMap.mpr
    ⟨_, UnorderedMap.mem_entries_iff.mpr hfind, List.mem_cons_of_mem _ hmem⟩

/-! ### What a search does -/

/-- The number of transactions that have not been entered. -/
def whites (graph : WaitForGraph) (s : Search) : Nat :=
  (vertices graph).countP fun t => s.color t = .white

/-- The search has ended with a cycle. -/
def Found (graph : WaitForGraph) (s s' : Search) : Prop :=
  ∃ c, IsCycle (WaitsFor graph) c ∧ s'.cycleOut = s.cycleOut.map fun _ => c

/-- The search has gone on to a later state with the same path. -/
structure Passed (graph : WaitForGraph) (s s' : Search) : Prop where
  coloring : Coloring (WaitsFor graph) s'.color s'.stack
  stack : s'.stack = s.stack
  cycleOut : s'.cycleOut = s.cycleOut
  black : ∀ t, s.color t = .black → s'.color t = .black
  white : ∀ t, s'.color t = .white → s.color t = .white

theorem Passed.refl (h : Coloring (WaitsFor graph) s.color s.stack) : Passed graph s s :=
  ⟨h, rfl, rfl, fun _ h => h, fun _ h => h⟩

theorem Passed.trans (h : Passed graph s s') (h' : Passed graph s' s'') : Passed graph s s'' where
  coloring := h'.coloring
  stack := h'.stack.trans h.stack
  cycleOut := h'.cycleOut.trans h.cycleOut
  black := fun t ht => h'.black t (h.black t ht)
  white := fun t ht => h.white t (h'.white t ht)

theorem Found.of_passed (h : Passed graph s s') (h' : Found graph s' s'') : Found graph s s'' := by
  obtain ⟨c, hc, hout⟩ := h'
  exact ⟨c, hc, by rw [hout, h.cycleOut]⟩

theorem Passed.whites_le (h : Passed graph s s') : whites graph s' ≤ whites graph s :=
  List.countP_mono_left fun t _ ht => decide_eq_true (h.white t (of_decide_eq_true ht))

/-- The result of a search: a cycle, or everything in `nodes` is black. -/
def Outcome (graph : WaitForGraph) (nodes : List TxnId) (s : Search)
    (r : Option (Bool × Search)) : Prop :=
  (∃ s', r = some (true, s') ∧ Found graph s s') ∨
    ∃ s', r = some (false, s') ∧ Passed graph s s' ∧ ∀ t ∈ nodes, s'.color t = .black

/-- What `visit` does to a transaction that has not been entered and that the path leads to. -/
def Visits (graph : WaitForGraph) (fuel : Nat) (visit : TxnId → Search → Option (Bool × Search)) :
    Prop :=
  ∀ node s, Coloring (WaitsFor graph) s.color s.stack → s.color node = .white →
    node ∈ vertices graph → (∀ t ∈ s.stack.getLast?, WaitsFor graph t node) →
    whites graph s ≤ fuel → Outcome graph [node] s (visit node s)

/-- Visiting one transaction, and then others. -/
theorem Outcome.cons {next : Search → Option (Bool × Search)} (h : Outcome graph [node] s r)
    (hnext : ∀ s', Passed graph s s' → Outcome graph nodes s' (next s')) :
    Outcome graph (node :: nodes) s (unlessFound r next) := by
  rcases h with ⟨s', rfl, hfound⟩ | ⟨s', rfl, hpassed, hblack⟩
  · exact .inl ⟨s', rfl, hfound⟩
  · rcases hnext s' hpassed with ⟨s'', hr, hfound⟩ | ⟨s'', hr, hpassed', hblack'⟩
    · exact .inl ⟨s'', hr, hfound.of_passed hpassed⟩
    · refine .inr ⟨s'', hr, hpassed.trans hpassed', fun t ht => ?_⟩
      rcases List.mem_cons.mp ht with rfl | ht
      · exact hpassed'.black _ (hblack _ (List.mem_singleton_self _))
      · exact hblack' t ht

theorem Outcome.cons_black (h : Outcome graph nodes s r) (hblack : s.color node = .black) :
    Outcome graph (node :: nodes) s r := by
  rcases h with hfound | ⟨s', hr, hpassed, hblack'⟩
  · exact .inl hfound
  · refine .inr ⟨s', hr, hpassed, fun t ht => ?_⟩
    rcases List.mem_cons.mp ht with rfl | ht
    · exact hpassed.black _ hblack
    · exact hblack' t ht

theorem visitNeighbors_spec {visit : TxnId → Search → Option (Bool × Search)}
    (hvisit : Visits graph fuel visit) {neighbors : List TxnId}
    (hneighbors : ∀ t ∈ neighbors, WaitsFor graph node t) :
    ∀ s, Coloring (WaitsFor graph) s.color s.stack → s.stack.getLast? = some node →
      whites graph s ≤ fuel → Outcome graph neighbors s (visitNeighbors visit neighbors s) := by
  induction neighbors with
  | nil =>
    intro s hs _ _
    exact .inr ⟨s, rfl, .refl hs, fun t ht => by cases ht⟩
  | cons neighbor neighbors ih =>
    intro s hs hlast hfuel
    have hwaits := hneighbors neighbor (List.mem_cons_self ..)
    have hrest := ih fun t ht => hneighbors t (List.mem_cons_of_mem _ ht)
    rw [visitNeighbors]
    cases hcolor : s.color neighbor with
    | gray =>
      -- the neighbor is on the stack: the stack from there on is a cycle
      exact .inl ⟨_, rfl, _, hs.cycle hlast hcolor hwaits, rfl⟩
    | white =>
      have hfirst : Outcome graph [neighbor] s (visit neighbor s) := by
        refine hvisit neighbor s hs hcolor hwaits.mem_vertices (fun t ht => ?_) hfuel
        rw [hlast, Option.mem_some_iff] at ht
        exact ht ▸ hwaits
      refine hfirst.cons fun s' hs' => hrest s' hs'.coloring ?_ (hs'.whites_le.trans hfuel)
      rw [hs'.stack, hlast]
    | black => exact (hrest s hs hlast hfuel).cons_black hcolor

/-- A call colors one more transaction. -/
theorem whites_enter_lt (hnode : node ∈ vertices graph) (hwhite : s.color node = .white) :
    whites graph (s.enter node) < whites graph s := by
  have hle : ∀ t, (s.enter node).color t = .white → s.color t = .white := by
    intro t ht
    have ht : update s.color node .gray t = .white := ht
    rw [update_apply] at ht
    split_ifs at ht
    exact ht
  have hgray : (s.enter node).color node ≠ .white := by
    show update s.color node .gray node ≠ .white
    rw [update_self]
    decide
  obtain ⟨before, behind, hsplit⟩ := List.append_of_mem hnode
  have hmono : ∀ l : List TxnId, l.countP (fun t => (s.enter node).color t = .white)
      ≤ l.countP fun t => s.color t = .white := fun l =>
    List.countP_mono_left fun t _ ht => decide_eq_true (hle t (of_decide_eq_true ht))
  have hbefore := hmono before
  have hbehind := hmono behind
  rw [whites, whites, hsplit, List.countP_append, List.countP_append, List.countP_cons,
    List.countP_cons, if_pos (decide_eq_true hwhite), if_neg (by simpa using hgray)]
  omega

/-- Leaving a transaction ends the visit of it. -/
theorem Passed.leave (h : Passed graph (s.enter node) s')
    (hblack : ∀ t ∈ neighborsOf graph node, s'.color t = .black) :
    Passed graph s (s'.leave node) where
  coloring := by
    have hcoloring := h.coloring
    rw [h.stack] at hcoloring
    show Coloring _ (update s'.color node .black) s'.stack.dropLast
    rw [h.stack]
    show Coloring _ _ (s.stack ++ [node]).dropLast
    rw [List.dropLast_concat]
    exact hcoloring.leave fun t ht => hblack t (mem_neighborsOf_iff.mpr ht)
  stack := by
    show s'.stack.dropLast = _
    rw [h.stack]
    exact List.dropLast_concat
  cycleOut := h.cycleOut
  black := by
    intro t ht
    show update s'.color node .black t = .black
    rw [update_apply]
    split_ifs with htn
    · rfl
    · refine h.black t ?_
      show update s.color node .gray t = .black
      rw [update_of_ne htn, ht]
  white := by
    intro t ht
    have ht : update s'.color node .black t = .white := ht
    rw [update_apply] at ht
    split_ifs at ht with htn
    have hs : update s.color node .gray t = .white := h.white t ht
    rwa [update_of_ne htn] at hs

/-- **`visit`** ends with a cycle, or with one more black transaction. -/
theorem visit_spec (graph : WaitForGraph) (fuel : Nat) : Visits graph fuel (visit graph fuel) := by
  induction fuel with
  | zero =>
    intro node s _ hwhite hnode _ hfuel
    have hlt := whites_enter_lt hnode hwhite
    omega
  | succ fuel ih =>
    intro node s hs hwhite hnode hlast hfuel
    have hlt := whites_enter_lt hnode hwhite
    have hneighbors : Outcome graph (neighborsOf graph node) (s.enter node)
        (visitNeighbors (visit graph fuel) (neighborsOf graph node) (s.enter node)) :=
      visitNeighbors_spec ih (fun t ht => mem_neighborsOf_iff.mp ht) _ (hs.enter hwhite hlast)
        List.getLast?_concat (by omega)
    rw [visit]
    rcases hneighbors with ⟨s', hr, hfound⟩ | ⟨s', hr, hpassed, hblack⟩
    · rw [hr]
      exact .inl ⟨s', rfl, hfound⟩
    · rw [hr]
      refine .inr ⟨_, rfl, hpassed.leave hblack, fun t ht => ?_⟩
      obtain rfl := List.mem_singleton.mp ht
      exact update_self ..

/-- The loop over the entries: between two visits nothing is gray. -/
theorem visitAll_spec {visit : TxnId → Search → Option (Bool × Search)}
    (hvisit : Visits graph fuel visit) (hnodes : ∀ t ∈ nodes, t ∈ vertices graph) :
    ∀ s, Coloring (WaitsFor graph) s.color s.stack → s.stack = [] → whites graph s ≤ fuel →
      Outcome graph nodes s (visitAll visit nodes s) := by
  induction nodes with
  | nil =>
    intro s hs _ _
    exact .inr ⟨s, rfl, .refl hs, fun t ht => by cases ht⟩
  | cons node nodes ih =>
    intro s hs hstack hfuel
    have hnode := hnodes node (List.mem_cons_self ..)
    have hrest := ih fun t ht => hnodes t (List.mem_cons_of_mem _ ht)
    rw [visitAll]
    cases hcolor : s.color node with
    | white =>
      have hfirst : Outcome graph [node] s (visit node s) := by
        refine hvisit node s hs hcolor hnode (fun t ht => ?_) hfuel
        rw [hstack] at ht
        cases ht
      exact hfirst.cons fun s' hs' =>
        hrest s' hs'.coloring (hs'.stack.trans hstack) (hs'.whites_le.trans hfuel)
    | gray =>
      have hmem := (hs.gray node).mp hcolor
      rw [hstack] at hmem
      cases hmem
    | black => exact (hrest s hs hstack hfuel).cons_black hcolor

/-- **Deadlock detection is exact.**  It ends; it returns true if and only if some transaction waits,
directly or through others, for itself; `cycle_out` is then given a cycle of different transactions,
and is left alone otherwise. -/
theorem detectDeadlock_exact (graph : WaitForGraph) (cycleOut : Option (List TxnId)) :
    ∃ found out, detectDeadlock graph cycleOut = some (found, out) ∧
      (found = true ↔ ∃ t, TransGen (WaitsFor graph) t t) ∧
      (found = true → ∃ c, IsCycle (WaitsFor graph) c ∧ out = cycleOut.map fun _ => c) ∧
      (found = false → out = cycleOut) := by
  have hsearch : Outcome graph (graph.entries.map Prod.fst) ⟨fun _ => .white, [], cycleOut⟩
      (visitAll (visit graph (vertices graph).length) (graph.entries.map Prod.fst)
        ⟨fun _ => .white, [], cycleOut⟩) :=
    visitAll_spec (visit_spec graph _) (fun t => mem_vertices_of_mem_keys) _ .start rfl
      List.countP_le_length
  rw [detectDeadlock]
  rcases hsearch with ⟨s, hr, c, hc, hout⟩ | ⟨s, hr, hpassed, hblack⟩
  · rw [hr]
    exact ⟨true, s.cycleOut, rfl, iff_of_true rfl hc.transGen, fun _ => ⟨c, hc, hout⟩, by simp⟩
  · have hacyclic := hpassed.coloring.acyclic_of_black fun t u htu => hblack t htu.mem_keys
    rw [hr]
    exact ⟨false, s.cycleOut, rfl, iff_of_false Bool.false_ne_true hacyclic, by simp,
      fun _ => hpassed.cycleOut⟩

end MiniDB.LockManager
