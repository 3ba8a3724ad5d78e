import Nomo.Lib.DirectedGraph

/-!
# Sorting the graphs of the workspace

`src/libs/graph/src/lib.rs:36–141`.  A graph is private: it starts empty and gets its nodes and edges from
`add_node` and `add_edge`, so that the ends of every edge are nodes.
-/

namespace Nomo.Graph

open Nomo.Lib Nomo.Lib.DirectedGraph

variable {N : Type} [LinearOrder N]

/-- The operations that change a graph (`lib.rs:55–68`). -/
inductive Operation (N : Type) where
  | addNode (node : N)
  | addEdge (source target : N)

/-- One operation. -/
def apply (g : DirectedGraph N) : Operation N → DirectedGraph N
  | .addNode node => g.addNode node
  | .addEdge source target => g.addEdge source target

/-- The graph after some operations on `DirectedGraph::new()`. -/
def build (operations : List (Operation N)) : DirectedGraph N := operations.foldl apply .empty

theorem closed_apply {g : DirectedGraph N} (h : g.Closed) (operation : Operation N) :
    (apply g operation).Closed := by
  cases operation with
  | addNode node => exact h.addNode node
  | addEdge source target => exact h.addEdge source target

theorem closed_build (operations : List (Operation N)) : (build operations).Closed := by
  have hall : ∀ g, g.Closed → (operations.foldl apply g).Closed := by
    induction operations with
    | nil => exact fun _ h => h
    | cons operation rest ih => exact fun g h => ih _ (closed_apply h operation)
  exact hall _ closed_empty

/-- **The sort is right.**  On every graph it succeeds exactly if there is no cycle; then every node
stands in the order once, after the nodes it depends on.  Otherwise it reports a closed path along edges,
and never runs into its `expect`. -/
theorem topologicalSort_correct (operations : List (Operation N)) :
    ((∃ ordered, (build operations).topologicalSort = .ok ordered) ↔ (build operations).Acyclic) ∧
      (∀ ordered, (build operations).topologicalSort = .ok ordered →
        ordered.Nodup ∧ ordered.Perm (build operations).edges.keys ∧
          (build operations).SuccessorsFirst ordered) ∧
      ∀ halt, (build operations).topologicalSort = .error halt →
        ∃ path, halt = .cycle path ∧ (build operations).IsCycle path := by
  have hspec := topologicalSort_spec (closed_build operations)
  cases hsort : (build operations).topologicalSort with
  | ok ordered =>
    rw [hsort] at hspec
    obtain ⟨hnodup, hmem, hfirst⟩ := hspec
    have hacyclic := acyclic_of_successorsFirst hnodup hfirst
      fun a b hedge => (hmem a).2 (mem_of_edge hedge)
    refine ⟨iff_of_true ⟨ordered, rfl⟩ hacyclic, ?_, nofun⟩
    rintro _ ⟨⟩
    refine ⟨hnodup, (List.perm_ext_iff_of_nodup hnodup Std.TreeMap.nodup_keys).2 fun a => ?_, hfirst⟩
    exact (hmem a).trans Std.TreeMap.mem_keys.symm
  | error halt =>
    rw [hsort] at hspec
    obtain ⟨path, rfl, hcycle⟩ := hspec
    refine ⟨iff_of_false nofun (not_acyclic_of_isCycle hcycle), nofun, ?_⟩
    rintro _ ⟨⟩
    exact ⟨path, rfl, hcycle⟩

end Nomo.Graph
