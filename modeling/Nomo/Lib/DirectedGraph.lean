import Mathlib

/-!
# Directed graphs and their cycles

A graph as a map from nodes to their successors, and the depth-first search that sorts it. The search is
given a number of nested visits it may make; a search that needs more is `outOfFuel`, and one more
than there are nodes is enough.

`topologicalSort_spec`: the search returns every node once, each after its successors, or a closed path
along edges. It carries through the search that the nodes being visited are the stack, that the stack is
a path along edges, and that the nodes visited are in order (`Sound`), so an edge back to the stack closes
a cycle.
-/

namespace Nomo.Lib

universe u

variable {N : Type u} [LinearOrder N]

/-- A directed graph. -/
structure DirectedGraph (N : Type u) [LinearOrder N] where
  edges : Std.TreeMap N (Std.TreeSet N)

namespace DirectedGraph

/-- The graph without nodes. -/
def empty : DirectedGraph N := ⟨∅⟩

/-- The successors of a node. -/
def successors (g : DirectedGraph N) (node : N) : Std.TreeSet N := g.edges[node]?.getD ∅

/-- Add a node. -/
def addNode (g : DirectedGraph N) (node : N) : DirectedGraph N :=
  if node ∈ g.edges then g else ⟨g.edges.insert node ∅⟩

/-- Add an edge, and its ends. -/
def addEdge (g : DirectedGraph N) (source target : N) : DirectedGraph N :=
  let g := g.addNode target
  ⟨g.edges.insert source ((g.successors source).insert target)⟩

/-- There is an edge. -/
def Edge (g : DirectedGraph N) (a b : N) : Prop := b ∈ g.successors a

/-- Every successor is a node. -/
def Closed (g : DirectedGraph N) : Prop := ∀ a b, g.Edge a b → b ∈ g.edges

@[simp] theorem not_edge_empty {a b : N} : ¬ (empty : DirectedGraph N).Edge a b := by
  simp [Edge, successors, empty]

theorem closed_empty : (empty : DirectedGraph N).Closed := fun _ _ h => absurd h not_edge_empty

theorem successors_addNode (g : DirectedGraph N) (node a : N) :
    (g.addNode node).successors a = g.successors a := by
  unfold addNode
  split_ifs with h
  · rfl
  unfold successors
  simp only [Std.TreeMap.getElem?_insert, Std.LawfulEqCmp.compare_eq_iff_eq]
  split_ifs with heq
  · subst heq
    rw [Std.TreeMap.getElem?_eq_none h]
    rfl
  · rfl

@[simp] theorem edge_addNode {g : DirectedGraph N} {node a b : N} :
    (g.addNode node).Edge a b ↔ g.Edge a b := by
  unfold Edge
  rw [successors_addNode]

theorem mem_addNode {g : DirectedGraph N} {node a : N} :
    a ∈ (g.addNode node).edges ↔ a = node ∨ a ∈ g.edges := by
  unfold addNode
  split_ifs with h
  · constructor
    · exact .inr
    · rintro (rfl | ha)
      · exact h
      · exact ha
  · simp only [Std.TreeMap.mem_insert, Std.LawfulEqCmp.compare_eq_iff_eq]
    rw [eq_comm]

@[simp] theorem edge_addEdge {g : DirectedGraph N} {source target a b : N} :
    (g.addEdge source target).Edge a b ↔ (a = source ∧ b = target) ∨ g.Edge a b := by
  show b ∈ ((g.addNode target).edges.insert source
    (((g.addNode target).successors source).insert target))[a]?.getD ∅ ↔ _
  rw [successors_addNode, Std.TreeMap.getElem?_insert]
  simp only [Std.LawfulEqCmp.compare_eq_iff_eq]
  split_ifs with h
  · subst h
    simp only [Option.getD_some, Std.TreeSet.mem_insert, Std.LawfulEqCmp.compare_eq_iff_eq,
      true_and, eq_comm (a := target)]
    rfl
  · show (g.addNode target).Edge a b ↔ _
    rw [edge_addNode]
    simp [Ne.symm h]

theorem mem_addEdge {g : DirectedGraph N} {source target a : N} :
    a ∈ (g.addEdge source target).edges ↔ a = source ∨ a = target ∨ a ∈ g.edges := by
  unfold addEdge
  simp only [Std.TreeMap.mem_insert, mem_addNode, Std.LawfulEqCmp.compare_eq_iff_eq]
  rw [eq_comm]

theorem Closed.addNode {g : DirectedGraph N} (h : g.Closed) (node : N) : (g.addNode node).Closed :=
  fun a b hab => mem_addNode.mpr (.inr (h a b (edge_addNode.mp hab)))

theorem Closed.addEdge {g : DirectedGraph N} (h : g.Closed) (source target : N) :
    (g.addEdge source target).Closed := by
  intro a b hab
  rcases edge_addEdge.mp hab with ⟨-, rfl⟩ | hab
  · exact mem_addEdge.mpr (.inr (.inl rfl))
  · exact mem_addEdge.mpr (.inr (.inr (h a b hab)))

/-! ## The search -/

/-- A node is being visited, or has been. -/
inductive VisitState
  | visiting
  | visited
deriving DecidableEq

/-- The state of the search. -/
structure Search (N : Type u) where
  states : N → Option VisitState
  stack : List N
  ordered : List N

/-- Why the search stops early. -/
inductive Halt (N : Type u)
  | cycle (path : List N)
  | panic (message : String)
  | outOfFuel

/-- The loop over the successors of a node. -/
def follow (visit : N → Search N → Except (Halt N) (Search N)) :
    List N → Search N → Except (Halt N) (Search N)
  | [], s => .ok s
  | successor :: rest, s =>
    match s.states successor with
    | some .visited => follow visit rest s
    | some .visiting =>
      match s.stack.idxOf? successor with
      | some start => .error (.cycle (s.stack.drop start ++ [successor]))
      | none => .error (.panic "visiting graph node must be present in the DFS stack")
    | none =>
      match visit successor s with
      | .ok s => follow visit rest s
      | .error halt => .error halt

/-- Visit a node. -/
def visit (g : DirectedGraph N) : ℕ → N → Search N → Except (Halt N) (Search N)
  | 0, _, _ => .error .outOfFuel
  | fuel + 1, node, s =>
    match follow (visit g fuel) (g.successors node).toList
      { s with states := Function.update s.states node (some .visiting)
               stack := s.stack ++ [node] } with
    | .ok s => .ok
        { states := Function.update s.states node (some .visited)
          stack := s.stack.dropLast
          ordered := s.ordered ++ [node] }
    | .error halt => .error halt

/-- The loop over all nodes. -/
def visitAll (g : DirectedGraph N) (fuel : ℕ) : List N → Search N → Except (Halt N) (Search N)
  | [], s => .ok s
  | node :: rest, s =>
    match s.states node with
    | some _ => visitAll g fuel rest s
    | none =>
      match visit g fuel node s with
      | .ok s => visitAll g fuel rest s
      | .error halt => .error halt

/-- Nodes before the nodes that have an edge to them, or a cycle. -/
def topologicalSort (g : DirectedGraph N) : Except (Halt N) (List N) :=
  match visitAll g (g.edges.size + 1) g.edges.keys ⟨fun _ => none, [], []⟩ with
  | .ok s => .ok s.ordered
  | .error halt => .error halt

/-- The cycle that the search finds. -/
def findCycle (g : DirectedGraph N) : Option (Halt N) :=
  match g.topologicalSort with
  | .ok _ => none
  | .error halt => some halt

/-! ## What the search keeps -/

/-- No node reaches itself. -/
def Acyclic (g : DirectedGraph N) : Prop := ∀ a, ¬ Relation.TransGen g.Edge a a

/-- A closed path along edges. -/
def IsCycle (g : DirectedGraph N) (path : List N) : Prop :=
  ∃ a inner, path = a :: inner ++ [a] ∧ path.IsChain g.Edge

/-- Every node stands after its successors. -/
def SuccessorsFirst (g : DirectedGraph N) (ordered : List N) : Prop :=
  ∀ before a after, ordered = before ++ a :: after → ∀ b, g.Edge a b → b ∈ before

/-- The nodes that the search has not seen. -/
def unseen (g : DirectedGraph N) (s : Search N) : Finset N :=
  g.edges.keys.toFinset.filter fun a => s.states a = none

/-- The nodes visited are in order, and the nodes being visited are a path. -/
structure Sound (g : DirectedGraph N) (s : Search N) : Prop where
  visited : ∀ a, s.states a = some .visited ↔ a ∈ s.ordered
  visiting : ∀ a, s.states a = some .visiting ↔ a ∈ s.stack
  nodup : s.ordered.Nodup
  first : g.SuccessorsFirst s.ordered
  chain : s.stack.IsChain g.Edge
  nodes : ∀ a ∈ s.ordered, a ∈ g.edges

/-- From `s` to `s'`: visited nodes stay visited, and the same nodes are on the stack. -/
structure Goes (s s' : Search N) : Prop where
  visited : ∀ a, s.states a = some .visited → s'.states a = some .visited
  stack : s'.stack = s.stack

omit [LinearOrder N] in
theorem Goes.refl (s : Search N) : Goes s s := ⟨fun _ h => h, rfl⟩

omit [LinearOrder N] in
theorem Goes.trans {s₁ s₂ s₃ : Search N} (h : Goes s₁ s₂) (h' : Goes s₂ s₃) : Goes s₁ s₃ where
  visited a ha := h'.visited a (h.visited a ha)
  stack := h'.stack.trans h.stack

variable {g : DirectedGraph N}

theorem Goes.card_unseen {s s' : Search N} (h : Goes s s') (hs : Sound g s) (hs' : Sound g s') :
    (g.unseen s').card ≤ (g.unseen s).card := by
  refine Finset.card_le_card fun a ha => ?_
  simp only [unseen, Finset.mem_filter] at ha ⊢
  refine ⟨ha.1, ?_⟩
  match hstate : s.states a with
  | none => rfl
  | some .visited => rw [h.visited a hstate] at ha; cases ha.2
  | some .visiting =>
    have hvisiting := (hs'.visiting a).2 (h.stack ▸ (hs.visiting a).1 hstate)
    rw [hvisiting] at ha
    cases ha.2

/-- How a part of the search ends: it goes on in a sound state, or it has found a cycle. -/
def Ends (g : DirectedGraph N) (s : Search N) (post : Search N → Prop) :
    Except (Halt N) (Search N) → Prop
  | .ok s' => Sound g s' ∧ Goes s s' ∧ post s'
  | .error halt => ∃ path, halt = .cycle path ∧ g.IsCycle path

theorem SuccessorsFirst.snoc {ordered : List N} {a : N} (h : g.SuccessorsFirst ordered)
    (ha : ∀ b, g.Edge a b → b ∈ ordered) : g.SuccessorsFirst (ordered ++ [a]) := by
  intro before c after heq b hedge
  rcases List.eq_nil_or_concat' after with rfl | ⟨after, d, rfl⟩
  · obtain ⟨rfl, hc⟩ := List.append_inj' heq rfl
    obtain rfl := List.singleton_inj.1 hc
    exact ha b hedge
  · have heq' : ordered ++ [a] = (before ++ c :: after) ++ [d] := by simpa using heq
    obtain ⟨rfl, -⟩ := List.append_inj' heq' rfl
    exact h before c after rfl b hedge

theorem isCycle_of_stack {stack : List N} {node b : N} (hchain : (stack ++ [node]).IsChain g.Edge)
    (hedge : g.Edge node b) {start : Nat} (hstart : (stack ++ [node]).idxOf? b = some start) :
    g.IsCycle ((stack ++ [node]).drop start ++ [b]) := by
  obtain ⟨hlt, hb, -⟩ := List.findIdx?_eq_some_iff_getElem.1 hstart
  have hdrop : (stack ++ [node]).drop start = b :: (stack ++ [node]).drop (start + 1) := by
    rw [List.drop_eq_getElem_cons hlt, beq_iff_eq.1 hb]
  refine ⟨b, (stack ++ [node]).drop (start + 1), by rw [hdrop], ?_⟩
  refine List.isChain_append.2 ⟨hchain.drop start, List.isChain_singleton _, ?_⟩
  intro a ha c hc
  rw [List.getLast?_drop] at ha
  split at ha
  · cases ha
  · obtain rfl : node = a := by simpa using ha
    obtain rfl : b = c := by simpa using hc
    exact hedge

theorem follow_spec {fuel : ℕ} {node : N}
    (hvisit : ∀ successor s, successor ∈ g.edges → s.states successor = none → Sound g s →
      (s.stack ++ [successor]).IsChain g.Edge → (g.unseen s).card < fuel →
        Ends g s (fun s' => s'.states successor = some .visited) (visit g fuel successor s))
    (hclosed : g.Closed) (successors : List N) (hsuccessors : ∀ b ∈ successors, g.Edge node b)
    (s : Search N) (hs : Sound g s) {stack : List N} (hstack : s.stack = stack ++ [node])
    (hfuel : (g.unseen s).card < fuel) :
    Ends g s (fun s' => ∀ b ∈ successors, s'.states b = some .visited)
      (follow (visit g fuel) successors s) := by
  induction successors generalizing s with
  | nil => exact ⟨hs, .refl s, by simp⟩
  | cons b rest ih =>
    have hedge : g.Edge node b := hsuccessors b (List.mem_cons_self ..)
    have hrest (b) (hb : b ∈ rest) : g.Edge node b := hsuccessors b (List.mem_cons_of_mem _ hb)
    -- once `b` has been visited the loop goes on with the rest
    have hnext : ∀ s₁, Sound g s₁ → Goes s s₁ → s₁.states b = some .visited →
        Ends g s (fun s' => ∀ c ∈ b :: rest, s'.states c = some .visited)
          (follow (visit g fuel) rest s₁) := by
      intro s₁ hs₁ hgoes hb
      have hloop := ih hrest s₁ hs₁ (hgoes.stack.trans hstack) ((hgoes.card_unseen hs hs₁).trans_lt hfuel)
      cases hrun : follow (visit g fuel) rest s₁ with
      | error halt =>
        rw [hrun] at hloop
        exact hloop
      | ok s₂ =>
        rw [hrun] at hloop
        obtain ⟨hs₂, hgoes₂, hall⟩ := hloop
        refine ⟨hs₂, hgoes.trans hgoes₂, List.forall_mem_cons.2 ⟨hgoes₂.visited b hb, hall⟩⟩
    unfold follow
    match hstate : s.states b with
    | some .visited => exact hnext s hs (.refl s) hstate
    | some .visiting =>
      have hmem := (hs.visiting b).1 hstate
      obtain ⟨start, hstart⟩ := Option.isSome_iff_exists.1 (List.isSome_idxOf?.2 hmem)
      simp only [hstart]
      rw [hstack] at hstart ⊢
      exact ⟨_, rfl, isCycle_of_stack (hstack ▸ hs.chain) hedge hstart⟩
    | none =>
      have hchain : (s.stack ++ [b]).IsChain g.Edge := by
        refine List.isChain_append.2 ⟨hs.chain, List.isChain_singleton _, ?_⟩
        intro a ha c hc
        obtain rfl : node = a := by simpa [hstack] using ha
        obtain rfl : b = c := by simpa using hc
        exact hedge
      have hone := hvisit b s (hclosed node b hedge) hstate hs hchain hfuel
      cases hrun : visit g fuel b s with
      | error halt =>
        rw [hrun] at hone
        exact hone
      | ok s₁ =>
        rw [hrun] at hone
        exact hnext s₁ hone.1 hone.2.1 hone.2.2

/-- **One visit** ends with the node visited, or with a cycle. -/
theorem visit_spec (hclosed : g.Closed) (fuel : ℕ) (node : N) (s : Search N) (hnode : node ∈ g.edges)
    (hstate : s.states node = none) (hs : Sound g s) (hchain : (s.stack ++ [node]).IsChain g.Edge)
    (hfuel : (g.unseen s).card < fuel) :
    Ends g s (fun s' => s'.states node = some .visited) (visit g fuel node s) := by
  induction fuel generalizing node s with
  | zero => exact absurd hfuel (Nat.not_lt_zero _)
  | succ fuel ih =>
    set s₁ : Search N := { s with
      states := Function.update s.states node (some .visiting)
      stack := s.stack ++ [node] } with hs₁
    have hnotOrdered : node ∉ s.ordered := fun h => by
      rw [(hs.visited node).2 h] at hstate
      cases hstate
    have hnotStack : node ∉ s.stack := fun h => by
      rw [(hs.visiting node).2 h] at hstate
      cases hstate
    have hsound : Sound g s₁ := by
      refine ⟨fun a => ?_, fun a => ?_, hs.nodup, hs.first, hchain, hs.nodes⟩
      · by_cases h : a = node
        · simp [s₁, h, hnotOrdered]
        · simpa [s₁, Function.update_of_ne h] using hs.visited a
      · by_cases h : a = node
        · simp [s₁, h]
        · simpa [s₁, Function.update_of_ne h, h] using hs.visiting a
    have hless : (g.unseen s₁).card < (g.unseen s).card := by
      refine Finset.card_lt_card (Finset.ssubset_iff_of_subset ?_ |>.mpr ⟨node, ?_, ?_⟩)
      · intro a ha
        simp only [unseen, Finset.mem_filter, s₁] at ha ⊢
        refine ⟨ha.1, ?_⟩
        by_cases h : a = node
        · rw [h, hstate]
        · rw [Function.update_of_ne h] at ha
          exact ha.2
      · simpa [unseen, hstate] using hnode
      · simp [unseen, s₁]
    have hloop := follow_spec (fun b s hb hn hsound hc hf => ih b s hb hn hsound hc hf) hclosed
      (g.successors node).toList (fun b hb => Std.TreeSet.mem_toList.mp hb) s₁ hsound rfl
      (by omega)
    rw [visit]
    cases hrun : follow (visit g fuel) (g.successors node).toList s₁ with
    | error halt =>
      rw [hrun] at hloop
      exact hloop
    | ok s₂ =>
      rw [hrun] at hloop
      obtain ⟨hs₂, hgoes, hall⟩ := hloop
      have hstack₂ : s₂.stack = s.stack ++ [node] := hgoes.stack
      have hvisiting := (hs₂.visiting node).2 (by simp [hstack₂])
      have hnew : node ∉ s₂.ordered := fun h => by
        rw [(hs₂.visited node).2 h] at hvisiting
        cases hvisiting
      refine ⟨⟨fun a => ?_, fun a => ?_, ?_, ?_, ?_, ?_⟩, ⟨fun a ha => ?_, ?_⟩, ?_⟩
      · by_cases h : a = node
        · simp [h]
        · simpa [Function.update_of_ne h, h] using hs₂.visited a
      · by_cases h : a = node
        · simp [h, hstack₂, hnotStack]
        · simpa [Function.update_of_ne h, h, hstack₂] using hs₂.visiting a
      · exact List.nodup_append.2 ⟨hs₂.nodup, List.nodup_singleton _, fun a ha b hb => by
          rw [List.mem_singleton.1 hb]
          rintro rfl
          exact hnew ha⟩
      · exact hs₂.first.snoc fun b hb => (hs₂.visited b).1 (hall b (Std.TreeSet.mem_toList.mpr hb))
      · simpa [hstack₂] using hs.chain
      · intro a ha
        rcases List.mem_append.1 ha with ha | ha
        · exact hs₂.nodes a ha
        · exact List.mem_singleton.1 ha ▸ hnode
      · by_cases h : a = node
        · simp [h]
        · simp only [Function.update_of_ne h]
          refine hgoes.visited a ?_
          simpa [s₁, Function.update_of_ne h] using ha
      · show s₂.stack.dropLast = s.stack
        simp [hstack₂]
      · simp

theorem visitAll_spec (hclosed : g.Closed) (nodes : List N) (hnodes : ∀ a ∈ nodes, a ∈ g.edges)
    (s : Search N) (hs : Sound g s) (hstack : s.stack = []) :
    Ends g s (fun s' => ∀ a ∈ nodes, s'.states a = some .visited)
      (visitAll g (g.edges.size + 1) nodes s) := by
  induction nodes generalizing s with
  | nil => exact ⟨hs, .refl s, by simp⟩
  | cons node rest ih =>
    replace ih := ih fun a ha => hnodes a (List.mem_cons_of_mem _ ha)
    have hnext (s₁) : Sound g s₁ → Goes s s₁ → s₁.states node = some .visited →
        Ends g s (fun s' => ∀ a ∈ node :: rest, s'.states a = some .visited)
          (visitAll g (g.edges.size + 1) rest s₁) := by
      intro hs₁ hgoes hnode
      have hloop := ih s₁ hs₁ (hgoes.stack.trans hstack)
      cases hrun : visitAll g (g.edges.size + 1) rest s₁ with
      | error halt =>
        rw [hrun] at hloop
        exact hloop
      | ok s₂ =>
        rw [hrun] at hloop
        obtain ⟨hs₂, hgoes₂, hall⟩ := hloop
        exact ⟨hs₂, hgoes.trans hgoes₂, List.forall_mem_cons.2 ⟨hgoes₂.visited node hnode, hall⟩⟩
    unfold visitAll
    match hstate : s.states node with
    | some .visited => exact hnext s hs (.refl s) hstate
    | some .visiting =>
      have hmem := (hs.visiting node).1 hstate
      rw [hstack] at hmem
      cases hmem
    | none =>
      have hcard : (g.unseen s).card < g.edges.size + 1 := by
        refine Nat.lt_succ_of_le ((Finset.card_filter_le _ _).trans ?_)
        exact (List.toFinset_card_le _).trans_eq Std.TreeMap.length_keys
      have hone := visit_spec hclosed _ node s (hnodes node (List.mem_cons_self ..)) hstate hs
        (by simp [hstack]) hcard
      cases hrun : visit g (g.edges.size + 1) node s with
      | error halt =>
        rw [hrun] at hone
        exact hone
      | ok s₁ =>
        rw [hrun] at hone
        exact hnext s₁ hone.1 hone.2.1 hone.2.2

/-! ## The order that is returned -/

/-- **The sort** returns every node once, after its successors, or it has found a cycle. -/
theorem topologicalSort_spec (hclosed : g.Closed) :
    match g.topologicalSort with
    | .ok ordered => ordered.Nodup ∧ (∀ a, a ∈ ordered ↔ a ∈ g.edges) ∧ g.SuccessorsFirst ordered
    | .error halt => ∃ path, halt = .cycle path ∧ g.IsCycle path := by
  have hstart : Sound g ⟨fun _ => none, [], []⟩ :=
    ⟨by simp, by simp, List.nodup_nil, fun before a after h => by simp at h, List.isChain_nil, by simp⟩
  have hall := visitAll_spec hclosed g.edges.keys (fun a ha => Std.TreeMap.mem_keys.mp ha) _ hstart rfl
  rw [topologicalSort]
  cases hrun : visitAll g (g.edges.size + 1) g.edges.keys ⟨fun _ => none, [], []⟩ with
  | error halt =>
    rw [hrun] at hall
    exact hall
  | ok s =>
    rw [hrun] at hall
    obtain ⟨hs, -, hvisited⟩ := hall
    exact ⟨hs.nodup, fun a => ⟨hs.nodes a, fun ha =>
      (hs.visited a).1 (hvisited a (Std.TreeMap.mem_keys.mpr ha))⟩, hs.first⟩

theorem SuccessorsFirst.idxOf_lt {ordered : List N} (hnodup : ordered.Nodup)
    (h : g.SuccessorsFirst ordered) {a b : N} (ha : a ∈ ordered) (hedge : g.Edge a b) :
    b ∈ ordered ∧ ordered.idxOf b < ordered.idxOf a := by
  obtain ⟨before, after, rfl, hbefore⟩ := List.eq_append_cons_of_mem ha
  have hb := h before a after rfl b hedge
  refine ⟨List.mem_append_left _ hb, ?_⟩
  rw [List.idxOf_append_of_mem hb, List.idxOf_append_of_notMem hbefore, List.idxOf_cons_self]
  have := List.idxOf_lt_length_iff.2 hb
  omega

theorem acyclic_of_successorsFirst {ordered : List N} (hnodup : ordered.Nodup)
    (h : g.SuccessorsFirst ordered) (hall : ∀ a b, g.Edge a b → a ∈ ordered) : g.Acyclic := by
  have hless (a b) : Relation.TransGen g.Edge a b → ordered.idxOf b < ordered.idxOf a := by
    intro hab
    induction hab with
    | single hedge => exact (h.idxOf_lt hnodup (hall _ _ hedge) hedge).2
    | tail _ hedge ih => exact (h.idxOf_lt hnodup (hall _ _ hedge) hedge).2.trans ih
  exact fun a ha => (hless a a ha).false

theorem not_acyclic_of_isCycle {path : List N} (h : g.IsCycle path) : ¬ g.Acyclic := by
  obtain ⟨a, inner, rfl, hchain⟩ := h
  have hreach : ∀ inner a b, (a :: inner ++ [b]).IsChain g.Edge → Relation.TransGen g.Edge a b := by
    intro inner
    induction inner with
    | nil => exact fun a b h => .single (List.isChain_pair.1 h)
    | cons c inner ih =>
      intro a b h
      obtain ⟨hedge, hrest⟩ := List.isChain_cons_cons.1 h
      exact .head hedge (ih c b hrest)
  exact fun hacyclic => hacyclic a (hreach inner a a hchain)

theorem mem_of_edge {a b : N} (h : g.Edge a b) : a ∈ g.edges := by
  by_contra hnot
  rw [Edge, successors, Std.TreeMap.getElem?_eq_none hnot] at h
  simp at h

/-- **An acyclic graph** is sorted: the search finds no cycle. -/
theorem findCycle_of_acyclic (hacyclic : g.Acyclic) (hclosed : g.Closed) : g.findCycle = none := by
  have hspec := topologicalSort_spec hclosed
  rw [findCycle]
  cases hsort : g.topologicalSort with
  | ok ordered => rfl
  | error halt =>
    rw [hsort] at hspec
    obtain ⟨path, -, hcycle⟩ := hspec
    exact absurd hacyclic (not_acyclic_of_isCycle hcycle)

theorem acyclic_of_findCycle (hclosed : g.Closed) (h : g.findCycle = none) : g.Acyclic := by
  have hspec := topologicalSort_spec hclosed
  rw [findCycle] at h
  cases hsort : g.topologicalSort with
  | error halt =>
    rw [hsort] at h
    cases h
  | ok ordered =>
    rw [hsort] at hspec
    obtain ⟨hnodup, hmem, hfirst⟩ := hspec
    exact acyclic_of_successorsFirst hnodup hfirst fun a b hedge => (hmem a).2 (mem_of_edge hedge)

end DirectedGraph

end Nomo.Lib
