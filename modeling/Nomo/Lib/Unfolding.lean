import Mathlib

/-!
# Unfolding references in order

A recursion that unfolds the references of a node one after the other, each to the end, and stops at
the first that leads nowhere (`none`). It is run to a depth given in advance.

The recursion is the same with or without a bound as long as the bound is not met, so it ends if and
only if some bound suffices. `inOrder_ne_tooDeep`: one suffices if no node comes back on its own way
down. A way down is a stack of nodes being unfolded: the turn of a reference comes when those before it
have been unfolded to the end.
-/

namespace Nomo.Lib.Unfolding

universe u v

/-- How an unfolding ends. -/
inductive Ending
  | done
  | failed
  | tooDeep
deriving DecidableEq

variable {N : Type u} {K : Type v}

/-- Unfold references one after the other, up to the first that is not done. -/
def inOrder (f : N → Ending) : List (Option N) → Ending
  | [] => .done
  | none :: _ => .failed
  | some node :: rest =>
    match f node with
    | .done => inOrder f rest
    | .failed => .failed
    | .tooDeep => .tooDeep

/-- Unfold a node to a depth. -/
def unfolding (calls : N → List (Option N)) : ℕ → N → Ending
  | 0, _ => .tooDeep
  | depth + 1, node => inOrder (unfolding calls depth) (calls node)

/-- Every reference below a node leads somewhere, and no way down is endless. -/
inductive Complete (calls : N → List (Option N)) : N → Prop
  | intro (node : N) (hall : none ∉ calls node)
      (hcalls : ∀ next, some next ∈ calls node → Complete calls next) : Complete calls node

/-- The turn of `next` comes: those before it have passed. -/
def Turn (passed : N → Prop) (references : List (Option N)) (next : N) : Prop :=
  ∃ before after, references = before ++ some next :: after ∧
    ∀ reference ∈ before, ∃ node, reference = some node ∧ passed node

/-- The nodes being unfolded, the last first. -/
inductive Stack (calls : N → List (Option N)) (passed : N → Prop) (starts : List (Option N)) :
    List N → Prop
  | start (node : N) (hturn : Turn passed starts node) : Stack calls passed starts [node]
  | call (next node : N) (stack : List N) (hstack : Stack calls passed starts (node :: stack))
      (hturn : Turn passed (calls node) next) : Stack calls passed starts (next :: node :: stack)

/-- No node that is met comes back further down, as far as its key tells. -/
def NeverReturns (key : N → K) (calls : N → List (Option N)) (starts : List (Option N)) : Prop :=
  ∀ start node next, Turn (Complete calls) starts start →
    Relation.ReflTransGen (fun node => Turn (Complete calls) (calls node)) start node →
    Relation.TransGen (fun node => Turn (Complete calls) (calls node)) node next →
    key next ≠ key node

variable {calls : N → List (Option N)} {passed : N → Prop} {starts : List (Option N)}

/-! ## Unfolding to the end -/

@[simp] theorem inOrder_nil {f : N → Ending} : inOrder f [] = .done := rfl

@[simp] theorem inOrder_none {f : N → Ending} {rest : List (Option N)} :
    inOrder f (none :: rest) = .failed := rfl

theorem inOrder_some {f : N → Ending} {node : N} {rest : List (Option N)} :
    inOrder f (some node :: rest) = if f node = .done then inOrder f rest else f node := by
  rw [inOrder]
  cases f node <;> rfl

theorem inOrder_eq_done {f : N → Ending} {references : List (Option N)} :
    inOrder f references = .done ↔
      none ∉ references ∧ ∀ node, some node ∈ references → f node = .done := by
  induction references with
  | nil => simp
  | cons reference rest ih =>
    cases reference with
    | none => simp
    | some node =>
      rw [inOrder_some]
      split_ifs with hnode
      · simp [ih, hnode]
      · simp [hnode]

/-- An unfolding that is too deep is so at a reference whose turn comes. -/
theorem exists_turn_of_tooDeep {f : N → Ending} (hpassed : ∀ node, f node = .done → passed node)
    {references : List (Option N)} (h : inOrder f references = .tooDeep) :
    ∃ next, Turn passed references next ∧ f next = .tooDeep := by
  induction references with
  | nil => cases h
  | cons reference rest ih =>
    cases reference with
    | none => cases h
    | some node =>
      rw [inOrder_some] at h
      split_ifs at h with hnode
      · obtain ⟨next, ⟨before, after, rfl, hbefore⟩, hnext⟩ := ih h
        refine ⟨next, ⟨some node :: before, after, rfl, ?_⟩, hnext⟩
        rintro reference (_ | ⟨_, hmem⟩)
        · exact ⟨node, rfl, hpassed node hnode⟩
        · exact hbefore reference hmem
      · exact ⟨node, ⟨[], rest, rfl, nofun⟩, h⟩

theorem unfolding_mono {depth : ℕ} {node : N} (h : unfolding calls depth node = .done) :
    unfolding calls (depth + 1) node = .done := by
  induction depth generalizing node with
  | zero => cases h
  | succ depth ih =>
    rw [unfolding, inOrder_eq_done] at h ⊢
    exact ⟨h.1, fun next hnext => ih (h.2 next hnext)⟩

theorem unfolding_mono_le {depth larger : ℕ} {node : N} (hle : depth ≤ larger)
    (h : unfolding calls depth node = .done) : unfolding calls larger node = .done := by
  induction hle with
  | refl => exact h
  | step _ ih => exact unfolding_mono ih

theorem exists_depth {references : List (Option N)}
    (h : ∀ node, some node ∈ references → ∃ depth, unfolding calls depth node = .done) :
    ∃ depth, ∀ node, some node ∈ references → unfolding calls depth node = .done := by
  induction references with
  | nil => exact ⟨0, nofun⟩
  | cons reference rest ih =>
    obtain ⟨depth, hdepth⟩ := ih fun node hnode => h node (List.mem_cons_of_mem _ hnode)
    cases reference with
    | none => exact ⟨depth, fun node hnode => hdepth node (by simpa using hnode)⟩
    | some first =>
      obtain ⟨own, hown⟩ := h first List.mem_cons_self
      refine ⟨max own depth, fun node hnode => ?_⟩
      rcases List.mem_cons.1 hnode with heq | hnode
      · obtain rfl : node = first := by simpa using heq
        exact unfolding_mono_le (le_max_left _ _) hown
      · exact unfolding_mono_le (le_max_right _ _) (hdepth node hnode)

/-- **A node is unfolded to the end** at some depth exactly if it is complete. -/
theorem exists_done_iff_complete {node : N} :
    (∃ depth, unfolding calls depth node = .done) ↔ Complete calls node := by
  constructor
  · rintro ⟨depth, h⟩
    induction depth generalizing node with
    | zero => cases h
    | succ depth ih =>
      rw [unfolding, inOrder_eq_done] at h
      exact .intro node h.1 fun next hnext => ih (h.2 next hnext)
  · intro h
    induction h with
    | intro node hall _ ih =>
      obtain ⟨depth, hdepth⟩ := exists_depth ih
      exact ⟨depth + 1, by rw [unfolding, inOrder_eq_done]; exact ⟨hall, hdepth⟩⟩

/-! ## Ways down -/

theorem Turn.mem {references : List (Option N)} {next : N} (h : Turn passed references next) :
    some next ∈ references := by
  obtain ⟨before, after, rfl, -⟩ := h
  simp

theorem Stack.reaches {stack : List N} (h : Stack calls passed starts stack) :
    ∃ node below start, stack = node :: below ∧ Turn passed starts start ∧
      Relation.ReflTransGen (fun node => Turn passed (calls node)) start node ∧
      ∀ other ∈ below,
        Relation.ReflTransGen (fun node => Turn passed (calls node)) start other ∧
        Relation.TransGen (fun node => Turn passed (calls node)) other node := by
  induction h with
  | start node hturn => exact ⟨node, [], node, rfl, hturn, .refl, nofun⟩
  | call next node stack hstack hturn ih =>
    obtain ⟨_, _, start, heq, hstart, hreach, hbelow⟩ := ih
    obtain ⟨rfl, rfl⟩ := List.cons.inj heq
    refine ⟨next, node :: stack, start, rfl, hstart, hreach.tail hturn, ?_⟩
    rintro other (_ | ⟨_, hother⟩)
    · exact ⟨hreach, .single hturn⟩
    · exact ⟨(hbelow other hother).1, (hbelow other hother).2.tail hturn⟩

theorem Stack.exists_of_reaches {start node : N} (hstart : Turn passed starts start)
    (hreach : Relation.ReflTransGen (fun node => Turn passed (calls node)) start node) :
    ∃ below, Stack calls passed starts (node :: below) := by
  induction hreach with
  | refl => exact ⟨[], .start start hstart⟩
  | tail _ hturn ih =>
    obtain ⟨below, hstack⟩ := ih
    exact ⟨_, .call _ _ below hstack hturn⟩

theorem Stack.exists_of_transGen {node next : N} {below : List N}
    (hstack : Stack calls passed starts (node :: below))
    (hreach : Relation.TransGen (fun node => Turn passed (calls node)) node next) :
    ∃ between, Stack calls passed starts (next :: between) ∧ node ∈ between := by
  induction hreach with
  | single hturn => exact ⟨node :: below, .call _ _ below hstack hturn, List.mem_cons_self⟩
  | tail _ hturn ih =>
    obtain ⟨between, hbetween, hmem⟩ := ih
    exact ⟨_, .call _ _ between hbetween hturn, List.mem_cons_of_mem _ hmem⟩

/-- **No way down meets a key twice** exactly if no node comes back. -/
theorem nodup_iff_neverReturns {key : N → K} (hpassed : ∀ node, passed node ↔ Complete calls node) :
    (∀ stack, Stack calls passed starts stack → (stack.map key).Nodup) ↔
      NeverReturns key calls starts := by
  obtain rfl : passed = Complete calls := funext fun node => propext (hpassed node)
  constructor
  · intro hnodup start node next hstart hreach hreturn heq
    obtain ⟨below, hstack⟩ := Stack.exists_of_reaches hstart hreach
    obtain ⟨between, hbetween, hmem⟩ := hstack.exists_of_transGen hreturn
    have hdistinct := hnodup _ hbetween
    rw [List.map_cons, List.nodup_cons] at hdistinct
    exact hdistinct.1 (heq ▸ List.mem_map_of_mem hmem)
  · intro hnever stack hstack
    induction hstack with
    | start node hturn => simp
    | call next node stack hstack hturn ih =>
      rw [List.map_cons, List.nodup_cons]
      refine ⟨?_, ih⟩
      obtain ⟨_, _, start, heq, hstart, -, hbelow⟩ := (Stack.call next node stack hstack hturn).reaches
      obtain ⟨rfl, rfl⟩ := List.cons.inj heq
      rintro hmem
      obtain ⟨other, hother, hkey⟩ := List.mem_map.1 hmem
      exact hnever start other next hstart (hbelow other hother).1 (hbelow other hother).2 hkey.symm

/-! ## A depth that suffices -/

theorem Stack.keys_subset {key : N → K} {keys : List K}
    (hstarts : ∀ node, some node ∈ starts → key node ∈ keys)
    (hcalls : ∀ node next, some next ∈ calls node → key next ∈ keys) {stack : List N}
    (h : Stack calls passed starts stack) : stack.map key ⊆ keys := by
  induction h with
  | start node hturn => simpa using hstarts node hturn.mem
  | call next node stack _ hturn ih =>
    exact List.cons_subset.2 ⟨hcalls node next hturn.mem, ih⟩

/-- On a way down on which no key is met twice, the depth left is that of the keys not met. -/
theorem Stack.unfolding_ne_tooDeep {key : N → K} {keys : List K}
    (hpassed : ∀ node, passed node ↔ Complete calls node)
    (hstarts : ∀ node, some node ∈ starts → key node ∈ keys)
    (hcalls : ∀ node next, some next ∈ calls node → key next ∈ keys)
    (hnodup : ∀ stack, Stack calls passed starts stack → (stack.map key).Nodup)
    {depth : ℕ} {node : N} {below : List N} (hstack : Stack calls passed starts (node :: below))
    (hdepth : keys.length < depth + (node :: below).length) :
    unfolding calls depth node ≠ .tooDeep := by
  induction depth generalizing node below with
  | zero =>
    -- more different keys than there are
    have hlength := ((hnodup _ hstack).subperm (hstack.keys_subset hstarts hcalls)).length_le
    rw [List.length_map] at hlength
    omega
  | succ depth ih =>
    intro hdeep
    rw [unfolding] at hdeep
    obtain ⟨next, hturn, hnext⟩ := exists_turn_of_tooDeep
      (fun node hnode => (hpassed node).2 (exists_done_iff_complete.1 ⟨depth, hnode⟩)) hdeep
    refine ih (.call next node below hstack hturn) ?_ hnext
    simp only [List.length_cons] at hdepth ⊢
    omega

/-- **A depth that suffices**: one more than there are keys, if no way down meets a key twice. -/
theorem inOrder_ne_tooDeep {key : N → K} {keys : List K}
    (hpassed : ∀ node, passed node ↔ Complete calls node)
    (hstarts : ∀ node, some node ∈ starts → key node ∈ keys)
    (hcalls : ∀ node next, some next ∈ calls node → key next ∈ keys)
    (hnodup : ∀ stack, Stack calls passed starts stack → (stack.map key).Nodup) :
    inOrder (unfolding calls (keys.length + 1)) starts ≠ .tooDeep := by
  intro hdeep
  obtain ⟨next, hturn, hnext⟩ := exists_turn_of_tooDeep
    (fun node hnode => (hpassed node).2 (exists_done_iff_complete.1 ⟨_, hnode⟩)) hdeep
  refine Stack.unfolding_ne_tooDeep hpassed hstarts hcalls hnodup (.start next hturn) ?_ hnext
  simp only [List.length_cons, List.length_nil]
  omega

end Nomo.Lib.Unfolding
