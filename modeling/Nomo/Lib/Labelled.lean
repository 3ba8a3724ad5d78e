import Mathlib.Data.List.Basic
import Mathlib.Tactic

/-!
# Labelled runs

A system takes steps, and each step shows a label. A run is a sequence of steps with its labels.

What every step keeps holds in every state that is reached (`Run.invariant`); a property of the labels
so far and the state goes from run to run in the same way (`Run.history`). A run is legal for an automaton
on labels if the automaton allows each label where it is (`Legal`); then what it allows after some labels
follows from where they lead it.
-/

namespace Nomo.Lib

variable {σ l : Type} {step : σ → l → σ → Prop}

/-! ## Runs -/

/-- A sequence of steps. -/
inductive Run (step : σ → l → σ → Prop) : σ → List l → σ → Prop
  | nil (s : σ) : Run step s [] s
  | cons {s t u : σ} {label : l} {labels : List l} : step s label t → Run step t labels u →
      Run step s (label :: labels) u

namespace Run

variable {s t u : σ} {label : l} {labels labels' : List l}

theorem invariant {inv : σ → Prop} (hstep : ∀ s label t, inv s → step s label t → inv t)
    (h : Run step s labels t) (hs : inv s) : inv t := by
  induction h with
  | nil => exact hs
  | cons hfirst _ ih => exact ih (hstep _ _ _ hs hfirst)

theorem history {inv : List l → σ → Prop}
    (hstep : ∀ past s label t, inv past s → step s label t → inv (past ++ [label]) t)
    (h : Run step s labels t) {past : List l} (hs : inv past s) : inv (past ++ labels) t := by
  induction h generalizing past with
  | nil => rwa [List.append_nil]
  | @cons s t u label labels hfirst _ ih =>
    have hnext := ih (hstep _ _ _ _ hs hfirst)
    rwa [List.append_assoc, List.singleton_append] at hnext

end Run

/-! ## What each label says -/

/-- Each label has a property together with the labels before it. -/
def Throughout (P : List l → l → Prop) (labels : List l) : Prop :=
  ∀ before label after, labels = before ++ label :: after → P before label

namespace Throughout

variable {P : List l → l → Prop} {labels : List l} {label : l}

theorem nil : Throughout P [] := by
  intro before label after h
  simp at h

theorem concat_iff : Throughout P (labels ++ [label]) ↔ Throughout P labels ∧ P labels label := by
  constructor
  · intro h
    refine ⟨fun before other after hlabels => ?_, h labels label [] rfl⟩
    exact h before other (after ++ [label]) (by rw [hlabels, List.append_assoc, List.cons_append])
  rintro ⟨h, hlabel⟩ before other after hlabels
  rcases List.eq_nil_or_concat after with rfl | ⟨upto, last, rfl⟩
  · obtain ⟨rfl, hlast⟩ := List.append_inj' hlabels rfl
    cases hlast
    exact hlabel
  · rw [List.concat_eq_append, ← List.cons_append, ← List.append_assoc] at hlabels
    obtain ⟨rfl, -⟩ := List.append_inj' hlabels rfl
    exact h before other upto rfl

end Throughout

/-! ## Automata on labels -/

/-- An automaton on labels: the labels it allows in a state, and where they lead. -/
structure Automaton (q l : Type) where
  allows : q → l → Prop
  next : q → l → q

namespace Automaton

variable {q : Type} (a : Automaton q l)

/-- Where labels lead. -/
def after (state : q) (labels : List l) : q := labels.foldl a.next state

/-- Each label is allowed where it is. -/
def Legal (state : q) : List l → Prop
  | [] => True
  | label :: labels => a.allows state label ∧ Legal (a.next state label) labels

variable {a} {state : q} {label : l} {labels labels' : List l}

@[simp] theorem after_nil : a.after state [] = state := rfl

@[simp] theorem after_cons : a.after state (label :: labels) = a.after (a.next state label) labels := rfl

theorem after_append : a.after state (labels ++ labels') = a.after (a.after state labels) labels' :=
  List.foldl_append

theorem legal_append_iff :
    a.Legal state (labels ++ labels') ↔ a.Legal state labels ∧ a.Legal (a.after state labels) labels' := by
  induction labels generalizing state with
  | nil => simp [Legal]
  | cons label labels ih =>
    rw [List.cons_append, Legal, Legal, ih, after_cons, and_assoc]

theorem Legal.allows (h : a.Legal state (labels ++ label :: labels')) :
    a.allows (a.after state labels) label :=
  (legal_append_iff.mp h).2.1

theorem after_keeps {keeps : q → Prop} (hstep : ∀ label ∈ labels, ∀ state, keeps state →
    a.allows state label → keeps (a.next state label)) (h : a.Legal state labels) (hs : keeps state) :
    keeps (a.after state labels) := by
  induction labels generalizing state with
  | nil => exact hs
  | cons label labels ih =>
    obtain ⟨hlabel, hlabels⟩ := List.forall_mem_cons.mp hstep
    exact ih hlabels h.2 (hlabel state hs h.1)

/-- A system whose steps show what an automaton allows: its runs are legal, and the automaton follows
them. -/
theorem legal_of_run {inv : σ → Prop} (view : σ → q)
    (hstep : ∀ s label t, inv s → step s label t →
      inv t ∧ a.allows (view s) label ∧ view t = a.next (view s) label)
    {s t : σ} (h : Run step s labels t) (hs : inv s) :
    a.Legal (view s) labels ∧ view t = a.after (view s) labels := by
  induction h with
  | nil => exact ⟨trivial, rfl⟩
  | cons hfirst _ ih =>
    obtain ⟨ht, hallows, hview⟩ := hstep _ _ _ hs hfirst
    obtain ⟨hlegal, hafter⟩ := ih ht
    rw [hview] at hlegal hafter
    exact ⟨⟨hallows, hlegal⟩, hafter⟩

/-! ## The automaton of a component -/

section

variable (about : l → Prop) [DecidablePred about] (answers : q → l → Prop) (step : q → l → q)

/-- The automaton of one component of a system: a label that is not about it says and changes nothing. -/
def component : Automaton q l where
  allows state label := about label → answers state label
  next state label := if about label then step state label else state

variable {about answers step}

@[simp] theorem component_next_own (h : about label) :
    (component about answers step).next state label = step state label := if_pos h

@[simp] theorem component_next_other (h : ¬ about label) :
    (component about answers step).next state label = state := if_neg h

theorem component_keeps (keeps : q → Prop) (hstep : ∀ label ∈ labels, about label → ∀ state,
      keeps state → answers state label → keeps (step state label))
    (hlegal : (component about answers step).Legal state labels) (hs : keeps state) :
    keeps ((component about answers step).after state labels) := by
  refine after_keeps (fun label hlabel state hkeeps hallows => ?_) hlegal hs
  by_cases hown : about label
  · rw [component_next_own hown]
    exact hstep label hlabel hown state hkeeps (hallows hown)
  · rw [component_next_other hown]
    exact hkeeps

/-- In a legal sequence a label about the component answers where the ones before it lead, and what is
after it is legal where it leads. -/
theorem component_split (hlegal : (component about answers step).Legal state (labels ++ label :: labels'))
    (hown : about label) :
    answers ((component about answers step).after state labels) label ∧
      (component about answers step).Legal
        (step ((component about answers step).after state labels) label) labels' := by
  obtain ⟨hallows, hafter⟩ := (legal_append_iff.mp hlegal).2
  rw [component_next_own hown] at hafter
  exact ⟨hallows hown, hafter⟩

end

/-! ## Systems of components -/

section

variable {ι : Type}

/-- A step keeps what always holds; it shows, for each component, what its automaton allows, and leads
where that leads. -/
structure Follows (inv : σ → Prop) (view : σ → ι → q) (components : ι → Automaton q l)
    (s : σ) (label : l) (t : σ) : Prop where
  keeps : inv t
  allows : ∀ i, (components i).allows (view s i) label
  leads : ∀ i, view t i = (components i).next (view s i) label

variable {inv : σ → Prop} {view : σ → ι → q} {components : ι → Automaton q l} {s t : σ}

/-- If all steps follow the components, the runs of the system are legal for each of them, and each
component is where its automaton is. -/
theorem Follows.legal (hstep : ∀ s label t, inv s → step s label t → Follows inv view components s label t)
    (h : Run step s labels t) (hs : inv s) (i : ι) :
    (components i).Legal (view s i) labels ∧ view t i = (components i).after (view s i) labels :=
  legal_of_run (fun s => view s i)
    (fun s label t hs hfirst =>
      have hfollows := hstep s label t hs hfirst
      ⟨hfollows.keeps, hfollows.allows i, hfollows.leads i⟩) h hs

theorem Follows.invariant
    (hstep : ∀ s label t, inv s → step s label t → Follows inv view components s label t)
    (h : Run step s labels t) (hs : inv s) : inv t :=
  h.invariant (fun s label t hs hfirst => (hstep s label t hs hfirst).keeps) hs

end

end Automaton

end Nomo.Lib
