import Mathlib

/-!
# Words and fields

A text is cut into words at runs of spaces, or into fields at every separator. A word has no space; if
more elements count as spaces, every word is cut on into words (`words_eq_flatMap`).
-/

namespace Nomo.Lib

universe u

variable {α : Type u}

/-! ## Words -/

/-- The maximal runs without a space. -/
def words (space : α → Bool) (text : List α) : List (List α) :=
  (text.splitOnP space).filter fun word => !word.isEmpty

variable {space fine : α → Bool}

@[simp] theorem words_nil : words space [] = [] := rfl

theorem words_append_cons (xs ys : List α) {s : α} (hs : space s = true) :
    words space (xs ++ s :: ys) = words space xs ++ words space ys := by
  unfold words
  rw [List.splitOnP_append_cons _ _ hs, List.filter_append]

theorem words_of_forall_not {text : List α} (h : ∀ c ∈ text, space c = false) (hne : text ≠ []) :
    words space text = [text] := by
  unfold words
  rw [List.splitOnP_eq_singleton h]
  simp [hne]

theorem exists_first (p : α → Bool) (text : List α) : (∀ c ∈ text, p c = false) ∨
    ∃ xs c ys, text = xs ++ c :: ys ∧ p c = true ∧ ∀ x ∈ xs, p x = false := by
  induction text with
  | nil => exact .inl (by simp)
  | cons c cs ih =>
    by_cases hc : p c = true
    · exact .inr ⟨[], c, cs, rfl, hc, by simp⟩
    · have hc' : p c = false := by simpa using hc
      rcases ih with hall | ⟨xs, d, ys, rfl, hd, hxs⟩
      · exact .inl (List.forall_mem_cons.mpr ⟨hc', hall⟩)
      · exact .inr ⟨c :: xs, d, ys, rfl, hd, List.forall_mem_cons.mpr ⟨hc', hxs⟩⟩

theorem words_induction (space : α → Bool) {P : List α → Prop}
    (none : ∀ text, (∀ c ∈ text, space c = false) → P text)
    (first : ∀ xs c ys, space c = true → (∀ x ∈ xs, space x = false) → P ys → P (xs ++ c :: ys))
    (text : List α) : P text := by
  induction h : text.length using Nat.strong_induction_on generalizing text with
  | _ n ih =>
  rcases exists_first space text with hall | ⟨xs, c, ys, rfl, hc, hxs⟩
  · exact none text hall
  · refine first xs c ys hc hxs (ih ys.length ?_ ys rfl)
    simp only [List.length_append, List.length_cons] at h
    omega

theorem not_space_of_mem_words {text word : List α} (h : word ∈ words space text) :
    word ≠ [] ∧ ∀ c ∈ word, space c = false := by
  induction text using words_induction space with
  | none text hall =>
    cases text with
    | nil => cases h
    | cons c cs =>
      rw [words_of_forall_not hall (by simp), List.mem_singleton] at h
      subst h
      exact ⟨by simp, hall⟩
  | first xs c ys hc hxs ih =>
    rw [words_append_cons _ _ hc] at h
    rcases List.mem_append.mp h with h | h
    · cases xs with
      | nil => cases h
      | cons x xs =>
        rw [words_of_forall_not hxs (by simp), List.mem_singleton] at h
        subst h
        exact ⟨by simp, hxs⟩
    · exact ih h

/-- **More spaces.** If every space counts as one in the finer cut, the finer words are the words of
the words. -/
theorem words_eq_flatMap (hfine : ∀ c, space c = true → fine c = true) (text : List α) :
    words fine text = (words space text).flatMap (words fine) := by
  have hrun : ∀ xs : List α, (∀ c ∈ xs, space c = false) →
      words fine xs = (words space xs).flatMap (words fine) := by
    intro xs hxs
    cases xs with
    | nil => rfl
    | cons x xs => rw [words_of_forall_not hxs (by simp), List.flatMap_singleton]
  induction text using words_induction space with
  | none text hall => exact hrun text hall
  | first xs c ys hc hxs ih =>
    rw [words_append_cons _ _ hc, words_append_cons _ _ (hfine c hc), List.flatMap_append, ← ih,
      ← hrun xs hxs]

/-! ## Fields -/

section Fields

variable [DecidableEq α] (separator : α)

theorem separator_cases (text : List α) : separator ∉ text ∨
    (∃ left right, text = left ++ separator :: right ∧ separator ∉ left ∧ separator ∉ right) ∨
      ∃ left right, text = left ++ separator :: right ∧ separator ∉ left ∧ separator ∈ right := by
  by_cases h : separator ∈ text
  · obtain ⟨left, right, htext, hleft⟩ := List.eq_append_cons_of_mem h
    by_cases hright : separator ∈ right
    · exact .inr (.inr ⟨left, right, htext, hleft, hright⟩)
    · exact .inr (.inl ⟨left, right, htext, hleft, hright⟩)
  · exact .inl h

variable {separator}

theorem splitOn_one {left right : List α} (hleft : separator ∉ left) (hright : separator ∉ right) :
    (left ++ separator :: right).splitOn separator = [left, right] := by
  rw [List.splitOn_append_cons_self_of_not_mem hleft, List.splitOn_eq_singleton hright]

theorem splitOn_more {left right : List α} (hleft : separator ∉ left) (hright : separator ∈ right) :
    ∃ second third rest,
      (left ++ separator :: right).splitOn separator = left :: second :: third :: rest := by
  obtain ⟨second, more, rfl, hsecond⟩ := List.eq_append_cons_of_mem hright
  obtain ⟨third, rest, hmore⟩ := List.exists_cons_of_ne_nil (List.splitOn_ne_nil separator more)
  refine ⟨second, third, rest, ?_⟩
  rw [List.splitOn_append_cons_self_of_not_mem hleft,
    List.splitOn_append_cons_self_of_not_mem hsecond, hmore]

theorem mem_of_mem_splitOn {text field : List α} (h : field ∈ text.splitOn separator) {c : α}
    (hc : c ∈ field) : c ∈ text := by
  induction text using words_induction (· == separator) with
  | none text hall =>
    rw [List.splitOn_eq_singleton_of_beq_eq_false hall, List.mem_singleton] at h
    exact h ▸ hc
  | first xs d ys hd hxs ih =>
    rw [List.splitOn_append_cons_of_forall_mem_beq_eq_false hxs _ hd] at h
    rcases List.mem_cons.mp h with rfl | h
    · exact List.mem_append_left _ hc
    · exact List.mem_append_right _ (List.mem_cons_of_mem _ (ih h))

theorem exists_field_of_mem {text : List α} {c : α} (hc : c ∈ text) (hne : c ≠ separator) :
    ∃ field ∈ text.splitOn separator, c ∈ field := by
  induction text using words_induction (· == separator) with
  | none text hall =>
    rw [List.splitOn_eq_singleton_of_beq_eq_false hall]
    exact ⟨text, List.mem_singleton_self _, hc⟩
  | first xs d ys hd hxs ih =>
    rw [List.splitOn_append_cons_of_forall_mem_beq_eq_false hxs _ hd]
    rcases List.mem_append.mp hc with hc | hc
    · exact ⟨xs, List.mem_cons_self .., hc⟩
    · rcases List.mem_cons.mp hc with rfl | hc
      · exact absurd (beq_iff_eq.mp hd) hne
      · obtain ⟨field, hfield, hmem⟩ := ih hc
        exact ⟨field, List.mem_cons_of_mem _ hfield, hmem⟩

end Fields

end Nomo.Lib
