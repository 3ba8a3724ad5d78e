import Nomo.Paths.Runtime

/-!
# The parts of a path

What `nomo_path_join`, `nomo_path_basename` and `nomo_path_dirname` return.  A path with a name in it is
a folder, slashes, the name and more slashes (`path_cases`); `dirname` is the folder, with `.` for none
and `/` for the root, and `basename` is the name.  Joined again they have the moves of the path
(`moves_folder`).
-/

namespace Nomo.Paths

open Nomo.Lib Nomo.Lib.Block

/-- The memory of a string with this text. -/
structure Text (block : Block UInt8) (text : List UInt8) : Prop where
  zero : 0 ∉ text
  holds : Holds block (text ++ [0])

variable {path left right out : Block UInt8} {text : List UInt8}

theorem text_stringLiteral (h : 0 ∉ text) : Text (stringLiteral text) text := ⟨h, holds_map⟩

theorem Text.holds_text (h : Text path text) : Holds path text := h.holds.mono (List.prefix_append ..)

theorem strlen_of_text (h : Text path text) : strlen path = some text.length := by
  obtain ⟨hzero, rest, rfl⟩ := h
  induction text with
  | nil => rfl
  | cons c text ih =>
    obtain ⟨hc, htext⟩ := not_or.1 (mt List.mem_cons.2 hzero)
    simp only [List.cons_append, List.map_cons, strlen]
    rw [if_neg (Ne.symm hc), ih htext]
    rfl

theorem load_zero_of_text (h : Text path text) : load path 0 = some (text.head?.getD 0) := by
  cases text with
  | nil => exact load_of_holds h.holds (by simp)
  | cons c text => exact load_of_holds h.holds (i := 0) (by simp)

theorem stringFromCstr_text (h : Text path text) :
    ∃ out, stringFromCstr path = some out ∧ Text out text := by
  have hread := read_of_holds [] (text ++ [0]) [] (by simpa using h.holds)
  obtain ⟨out, hwrite, hout, -⟩ := write_of_holds (text ++ [0])
    (holds_nil : Holds (malloc (text.length + 1) : Block UInt8) []) (by simp)
  refine ⟨out, ?_, h.zero, hout⟩
  simp only [List.length_append, List.length_singleton, List.length_nil] at hread hwrite
  simp [stringFromCstr, strlen_of_text h, hread, hwrite]

theorem stringFromSlice_text (before after : List UInt8) (h : Holds path (before ++ text ++ after))
    (hzero : 0 ∉ text) :
    ∃ out, stringFromSlice path before.length text.length = some out ∧ Text out text := by
  obtain ⟨out, hwrite, hout, hlength⟩ := write_of_holds text
    (holds_nil : Holds (malloc (text.length + 1) : Block UInt8) []) (by simp)
  obtain ⟨out', hstore, hout', -⟩ := store_of_holds hout (by simp [hlength]) 0
  refine ⟨out', ?_, hzero, hout'⟩
  simp only [List.length_nil, List.nil_append] at hwrite hstore
  simp [stringFromSlice, read_of_holds _ _ _ h, hwrite, hstore]

/-! ## The loops -/

theorem dropSlashes_of_holds {k : Nat} (h : Holds path (text ++ List.replicate k slash))
    (hne : text ≠ []) (hlast : text.getLast? ≠ some slash) :
    dropSlashes path (text.length + k) = some text.length := by
  induction k with
  | zero =>
    obtain ⟨before, c, rfl⟩ := List.eq_nil_or_concat text |>.resolve_left hne
    have hload := load_append before [c] (by simpa using h) rfl
    have hc : c ≠ slash := by simpa using hlast
    cases before with
    | nil => rfl
    | cons first before =>
      simp only [List.length_cons] at hload
      simp [dropSlashes, hload, hc]
  | succ k ih =>
    have h' : Holds path (text ++ List.replicate k slash ++ [slash]) := by
      simpa [List.replicate_succ'] using h
    have hload := load_append _ _ h' rfl
    obtain ⟨n, hn⟩ := Nat.exists_eq_succ_of_ne_zero (n := text.length + k) fun h0 =>
      hne (List.length_eq_zero_iff.1 (by omega))
    have ih := ih (h'.mono (List.prefix_append ..))
    rw [← Nat.add_assoc, hn]
    rw [hn] at ih
    simp only [List.length_append, List.length_replicate, hn] at hload
    simp [dropSlashes, hload, ih]

theorem dropSlashes_root {k : Nat} (h : Holds path (List.replicate (k + 1) slash)) :
    dropSlashes path (k + 1) = some 1 := by
  induction k with
  | zero => rfl
  | succ k ih =>
    have h' : Holds path (List.replicate (k + 1) slash ++ [slash]) := by
      simpa [← List.replicate_succ'] using h
    have hload := load_append _ _ h' rfl
    simp only [List.length_replicate] at hload
    simp [dropSlashes, hload, ih (h'.mono (List.prefix_append ..))]

theorem backToSlash_of_holds {name : List UInt8} (h : Holds path (text ++ name)) (hname : slash ∉ name)
    (hlast : text = [] ∨ text.getLast? = some slash) :
    backToSlash path (text.length + name.length) = some text.length := by
  induction name using List.reverseRecOn with
  | nil =>
    rcases hlast with rfl | hlast
    · rfl
    · obtain ⟨before, rfl⟩ := List.getLast?_eq_some_iff.1 hlast
      have hload := load_append before [slash] (by simpa using h) rfl
      simp [backToSlash, hload]
  | append_singleton name c ih =>
    rw [← List.append_assoc] at h
    have hload := load_append _ _ h rfl
    have hc : c ≠ slash := by
      rintro rfl
      exact hname (by simp)
    simp only [List.length_append] at hload
    rw [List.length_append, List.length_singleton, ← Nat.add_assoc]
    simp [backToSlash, hload, hc, ih (h.mono (List.prefix_append ..)) fun hmem => hname (by simp [hmem])]

/-! ## The cases of a path -/

theorem exists_last_run (p : UInt8 → Bool) (text : List UInt8) :
    ∃ before run, text = before ++ run ∧ (∀ c ∈ run, p c = true) ∧
      ∀ c, before.getLast? = some c → p c = false := by
  induction text using List.reverseRecOn with
  | nil => exact ⟨[], [], rfl, by simp, by simp⟩
  | append_singleton text c ih =>
    cases hc : p c with
    | false => exact ⟨text ++ [c], [], by simp, by simp, by simp [hc]⟩
    | true =>
      obtain ⟨before, run, rfl, hrun, hbefore⟩ := ih
      refine ⟨before, run ++ [c], by simp, ?_, hbefore⟩
      intro d hd
      rcases List.mem_append.1 hd with hd | hd
      · exact hrun d hd
      · rw [List.mem_singleton.1 hd, hc]

theorem exists_last_slashes (text : List UInt8) :
    ∃ before k, text = before ++ List.replicate k slash ∧ before.getLast? ≠ some slash := by
  obtain ⟨before, run, rfl, hrun, hbefore⟩ := exists_last_run (· == slash) text
  refine ⟨before, run.length, ?_, fun hlast => ?_⟩
  · rw [← List.eq_replicate_of_mem fun c hc => by simpa using hrun c hc]
  · simpa using hbefore _ hlast

/-- A folder, slashes, a name and slashes. -/
structure HasName (text parent : List UInt8) (j : Nat) (name : List UInt8) (k : Nat) : Prop where
  eq : text = parent ++ List.replicate j slash ++ (name ++ List.replicate k slash)
  last : parent.getLast? ≠ some slash
  slashes : j = 0 → parent = []
  ne_nil : name ≠ []
  no_slash : slash ∉ name

theorem path_cases (text : List UInt8) : text = [] ∨ (∃ k, text = List.replicate (k + 1) slash) ∨
    ∃ parent j name k, HasName text parent j name k := by
  obtain ⟨before, k, rfl, hbefore⟩ := exists_last_slashes text
  obtain ⟨folder, name, rfl, hname, hfolder⟩ := exists_last_run (· != slash) before
  cases name with
  | nil =>
    obtain rfl : folder = [] := by
      cases hlast : folder.getLast? with
      | none => simpa using hlast
      | some c =>
        have hc : c = slash := by simpa using hfolder c hlast
        exact absurd (by simpa [hc] using hlast) hbefore
    cases k with
    | zero => exact .inl rfl
    | succ k => exact .inr (.inl ⟨k, rfl⟩)
  | cons c name =>
    obtain ⟨parent, j, rfl, hparent⟩ := exists_last_slashes folder
    refine .inr (.inr ⟨parent, j, c :: name, k, by simp, hparent, ?_, by simp, ?_⟩)
    · rintro rfl
      cases hlast : parent.getLast? with
      | none => simpa using hlast
      | some d =>
        have hd : d = slash := by simpa using hfolder d (by simpa using hlast)
        exact absurd (hd ▸ hlast) hparent
    · intro hmem
      simpa using hname _ hmem

/-- The text of the folder: `.` for none and `/` for the root. -/
def folder (parent : List UInt8) (j : Nat) : List UInt8 :=
  if j = 0 then [dot] else if parent = [] then [slash] else parent

variable {parent name : List UInt8} {j k : Nat}

theorem pathTrimTrailingSlashes_hasName (h : Text path text) (hname : HasName text parent j name k) :
    pathTrimTrailingSlashes path = some (parent.length + j + name.length) := by
  have hholds : Holds path ((parent ++ List.replicate j slash ++ name) ++ List.replicate k slash) := by
    simpa [hname.eq] using h.holds_text
  have hlast : (parent ++ List.replicate j slash ++ name).getLast? ≠ some slash := by
    rw [List.getLast?_append_of_ne_nil _ hname.ne_nil]
    exact fun hlast => hname.no_slash (List.mem_of_getLast? hlast)
  have hdrop := dropSlashes_of_holds hholds (by simp [hname.ne_nil]) hlast
  rw [pathTrimTrailingSlashes, strlen_of_text h]
  simp only [hname.eq, List.length_append, List.length_replicate] at hdrop ⊢
  simpa [← Nat.add_assoc] using hdrop

theorem isRoot_hasName (h : Text path text) (hname : HasName text parent j name k) :
    isRoot path (parent.length + j + name.length) = some false := by
  rw [isRoot]
  split
  · next hlen =>
    obtain ⟨c, rest, rfl⟩ := List.exists_cons_of_ne_nil hname.ne_nil
    rw [List.length_cons] at hlen
    obtain rfl : parent = [] := List.length_eq_zero_iff.1 (by omega)
    obtain rfl : j = 0 := by omega
    have hc : c ≠ slash := by
      rintro rfl
      exact hname.no_slash (List.mem_cons_self ..)
    rw [load_zero_of_text h, hname.eq]
    simp [hc]
  · rfl

theorem backToSlash_hasName (h : Text path text) (hname : HasName text parent j name k) :
    backToSlash path (parent.length + j + name.length) = some (parent.length + j) := by
  have hholds : Holds path (parent ++ List.replicate j slash ++ name) := by
    refine h.holds_text.mono ⟨List.replicate k slash, ?_⟩
    simp [hname.eq]
  have hback := backToSlash_of_holds hholds hname.no_slash (by
    cases j with
    | zero => exact .inl (by simp [hname.slashes rfl])
    | succ j => exact .inr (by simp [List.replicate_succ', ← List.append_assoc]))
  simpa using hback

/-! ## What they return -/

theorem pathBasename_hasName (h : Text path text) (hname : HasName text parent j name k) :
    ∃ out, pathBasename path = some out ∧ Text out name := by
  have hpos : parent.length + j + name.length ≠ 0 := by
    have := List.length_pos_of_ne_nil hname.ne_nil
    omega
  have hholds : Holds path ((parent ++ List.replicate j slash) ++ name ++ List.replicate k slash) := by
    simpa [hname.eq] using h.holds_text
  obtain ⟨out, hslice, hout⟩ := stringFromSlice_text _ _ hholds fun hzero => h.zero (by simp [hname.eq, hzero])
  refine ⟨out, ?_, hout⟩
  rw [List.length_append, List.length_replicate] at hslice
  simp only [pathBasename, pathTrimTrailingSlashes_hasName h hname, isRoot_hasName h hname,
    backToSlash_hasName h hname, Option.bind_eq_bind, Option.bind_some, if_neg hpos]
  simpa using hslice

theorem pathDirname_hasName (h : Text path text) (hname : HasName text parent j name k) :
    ∃ out, pathDirname path = some out ∧ Text out (folder parent j) := by
  have hpos : parent.length + j + name.length ≠ 0 := by
    have := List.length_pos_of_ne_nil hname.ne_nil
    omega
  have hslice : ∀ before after, text = before ++ after →
      ∃ out, stringFromSlice path 0 before.length = some out ∧ Text out before := by
    rintro before after htext
    refine stringFromSlice_text [] after ?_ fun hzero => h.zero (by simp [htext, hzero])
    simpa [htext] using h.holds_text
  have hholds : Holds path (parent ++ List.replicate j slash) := by
    refine h.holds_text.mono ⟨name ++ List.replicate k slash, hname.eq.symm⟩
  simp only [pathDirname, pathTrimTrailingSlashes_hasName h hname, isRoot_hasName h hname,
    backToSlash_hasName h hname, Option.bind_eq_bind, Option.bind_some, if_neg hpos, folder]
  cases j with
  | zero =>
    obtain rfl := hname.slashes rfl
    exact ⟨_, rfl, text_stringLiteral (by decide)⟩
  | succ j =>
    by_cases hparent : parent = []
    · subst hparent
      obtain ⟨out, hout, htext⟩ := hslice [slash] (List.replicate j slash ++ (name ++ List.replicate k slash))
        (by simp [hname.eq, List.replicate_succ])
      refine ⟨out, ?_, htext⟩
      rw [List.length_singleton] at hout
      simp [dropSlashes_root (by simpa using hholds), hout]
    · obtain ⟨out, hout, htext⟩ := hslice parent _ (by rw [hname.eq, List.append_assoc])
      refine ⟨out, ?_, by simpa [hparent] using htext⟩
      simp [dropSlashes_of_holds hholds hparent hname.last, hout]

/-- The text of two joined parts. -/
def joined (left right : List UInt8) : List UInt8 :=
  if right.head? = some slash ∨ left = [] then right
  else if right = [] then left
  else left ++ (if left.getLast? = some slash then [] else [slash]) ++ right

theorem getLast_of_text {block : Block UInt8} (h : Text block text) (hne : text ≠ []) :
    load block (text.length - 1) = text.getLast? := by
  obtain ⟨before, c, rfl⟩ := List.eq_nil_or_concat text |>.resolve_left hne
  have hload := load_append before [c] (by simpa using h.holds_text) rfl
  simpa using hload

theorem head_eq_zero (h : 0 ∉ text) : text.head?.getD 0 = 0 ↔ text = [] := by
  cases text with
  | nil => simp
  | cons c text =>
    have hc : c ≠ 0 := by
      rintro rfl
      exact h (List.mem_cons_self ..)
    simp [hc]

theorem head_eq_slash : text.head?.getD 0 = slash ↔ text.head? = some slash := by
  cases text with
  | nil => decide
  | cons c text => simp

theorem pathJoin_text {l r : List UInt8} (hl : Text left l) (hr : Text right r) :
    ∃ out, pathJoin left right = some out ∧ Text out (joined l r) := by
  unfold pathJoin
  simp only [load_zero_of_text hl, load_zero_of_text hr, Option.bind_eq_bind, Option.bind_some,
    head_eq_zero hl.zero, head_eq_zero hr.zero, head_eq_slash]
  by_cases hslash : r.head? = some slash
  · obtain ⟨out, hout, htext⟩ := stringFromCstr_text hr
    exact ⟨out, by simp [hslash, hout], by simpa [joined, hslash] using htext⟩
  by_cases hleft : l = []
  · obtain ⟨out, hout, htext⟩ := stringFromCstr_text hr
    exact ⟨out, by simp [hleft, hout], by simpa [joined, hleft] using htext⟩
  by_cases hright : r = []
  · obtain ⟨out, hout, htext⟩ := stringFromCstr_text hl
    exact ⟨out, by simp [hleft, hright, hout], by simpa [joined, hleft, hright] using htext⟩
  obtain ⟨before, c, hlc⟩ := List.eq_nil_or_concat l |>.resolve_left hleft
  have hlast : l.getLast? = some c := by simp [hlc]
  -- the separator, which is there or not
  obtain ⟨sep, hsep⟩ : ∃ sep : List UInt8, sep = if c = slash then [] else [slash] := ⟨_, rfl⟩
  have hbit : (c != slash).toNat = sep.length := by
    by_cases hc : c = slash <;> simp [hsep, hc]
  have hjoined : joined l r = l ++ sep ++ r := by
    simp [joined, hslash, hleft, hright, hlast, hsep]
  obtain ⟨out₁, hwrite₁, hout₁, hlen₁⟩ := write_of_holds l
    (holds_nil : Holds (malloc (l.length + sep.length + r.length + 1) : Block UInt8) []) (by simp; omega)
  obtain ⟨out₂, hwrite₂, hout₂, hlen₂⟩ := write_of_holds sep hout₁ (by simp [hlen₁]; omega)
  obtain ⟨out₃, hwrite₃, hout₃, -⟩ := write_of_holds (r ++ [0]) hout₂
    (by simp [hlen₁, hlen₂]; omega)
  refine ⟨out₃, ?_, ?_, ?_⟩
  · have hreadl := read_of_holds [] l [] (by simpa using hl.holds_text)
    have hreadr := read_of_holds [] (r ++ [0]) []
      (by simpa using hr.holds)
    simp only [List.length_append, List.length_singleton, List.length_nil, List.nil_append]
      at hreadl hreadr hwrite₁ hwrite₂ hwrite₃
    simp only [if_neg hslash, if_neg hleft, if_neg hright, strlen_of_text hl, strlen_of_text hr,
      getLast_of_text hl hleft, hlast, Option.bind_some, hbit, hreadl, hwrite₁, hreadr]
    by_cases hc : c = slash
    · obtain rfl : out₂ = out₁ := by
        simp only [hsep, if_pos hc] at hwrite₂
        exact eq_of_write_nil hwrite₂
      simp [hc, hwrite₃]
    · have hstore : store out₁ l.length slash = some out₂ := by simpa [hsep, hc, store] using hwrite₂
      simp [hc, hstore, hwrite₃]
  · rw [hjoined, List.append_assoc, List.mem_append, List.mem_append, hsep]
    rintro (h0 | h0 | h0)
    · exact hl.zero h0
    · split at h0
      · cases h0
      · exact absurd (List.mem_singleton.1 h0) (by decide)
    · exact hr.zero h0
  · rw [hjoined]
    simpa using hout₃

/-! ## The parts joined again -/

theorem segments_append_cons (before after : List UInt8) :
    segments (before ++ slash :: after) = segments before ++ segments after :=
  words_append_cons _ _ (by decide)

theorem segments_slashes (k : Nat) : segments (List.replicate k slash) = [] := by
  induction k with
  | zero => rfl
  | succ k ih => rw [List.replicate_succ, ← List.nil_append (slash :: _), segments_append_cons, ih]; rfl

theorem segments_append_slashes (before after : List UInt8) {j : Nat} (hj : j ≠ 0) :
    segments (before ++ List.replicate j slash ++ after) = segments before ++ segments after := by
  obtain ⟨j, rfl⟩ := Nat.exists_eq_succ_of_ne_zero hj
  rw [List.replicate_succ', ← List.append_assoc, List.append_assoc, List.singleton_append,
    segments_append_cons]
  congr 1
  cases j with
  | zero => simp
  | succ j =>
    rw [List.replicate_succ, segments_append_cons, segments_slashes, List.append_nil]

theorem segments_name (hne : name ≠ []) (hname : slash ∉ name) : segments name = [name] := by
  refine words_of_forall_not (fun c hc => ?_) hne
  simpa using fun h : c = slash => hname (h ▸ hc)

theorem segments_hasName (hname : HasName text parent j name k) :
    segments text = segments parent ++ [name] := by
  have hend : segments (name ++ List.replicate k slash) = [name] := by
    by_cases hk : k = 0
    · simpa [hk] using segments_name hname.ne_nil hname.no_slash
    · have happend := segments_append_slashes name [] hk
      rw [List.append_nil, segments_name hname.ne_nil hname.no_slash] at happend
      exact happend
  rw [hname.eq]
  by_cases hj : j = 0
  · simpa [hname.slashes hj, hj, segments] using hend
  · rw [segments_append_slashes _ _ hj, hend]

theorem head_name_ne (hname : HasName text parent j name k) : name.head? ≠ some slash := by
  intro hhead
  exact hname.no_slash (List.mem_of_mem_head? hhead)

theorem joined_folder (hname : HasName text parent j name k) : joined (folder parent j) name =
    if j = 0 then [dot] ++ slash :: name else parent ++ slash :: name := by
  rw [joined, if_neg, if_neg hname.ne_nil]
  · by_cases hj : j = 0
    · rw [folder, if_pos hj, if_pos hj, if_neg (by decide)]
      rfl
    · by_cases hparent : parent = []
      · simp [folder, hj, hparent]
      · simp [folder, hj, hparent, hname.last]
  · rintro (hhead | hnil)
    · exact head_name_ne hname hhead
    · rw [folder] at hnil
      split_ifs at hnil with hj hparent
      exact hparent hnil

/-- **Joined again, the parts of a path lead where it leads.** -/
theorem normalForm_joined (hname : HasName text parent j name k) :
    normalForm (joined (folder parent j) name) = normalForm text := by
  rw [joined_folder hname]
  refine normalForm_congr ?_ ?_
  · rw [isAbsolute, isAbsolute, hname.eq]
    by_cases hj : j = 0
    · have hhead : ((name ++ List.replicate k slash).head? == some slash) = false := by
        rw [List.head?_append_of_ne_nil _ hname.ne_nil]
        simpa using head_name_ne hname
      rw [if_pos hj, hj, hname.slashes hj]
      exact hhead.symm
    · obtain ⟨j, rfl⟩ := Nat.exists_eq_succ_of_ne_zero hj
      cases parent <;> simp [List.replicate_succ]
  · rw [moves, moves, segments_hasName hname]
    by_cases hj : j = 0
    · rw [if_pos hj, segments_append_cons, segments_name hname.ne_nil hname.no_slash, hname.slashes hj]
      rfl
    · rw [if_neg hj, segments_append_cons, segments_name hname.ne_nil hname.no_slash]

end Nomo.Paths
