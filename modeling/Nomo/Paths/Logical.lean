import Nomo.Lib.Moves

/-!
# Logical paths

`normalize_logical_path` and `relative_path` (`nomo_manifest/src/lib.rs:2172–2218`) on the components
of a path, without a Windows prefix.

`pop` takes away a `..` as readily as a name, so the normalisation forgets every second `..` that has
nothing left to cancel.  `relative_path` answers every component of the base with a `..`, a `..` of the
base as well.  What a path does is told by two numbers and some names: how far it climbs above its
start, and the names it then goes down (`trail`).
-/

namespace Nomo.Paths.Logical

open Nomo.Lib

/-- `std::path::Component`. -/
inductive Component where
  | rootDir
  | curDir
  | parentDir
  | normal (name : String)
deriving DecidableEq

/-- A path: the root and a `.` can only come first. -/
structure LogicalPath where
  components : List Component
  inner : ∀ c ∈ components.tail, c ≠ .rootDir ∧ c ≠ .curDir

/-! ## The code -/

/-- `PathBuf::push` of one component. -/
def push (path : List Component) : Component → List Component
  | .rootDir => [.rootDir]
  | .curDir => if path = [] then [.curDir] else path
  | c => path ++ [c]

/-- `PathBuf::pop`; `none` where it answers `false`. -/
def pop (path : List Component) : Option (List Component) :=
  match path.getLast? with
  | none | some .rootDir => none
  | some _ => some path.dropLast

/-- `Path::join`. -/
def join (path other : List Component) : List Component := other.foldl push path

/-- The body of the loop of `normalize_logical_path`. -/
def normalizeStep (normalized : List Component) : Component → List Component
  | .curDir => normalized
  | .parentDir => (pop normalized).getD (push normalized .parentDir)
  | c => push normalized c

/-- `normalize_logical_path`. -/
def normalizeLogicalPath (path : List Component) : List Component := path.foldl normalizeStep []

/-- The number of components that two paths start with in common. -/
def common : List Component → List Component → Nat
  | b :: base, t :: target => if b = t then common base target + 1 else 0
  | _, _ => 0

/-- `relative_path`. -/
def relativePath (base target : List Component) : List Component :=
  let relative := (base.drop (common base target)).foldl (fun relative _ => push relative .parentDir) []
  let relative := join relative (target.drop (common base target))
  if relative = [] then push relative .curDir else relative

/-! ## Where a path leads -/

/-- The move that a component stands for. -/
def moveOf : Component → Option (Move String)
  | .parentDir => some .up
  | .normal name => some (.down name)
  | _ => none

/-- The moves of a path. -/
def moves (path : List Component) : List (Move String) := path.filterMap moveOf

/-- `Path::is_absolute`. -/
def isAbsolute (path : List Component) : Bool := path.head? = some .rootDir

/-- Where a path leads from a directory. -/
def locate (base : List String) (path : List Component) : List String :=
  Moves.walk (if isAbsolute path then [] else base) (moves path)

/-- The normalised path leads where the path leads, from every directory. -/
def KeepsLocation (path : LogicalPath) : Prop :=
  ∀ base, locate base (normalizeLogicalPath path.components) = locate base path.components

/-- The relative path from a base to a target leads from the base to the target. -/
def LeadsBack (base target : LogicalPath) : Prop :=
  normalizeLogicalPath (join base.components (relativePath base.components target.components))
    = normalizeLogicalPath target.components

/-- One move, over the moves up that are left and the names gone down since, the last one first. -/
def advance : Nat × List String → Move String → Nat × List String
  | (ups, names), .down name => (ups, name :: names)
  | (ups, []), .up => (ups + 1, [])
  | (ups, _ :: names), .up => (ups, names)

/-- How far moves climb, and the names that they then go down. -/
def trail (state : Nat × List String) (ms : List (Move String)) : Nat × List String :=
  ms.foldl advance state

/-- How far a path climbs above its start. -/
def climb (path : List Component) : Nat := (trail (0, []) (moves path)).1

/-- How far below its start, or below the place it climbed to, a path ends. -/
def depth (path : List Component) : Nat := (trail (0, []) (moves path)).2.length

theorem moves_append (path other : List Component) : moves (path ++ other) = moves path ++ moves other :=
  List.filterMap_append

theorem trail_append (state : Nat × List String) (ms more : List (Move String)) :
    trail state (ms ++ more) = trail (trail state ms) more := List.foldl_append ..

theorem trail_eq (ups : Nat) (names : List String) (ms : List (Move String)) :
    trail (ups, names) ms = (ups + ((trail (0, []) ms).1 - names.length),
      (trail (0, []) ms).2 ++ names.drop (trail (0, []) ms).1) := by
  induction ms using List.reverseRecOn with
  | nil => simp [trail]
  | append_singleton ms move ih =>
    rw [trail_append, trail_append, ih]
    rcases trail (0, []) ms with ⟨climbed, gone⟩
    cases move with
    | down name => rfl
    | up =>
      cases gone with
      | cons name gone => rfl
      | nil =>
        show advance (ups + (climbed - names.length), names.drop climbed) .up
          = (ups + (climbed + 1 - names.length), names.drop (climbed + 1))
        cases hdrop : names.drop climbed with
        | nil =>
          have := List.drop_eq_nil_iff.1 hdrop
          simp [advance, List.drop_eq_nil_iff.2 (this.trans (Nat.le_succ _))]
          omega
        | cons name rest =>
          have hlt : climbed < names.length := by
            by_contra h
            rw [List.drop_eq_nil_iff.2 (by omega)] at hdrop
            exact nomatch hdrop
          rw [← List.tail_drop, hdrop]
          simp [advance]
          omega

theorem walk_eq (base : List String) (ms : List (Move String)) (ups : Nat) :
    Moves.walk base ms = (trail (ups, base) ms).2 := by
  induction ms using List.reverseRecOn with
  | nil => rfl
  | append_singleton ms move ih =>
    rw [Moves.walk_append, ih, trail_append]
    rcases trail (ups, base) ms with ⟨climbed, _ | _⟩ <;> cases move <;> rfl

theorem trail_ups (ups : Nat) (names : List String) (m : Nat) :
    trail (ups, names) (List.replicate m .up) = (ups + (m - names.length), names.drop m) := by
  have hstart : trail (0, []) (List.replicate m .up) = (m, []) := by
    induction m with
    | zero => rfl
    | succ m ih => rw [List.replicate_succ', trail_append, ih]; rfl
  rw [trail_eq, hstart]
  rfl

/-- **Answering every move with a move up** undoes the moves down, and doubles the moves up. -/
theorem trail_back (ms : List (Move String)) (state : Nat × List String) (extra : Nat) :
    trail state (ms ++ List.replicate (ms.length + extra) .up)
      = trail state (List.replicate (2 * ms.count .up + extra) .up) := by
  induction ms generalizing state with
  | nil => simp
  | cons move ms ih =>
    have hup : List.replicate ((move :: ms).length + extra) (Move.up : Move String)
        = List.replicate (ms.length + extra) .up ++ [.up] := by
      rw [List.length_cons, Nat.add_right_comm, List.replicate_succ']
    rw [hup, List.cons_append, ← List.append_assoc]
    show trail (advance state move) (_ ++ [.up]) = _
    rw [trail_append, ih, ← trail_append, ← List.replicate_succ']
    cases move with
    | up =>
      rw [List.count_cons_self, show 2 * (ms.count .up + 1) + extra = 2 * ms.count .up + extra + 1 + 1 by
        omega, List.replicate_succ (n := 2 * ms.count .up + extra + 1)]
      rfl
    | down name =>
      rw [List.count_cons_of_ne (by simp), List.replicate_succ]
      rfl

/-! ## What the normalisation leaves -/

/-- One `..` if the number of those left is odd, and the names. -/
def shape (absolute : Bool) (state : Nat × List String) : List Component :=
  (if absolute then [.rootDir] else []) ++ (List.replicate (state.1 % 2) .parentDir
    ++ state.2.reverse.map .normal)

theorem normalizeStep_parent (absolute : Bool) (state : Nat × List String) :
    normalizeStep (shape absolute state) .parentDir = shape absolute (advance state .up) := by
  obtain ⟨ups, names⟩ := state
  cases names with
  | cons name names =>
    -- a name is popped
    simp [shape, normalizeStep, pop, advance, ← List.append_assoc]
  | nil =>
    rcases Nat.mod_two_eq_zero_or_one ups with h | h
    · have h' : (ups + 1) % 2 = 1 := by omega
      cases absolute <;> simp [shape, normalizeStep, pop, push, advance, h, h']
    · -- and so is a `..`
      have h' : (ups + 1) % 2 = 0 := by omega
      cases absolute <;> simp [shape, normalizeStep, pop, advance, h, h']

/-- **Every second `..` is forgotten.** -/
theorem normalizeLogicalPath_eq (path : List Component) (hroot : .rootDir ∉ path.tail) :
    normalizeLogicalPath path = shape (isAbsolute path) (trail (0, []) (moves path)) := by
  induction path using List.reverseRecOn with
  | nil => rfl
  | append_singleton path c ih =>
    rcases path with _ | ⟨first, rest⟩
    · cases c <;> rfl
    simp only [List.cons_append, List.tail_cons, List.mem_append, List.mem_singleton] at hroot ih
    have ih := ih fun h => hroot (.inl h)
    rw [normalizeLogicalPath, List.foldl_append, ← normalizeLogicalPath, ih, moves_append, trail_append]
    show normalizeStep (shape (isAbsolute (first :: rest)) _) c = shape (isAbsolute (first :: rest)) _
    cases c with
    | rootDir => exact absurd (.inr rfl) hroot
    | curDir => rfl
    | parentDir => exact normalizeStep_parent _ _
    | normal name => simp [shape, normalizeStep, push, moveOf, trail, advance, moves]

theorem isAbsolute_shape (absolute : Bool) (state : Nat × List String) :
    isAbsolute (shape absolute state) = absolute := by
  obtain ⟨ups, names⟩ := state
  cases absolute with
  | true => rfl
  | false =>
    rcases Nat.mod_two_eq_zero_or_one ups with h | h
    · rcases List.eq_nil_or_concat names with rfl | ⟨names, name, rfl⟩ <;> simp [shape, isAbsolute, h]
    · simp [shape, isAbsolute, h]

/-- What is left of a path climbs by one or not at all, and goes down the same names. -/
theorem trail_shape (absolute : Bool) (state : Nat × List String) :
    trail (0, []) (moves (shape absolute state)) = (state.1 % 2, state.2) := by
  obtain ⟨ups, names⟩ := state
  have hmoves : moves (shape absolute (ups, names))
      = List.replicate (ups % 2) .up ++ names.reverse.map .down := by
    rw [shape, moves_append, moves_append, moves, moves, moves, List.filterMap_replicate, List.filterMap_map]
    cases absolute <;> simp [moveOf, Function.comp_def]
  have hdowns : ∀ before, trail (ups % 2, before) (names.reverse.map .down)
      = (ups % 2, names ++ before) := by
    clear hmoves
    induction names with
    | nil => exact fun _ => rfl
    | cons name names ih =>
      intro before
      rw [List.reverse_cons, List.map_append, trail_append, ih]
      rfl
  rw [hmoves, trail_append, trail_ups]
  simpa using hdowns []

theorem shape_inj {absolute absolute' : Bool} {s t : Nat × List String} :
    shape absolute s = shape absolute' t ↔ absolute = absolute' ∧ s.1 % 2 = t.1 % 2 ∧ s.2 = t.2 := by
  constructor
  · intro h
    have habsolute := congrArg isAbsolute h
    have htrail := congrArg (fun path => trail (0, []) (moves path)) h
    simp only [isAbsolute_shape, trail_shape, Prod.mk.injEq] at habsolute htrail
    exact ⟨habsolute, htrail⟩
  · rintro ⟨rfl, hups, hnames⟩
    rw [shape, shape, hups, hnames]

/-! ## Relative paths -/

/-- Pushing components other than the root goes on from where the path led. -/
theorem join_eq (path : List Component) {other : List Component} (hroot : .rootDir ∉ other) :
    isAbsolute (join path other) = isAbsolute path ∧
      moves (join path other) = moves path ++ moves other ∧
      (.rootDir ∉ path.tail → .rootDir ∉ (join path other).tail) := by
  induction other generalizing path with
  | nil => simp [join, moves]
  | cons c other ih =>
    rw [List.mem_cons, not_or] at hroot
    obtain ⟨habsolute, hmoves, htail⟩ := ih (push path c) hroot.2
    have hpush : isAbsolute (push path c) = isAbsolute path ∧
        moves (push path c) = moves path ++ moves [c] ∧
        (.rootDir ∉ path.tail → .rootDir ∉ (push path c).tail) := by
      cases c with
      | rootDir => exact absurd rfl hroot.1
      | curDir => cases path <;> simp [push, moves, moveOf, isAbsolute]
      | parentDir | normal name =>
        exact ⟨by cases path <;> rfl, moves_append .., by cases path <;> simp [push]⟩
    refine ⟨habsolute.trans hpush.1, ?_, fun h => htail (hpush.2.2 h)⟩
    show moves (join (push path c) other) = _
    rw [hmoves, hpush.2.1, List.append_assoc, ← moves_append, List.singleton_append]

theorem foldl_push_parent (base : List Component) :
    base.foldl (fun relative _ => push relative .parentDir) [] = List.replicate base.length .parentDir := by
  induction base using List.reverseRecOn with
  | nil => rfl
  | append_singleton base c ih => simp [push, List.replicate_succ']

theorem take_common (base target : List Component) :
    base.take (common base target) = target.take (common base target) := by
  induction base generalizing target with
  | nil => simp [common]
  | cons b base ih =>
    cases target with
    | nil => rfl
    | cons t target =>
      rw [common]
      split_ifs with h
      · rw [List.take_succ_cons, List.take_succ_cons, h, ih]
      · rfl

/-- Components that a relative path answers wrongly: a `..` by two moves up too many, a `.` by one. -/
def detour (rest : List Component) : Nat := 2 * rest.count .parentDir + rest.count .curDir

theorem length_eq {rest : List Component} (hroot : .rootDir ∉ rest) :
    rest.length = (moves rest).length + rest.count .curDir ∧
      (moves rest).count .up = rest.count .parentDir := by
  induction rest with
  | nil => exact ⟨rfl, rfl⟩
  | cons c rest ih =>
    rw [List.mem_cons, not_or] at hroot
    obtain ⟨hlength, hcount⟩ := ih hroot.2
    have hmoves : moves (c :: rest) = moves [c] ++ moves rest := moves_append [c] rest
    rw [hmoves, List.length_append, List.count_append, List.length_cons, List.count_cons, List.count_cons,
      hlength, hcount]
    generalize (moves rest).length = n
    cases c with
    | rootDir => exact absurd rfl hroot.1
    | curDir =>
      rw [show moves [.curDir] = [] from rfl]
      simp
      omega
    | parentDir | normal =>
      simp [moves, moveOf]
      omega

/-- When the base and the relative path lead to the target: a relative target below an absolute base is
lost, and what the base does after the common part has to be undone exactly, unless the target climbs
out of the common part anyway. -/
def Restores (base target : List Component) : Prop :=
  if isAbsolute base = isAbsolute target then
    let shared := common base target
    detour (base.drop shared) = 0 ∨
      detour (base.drop shared) % 2 = 0 ∧ depth (base.take shared) ≤ climb (target.drop shared)
  else isAbsolute target = true

instance (base target : List Component) : Decidable (Restores base target) := by
  unfold Restores
  infer_instance

theorem join_relativePath {base target : List Component}
    (hroot : .rootDir ∉ target.drop (common base target)) :
    .rootDir ∉ relativePath base target ∧ moves (relativePath base target)
      = List.replicate (base.drop (common base target)).length .up ++
        moves (target.drop (common base target)) := by
  unfold relativePath
  rw [foldl_push_parent]
  dsimp only
  obtain ⟨habsolute, hmoves, htail⟩ :=
    join_eq (List.replicate (base.drop (common base target)).length .parentDir) hroot
  have hnone : isAbsolute (List.replicate (base.drop (common base target)).length .parentDir) = false := by
    cases (base.drop (common base target)).length <;> rfl
  have hups : moves (List.replicate (base.drop (common base target)).length .parentDir)
      = List.replicate (base.drop (common base target)).length .up := by
    simp [moves, List.filterMap_replicate, moveOf]
  rw [hups] at hmoves
  rw [hnone] at habsolute
  have htail := htail fun h => by simpa using List.mem_of_mem_tail h
  generalize join _ _ = relative at habsolute hmoves htail ⊢
  split_ifs with hempty
  · subst hempty
    exact ⟨by simp [push], hmoves⟩
  refine ⟨fun h => ?_, hmoves⟩
  cases relative with
  | nil => exact hempty rfl
  | cons c relative =>
    rcases List.mem_cons.1 h with rfl | h
    · exact absurd habsolute (by simp [isAbsolute])
    · exact htail h

theorem common_pos {base target : List Component} (hbase : isAbsolute base = true)
    (htarget : isAbsolute target = true) : 0 < common base target := by
  cases base <;> cases target <;> simp_all [isAbsolute, common]

theorem rootDir_notMem_drop {path : List Component} {k : Nat} (htail : .rootDir ∉ path.tail)
    (hk : isAbsolute path = true → 0 < k) : .rootDir ∉ path.drop k := by
  intro h
  cases path with
  | nil => simp at h
  | cons c path =>
    cases k with
    | zero =>
      rcases List.mem_cons.1 h with rfl | h
      · exact absurd (hk rfl) (lt_irrefl _)
      · exact htail h
    | succ k => exact htail (List.mem_of_mem_drop h)

theorem join_absolute (path : List Component) {rest : List Component}
    (hinner : ∀ c ∈ rest, c ≠ .rootDir ∧ c ≠ .curDir) :
    join path (.rootDir :: rest) = .rootDir :: rest := by
  have hpush : ∀ front, join (.rootDir :: front) rest = .rootDir :: front ++ rest := by
    induction rest with
    | nil => simp [join]
    | cons c rest ih =>
      intro front
      obtain ⟨hroot, hcur⟩ := hinner c (List.mem_cons_self ..)
      have hc : push (.rootDir :: front) c = .rootDir :: (front ++ [c]) := by
        cases c with
        | rootDir => exact absurd rfl hroot
        | curDir => exact absurd rfl hcur
        | parentDir | normal => rfl
      show join (push (.rootDir :: front) c) rest = _
      rw [hc, ih fun d hd => hinner d (List.mem_cons_of_mem _ hd)]
      simp
  exact hpush []

/-- **The second half.** The relative path leads back to the target just when the base restores. -/
theorem leadsBack_iff (base target : LogicalPath) :
    LeadsBack base target ↔ Restores base.components target.components := by
  have hbaseTail : .rootDir ∉ base.components.tail := fun h => (base.inner _ h).1 rfl
  have htargetTail : .rootDir ∉ target.components.tail := fun h => (target.inner _ h).1 rfl
  have htarget := normalizeLogicalPath_eq target.components htargetTail
  obtain ⟨base, hbase⟩ := base
  obtain ⟨target, hinner⟩ := target
  dsimp only at *
  unfold LeadsBack Restores
  dsimp only
  by_cases hrebase : isAbsolute base = false ∧ isAbsolute target = true
  · -- the target is absolute, and joined to anything it is the target
    obtain ⟨rest, rfl⟩ : ∃ rest, target = .rootDir :: rest := by
      cases target with
      | nil => simp [isAbsolute] at hrebase
      | cons c rest => exact ⟨rest, by simpa [isAbsolute] using hrebase.2⟩
    have hshared : common base (.rootDir :: rest) = 0 := by
      cases base with
      | nil => rfl
      | cons b base => 
        have : b ≠ .rootDir := by simpa [isAbsolute] using hrebase.1
        simp [common, this]
    have hjoin (path) : join path (.rootDir :: rest) = .rootDir :: rest := join_absolute path hinner
    have hrelative : relativePath base (.rootDir :: rest) = .rootDir :: rest := by
      simp [relativePath, hshared, hjoin]
    rw [hrelative, hjoin, if_neg (by rw [hrebase.1, hrebase.2]; simp)]
    exact iff_of_true rfl hrebase.2
  · have hroot : .rootDir ∉ target.drop (common base target) :=
      rootDir_notMem_drop htargetTail fun h => common_pos (by simpa [h] using hrebase) h
    obtain ⟨hrelative, hmoves⟩ := join_relativePath hroot
    obtain ⟨habsolute, hjoin, htail⟩ := join_eq base hrelative
    rw [normalizeLogicalPath_eq _ (htail hbaseTail), htarget, shape_inj, habsolute]
    by_cases hsame : isAbsolute base = isAbsolute target
    · rw [if_pos hsame]
      have hbaseRoot : .rootDir ∉ base.drop (common base target) :=
        rootDir_notMem_drop hbaseTail fun h => common_pos h (hsame ▸ h)
      obtain ⟨hlength, hcount⟩ := length_eq hbaseRoot
      -- both paths start with the common part
      have hfront : moves base = moves (base.take (common base target)) ++
          moves (base.drop (common base target)) := by
        rw [← moves_append, List.take_append_drop]
      have hback : moves target = moves (base.take (common base target)) ++
          moves (target.drop (common base target)) := by
        rw [take_common, ← moves_append, List.take_append_drop]
      rw [hjoin, hmoves, hfront, hback, hlength]
      simp only [List.append_assoc, trail_append _ (moves (base.take _))]
      rw [← List.append_assoc, trail_append, trail_back, hcount]
      unfold detour depth climb
      rcases trail (0, []) (moves (base.take (common base target))) with ⟨ups, names⟩
      rw [trail_ups, trail_eq, trail_eq ups]
      rcases trail (0, []) (moves (target.drop (common base target))) with ⟨climbed, gone⟩
      generalize 2 * _ + _ = m
      simp only [hsame, true_and, List.length_drop, List.drop_drop, List.append_cancel_left_eq]
      constructor
      · rintro ⟨hparity, hnames⟩
        have hlengths := congrArg List.length hnames
        simp only [List.length_drop] at hlengths
        omega
      · rintro (rfl | ⟨heven, hle⟩)
        · simp
        · refine ⟨by omega, ?_⟩
          rw [List.drop_eq_nil_iff.2 (by omega), List.drop_eq_nil_iff.2 hle]
    · rw [if_neg hsame]
      refine iff_of_false (fun h => hsame h.1) fun h => hrebase ⟨?_, h⟩
      rw [h] at hsame
      simpa using hsame

/-- **The first half.** A path is normalised to one that leads where it led just when it is absolute or
climbs at most one level above its start. -/
theorem keepsLocation_iff (path : LogicalPath) :
    KeepsLocation path ↔ isAbsolute path.components = true ∨ climb path.components ≤ 1 := by
  unfold KeepsLocation
  rw [normalizeLogicalPath_eq _ fun h => (path.inner _ h).1 rfl]
  simp only [locate, isAbsolute_shape, climb, walk_eq _ _ 0, trail_eq 0 (if _ then _ else _), trail_shape,
    List.append_cancel_left_eq]
  generalize (trail (0, []) (moves path.components)).1 = ups
  cases isAbsolute path.components with
  | true => simp
  | false =>
    simp only [Bool.false_eq_true, if_false, false_or]
    constructor
    · -- from a directory that deep the path leads to the root
      intro h
      have hlengths := congrArg List.length (h (List.replicate ups ""))
      simp only [List.length_drop, List.length_replicate] at hlengths
      omega
    · intro hle base
      rw [Nat.mod_eq_of_lt (by omega)]

/-- **Normalising a path** keeps where it leads if and only if the path is absolute or climbs at most one
level; **the relative path from a base to a target** leads back to the target if and only if the base
restores. -/
theorem logicalPaths_iff (path base target : LogicalPath) :
    (KeepsLocation path ↔ isAbsolute path.components = true ∨ climb path.components ≤ 1) ∧
    (LeadsBack base target ↔ Restores base.components target.components) :=
  ⟨keepsLocation_iff path, leadsBack_iff base target⟩

/-- Two levels up are normalised to none. -/
theorem not_logicalPaths :
    ¬ ((∀ path, KeepsLocation path) ∧ ∀ base target, LeadsBack base target) := by
  rintro ⟨h, -⟩
  exact absurd (h ⟨[.parentDir, .parentDir], by simp⟩ ["src", "nomo"]) (by decide)

end Nomo.Paths.Logical
