import Nomo.Mangling.Names

/-!
# Reading names back

When the words of a type can be read back in only one way.  A word in front tells the kind of a type,
and the number of type parameters of a struct or an enum tells how many arguments follow, so the one
thing that can go wrong is where an identifier ends.  If no declared identifier is another of its kind
with more words behind it, reading the words of an identifier stops at one place only, and two
different types never have the same words, however deeply they are nested.
-/

namespace Nomo.Mangling

open Nomo.Ir

/-- The type names that a program declares: structs and enums with the number of their type
parameters, and opaque foreign types. -/
structure TypeNames where
  structs : String → Option Nat
  enums : String → Option Nat
  handles : String → Prop

mutual

/-- A concrete type over the declared names.  A task callback is left out: its name does not mention
its parameters. -/
def Formed (names : TypeNames) : ValueType → Prop
  | .opaqueHandle name | .ownedHandle name | .borrowedHandle name => names.handles name
  | .nullable inner => Formed names inner
  | .externCallback params returnType => FormedAll names params ∧ Formed names returnType
  | .array element => Formed names element
  | .struct name args => names.structs name = some args.length ∧ FormedAll names args
  | .enum name args => names.enums name = some args.length ∧ FormedAll names args
  | .taskCallback .. | .typeParam _ => False
  | _ => True

/-- Concrete types over the declared names. -/
def FormedAll (names : TypeNames) : List ValueType → Prop
  | [] => True
  | arg :: args => Formed names arg ∧ FormedAll names args

end

/-- No identifier of a set is another one with more words behind it. -/
def PrefixFree (declared : String → Prop) : Prop :=
  ∀ name other, declared name → declared other → nameWords name <+: nameWords other → name = other

/-- The declared names of each kind are free of prefixes. -/
structure Separated (names : TypeNames) : Prop where
  structs : PrefixFree fun name => (names.structs name).isSome
  enums : PrefixFree fun name => (names.enums name).isSome
  handles : PrefixFree names.handles

theorem PrefixFree.read {declared : String → Prop} (hfree : PrefixFree declared)
    {name other : String} (hname : declared name) (hother : declared other) {r s : List String}
    (h : nameWords name ++ r = nameWords other ++ s) : name = other ∧ r = s := by
  have hsame : name = other := by
    have hbegins : nameWords other <+: nameWords name ++ r := h ▸ List.prefix_append _ _
    rcases List.prefix_or_prefix_of_prefix (List.prefix_append _ _) hbegins with hbegins | hbegins
    · exact hfree name other hname hother hbegins
    · exact (hfree other name hother hname hbegins).symm
  subst hsame
  exact ⟨rfl, List.append_cancel_left h⟩

/-- The first word of a type. -/
def kindWord : ValueType → String
  | .string => "string"
  | .cString => "cstring"
  | .opaqueType => "opaque"
  | .opaqueHandle _ => "handle"
  | .ownedHandle _ => "owned"
  | .borrowedHandle _ => "borrowed"
  | .nullable _ => "nullable"
  | .externCallback .. => "callback"
  | .taskCallback .. => "task"
  | .int => "i64"
  | .i32 => "i32"
  | .u32 => "u32"
  | .u64 => "u64"
  | .float => "f64"
  | .char => "char"
  | .bool => "bool"
  | .array _ => "array"
  | .struct .. => "struct"
  | .enum .. => "enum"
  | .typeParam _ => "param"
  | .void => "void"
  | .never => "never"

theorem typeWords_head (valueType : ValueType) :
    ∃ rest, typeWords valueType = kindWord valueType :: rest := by
  cases valueType <;> exact ⟨_, rfl⟩

theorem partsWords_head (arg : ValueType) (args : List ValueType) :
    ∃ rest, partsWords (arg :: args) = kindWord arg :: rest := by
  obtain ⟨rest, hrest⟩ := typeWords_head arg
  cases args with
  | nil => exact ⟨rest, hrest⟩
  | cons next args =>
    refine ⟨rest ++ partsWords (next :: args), ?_⟩
    show typeWords arg ++ partsWords (next :: args) = _
    rw [hrest]
    rfl

theorem kindWord_ne_to (valueType : ValueType) : kindWord valueType ≠ "to" := by
  cases valueType <;> simp [kindWord]

theorem kindWord_ne_empty (valueType : ValueType) : kindWord valueType ≠ "" := by
  cases valueType <;> simp [kindWord]

/-- Two lists of parts end at the same place: they are equally long, or the word after them is `to`. -/
def EndTogether (types others : List ValueType) (r s : List String) : Prop :=
  types.length = others.length ∨ r.head? = some "to" ∧ s.head? = some "to"

theorem EndTogether.tail {arg next : ValueType} {args nexts : List ValueType}
    {r s : List String} (h : EndTogether (arg :: args) (next :: nexts) r s) :
    EndTogether args nexts r s := h.imp_left Nat.succ.inj

/-- A declared name with its arguments is read back if the arguments are. -/
theorem PrefixFree.read_applied {declared : String → Option Nat}
    (hfree : PrefixFree fun name => (declared name).isSome) {name name' : String}
    {args args' : List ValueType} {r s : List String} (hargs : declared name = some args.length)
    (hargs' : declared name' = some args'.length)
    (hread : args.length = args'.length → partsWords args ++ r = partsWords args' ++ s →
      args = args' ∧ r = s)
    (h : nameWords name ++ (unlessEmpty [] args (partsWords args) ++ r) =
      nameWords name' ++ (unlessEmpty [] args' (partsWords args') ++ s)) :
    name = name' ∧ args = args' ∧ r = s := by
  obtain ⟨rfl, hrest⟩ := hfree.read (by simp [hargs]) (by simp [hargs']) h
  have hlength : args.length = args'.length := Option.some_inj.1 (hargs.symm.trans hargs')
  refine ⟨rfl, ?_⟩
  rcases args with - | ⟨arg, args⟩ <;> rcases args' with - | ⟨arg', args'⟩
  · exact ⟨rfl, hrest⟩
  · cases hlength
  · cases hlength
  · exact hread hlength hrest

theorem partsWords_ne_to {arg : ValueType} {args : List ValueType} {r s : List String}
    (h : r.head? = some "to") : partsWords (arg :: args) ++ s ≠ r := by
  rintro rfl
  obtain ⟨rest, hrest⟩ := partsWords_head arg args
  rw [hrest] at h
  exact kindWord_ne_to arg (Option.some_inj.1 h)

theorem partsWords_ne_empty {arg : ValueType} {args : List ValueType} {r s : List String} :
    partsWords (arg :: args) ++ s ≠ "" :: r := by
  intro h
  obtain ⟨rest, hrest⟩ := partsWords_head arg args
  rw [hrest] at h
  exact kindWord_ne_empty arg (List.cons.inj h).1

variable {names : TypeNames}

mutual

/-- Two concrete types with the same words, and whatever follows, are the same. -/
theorem typeWords_read (hnames : Separated names) : ∀ valueType other r s, Formed names valueType → Formed names other →
    typeWords valueType ++ r = typeWords other ++ s → valueType = other ∧ r = s
  | .string, other, r, s, _, _, h | .cString, other, r, s, _, _, h
  | .opaqueType, other, r, s, _, _, h | .int, other, r, s, _, _, h | .i32, other, r, s, _, _, h
  | .u32, other, r, s, _, _, h | .u64, other, r, s, _, _, h | .float, other, r, s, _, _, h
  | .char, other, r, s, _, _, h | .bool, other, r, s, _, _, h | .void, other, r, s, _, _, h
  | .never, other, r, s, _, _, h => by
    cases other <;> first | exact ⟨rfl, (List.cons.inj h).2⟩ | simp [typeWords] at h
  | .opaqueHandle name, other, r, s, hformed, hother, h => by
    cases other with
    | opaqueHandle name' =>
      obtain ⟨rfl, rfl⟩ := hnames.handles.read hformed hother (List.cons.inj h).2
      exact ⟨rfl, rfl⟩
    | _ => simp [typeWords] at h
  | .ownedHandle name, other, r, s, hformed, hother, h => by
    cases other with
    | ownedHandle name' =>
      obtain ⟨rfl, rfl⟩ := hnames.handles.read hformed hother
        (List.cons.inj (List.cons.inj h).2).2
      exact ⟨rfl, rfl⟩
    | _ => simp [typeWords] at h
  | .borrowedHandle name, other, r, s, hformed, hother, h => by
    cases other with
    | borrowedHandle name' =>
      obtain ⟨rfl, rfl⟩ := hnames.handles.read hformed hother
        (List.cons.inj (List.cons.inj h).2).2
      exact ⟨rfl, rfl⟩
    | _ => simp [typeWords] at h
  | .nullable inner, other, r, s, hformed, hother, h => by
    cases other with
    | nullable inner' =>
      obtain ⟨rfl, rfl⟩ := typeWords_read hnames inner inner' r s hformed hother (List.cons.inj h).2
      exact ⟨rfl, rfl⟩
    | _ => simp [typeWords] at h
  | .array element, other, r, s, hformed, hother, h => by
    cases other with
    | array element' =>
      obtain ⟨rfl, rfl⟩ :=
        typeWords_read hnames element element' r s hformed hother (List.cons.inj h).2
      exact ⟨rfl, rfl⟩
    | _ => simp [typeWords] at h
  | .externCallback params returnType, other, r, s, hformed, hother, h => by
    cases other with
    | externCallback params' returnType' =>
      have h : partsWords params ++ "to" :: (typeWords returnType ++ r)
          = partsWords params' ++ "to" :: (typeWords returnType' ++ s) := by
        simpa [typeWords] using h
      obtain ⟨rfl, hrest⟩ := partsWords_read hnames params params' _ _ hformed.1 hother.1
        (.inr ⟨rfl, rfl⟩) h
      obtain ⟨rfl, rfl⟩ := typeWords_read hnames returnType returnType' r s hformed.2 hother.2
        (List.cons.inj hrest).2
      exact ⟨rfl, rfl⟩
    | _ => simp [typeWords] at h
  | .struct name args, other, r, s, hformed, hother, h => by
    cases other with
    | struct name' args' =>
      obtain ⟨rfl, rfl, rfl⟩ := hnames.structs.read_applied hformed.1 hother.1
        (fun hlength => partsWords_read hnames args args' r s hformed.2 hother.2 (.inl hlength))
        (by simpa [typeWords] using h)
      exact ⟨rfl, rfl⟩
    | _ => simp [typeWords] at h
  | .enum name args, other, r, s, hformed, hother, h => by
    cases other with
    | enum name' args' =>
      obtain ⟨rfl, rfl, rfl⟩ := hnames.enums.read_applied hformed.1 hother.1
        (fun hlength => partsWords_read hnames args args' r s hformed.2 hother.2 (.inl hlength))
        (by simpa [typeWords] using h)
      exact ⟨rfl, rfl⟩
    | _ => simp [typeWords] at h

/-- Two lists of concrete types that end together and have the same words are the same. -/
theorem partsWords_read (hnames : Separated names) : ∀ types others r s, FormedAll names types → FormedAll names others →
    EndTogether types others r s → partsWords types ++ r = partsWords others ++ s →
    types = others ∧ r = s
  | [], [], r, s, _, _, _, h => ⟨rfl, (List.cons.inj h).2⟩
  | [], other :: others, r, s, _, _, _, h => absurd h.symm partsWords_ne_empty
  | arg :: args, [], r, s, _, _, _, h => absurd h partsWords_ne_empty
  | [arg], [other], r, s, hformed, hother, _, h => by
    obtain ⟨rfl, rfl⟩ := typeWords_read hnames arg other r s hformed.1 hother.1 h
    exact ⟨rfl, rfl⟩
  | [arg], other :: next :: others, r, s, hformed, hother, hend, h => by
    have h : typeWords arg ++ r = typeWords other ++ (partsWords (next :: others) ++ s) := by
      simpa [partsWords] using h
    obtain ⟨rfl, hrest⟩ := typeWords_read hnames arg other _ _ hformed.1 hother.1 h
    rcases hend with hlength | ⟨hto, -⟩
    · simp at hlength
    · exact absurd hrest.symm (partsWords_ne_to hto)
  | arg :: next :: args, [other], r, s, hformed, hother, hend, h => by
    have h : typeWords arg ++ (partsWords (next :: args) ++ r) = typeWords other ++ s := by
      simpa [partsWords] using h
    obtain ⟨rfl, hrest⟩ := typeWords_read hnames arg other _ _ hformed.1 hother.1 h
    rcases hend with hlength | ⟨-, hto⟩
    · simp at hlength
    · exact absurd hrest (partsWords_ne_to hto)
  | arg :: next :: args, other :: next' :: others, r, s, hformed, hother, hend, h => by
    have h : typeWords arg ++ (partsWords (next :: args) ++ r)
        = typeWords other ++ (partsWords (next' :: others) ++ s) := by
      simpa [partsWords] using h
    obtain ⟨rfl, hrest⟩ := typeWords_read hnames arg other _ _ hformed.1 hother.1 h
    obtain ⟨htail, rfl⟩ := partsWords_read hnames (next :: args) (next' :: others) r s hformed.2
      hother.2 hend.tail hrest
    exact ⟨congrArg _ htail, rfl⟩

end

/-- **Types over separated names are named apart.** -/
theorem cTypeNamePart_injOn (hnames : Separated names) :
    Set.InjOn cTypeNamePart {valueType | Formed names valueType} := by
  intro valueType hformed other hother h
  have hwords : typeWords valueType ++ [] = typeWords other ++ [] := by
    rw [cTypeNamePart_eq_iff.1 h]
  exact (typeWords_read hnames valueType other [] [] hformed hother hwords).1

end Nomo.Mangling
