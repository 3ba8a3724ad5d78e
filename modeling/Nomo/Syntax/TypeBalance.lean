import Nomo.Syntax.Brackets
import Nomo.Syntax.SourceFile

/-!
# The types of a source file

A type that stands on its own has to take as many `>` as it opens. In the whole run of the parser every
such type starts with no `>` pending and leaves none, exactly if none of them closes a bracket that it has
not opened.
-/

namespace Nomo.Syntax

open Nomo.Lib

/-! ## What leaves the counter alone -/

/-- An instruction that leaves the counter as it is. -/
def TypeInstr.KeepsPending : TypeInstr → Prop
  | .takePendingGt | .leavePendingGt => False
  | _ => True

theorem error_keepsPending {α : Type} (code message : String) (length : Token → ℕ) :
    Program.Only TypeInstr.KeepsPending (TypeParse.error code message length : TypeParse α) :=
  (Program.Only.perform trivial).bind fun _ => .op _ _ trivial nofun

theorem expectIdent_keepsPending (message : String) :
    Program.Only TypeInstr.KeepsPending (TypeParse.expectIdent message) := by
  refine (Program.Only.perform trivial).bind fun token => ?_
  split
  · exact (Program.Only.perform trivial).bind fun _ => .pure _
  · exact error_keepsPending ..

theorem expectKind_keepsPending (expected : TokenKind) (code message : String) :
    Program.Only TypeInstr.KeepsPending (TypeParse.expectKind expected code message) := by
  refine (Program.Only.perform trivial).bind fun token => ?_
  split_ifs
  · exact .perform trivial
  · exact error_keepsPending ..

theorem consumeDotPathSeparator_keepsPending :
    Program.Only TypeInstr.KeepsPending consumeDotPathSeparator := by
  refine (Program.Only.perform trivial).bind fun token => ?_
  split_ifs
  · exact .pure _
  · refine (Program.Only.perform trivial).bind fun yes => ?_
    split_ifs
    · exact (Program.Only.perform trivial).bind fun _ => .pure _
    · exact .pure _

theorem expectPathSegmentAfterDot_keepsPending :
    Program.Only TypeInstr.KeepsPending expectPathSegmentAfterDot := by
  refine (Program.Only.perform trivial).bind fun token => ?_
  split
  · exact (Program.Only.perform trivial).bind fun _ => .pure _
  · exact (Program.Only.perform trivial).bind fun _ => .pure _
  · exact error_keepsPending ..

theorem parsePath_keepsPending (depth : ℕ) :
    Program.Only TypeInstr.KeepsPending (parsePath depth) := by
  refine (expectIdent_keepsPending _).bind fun first =>
    Program.Only.loop (.op _ _ trivial nofun) (fun parts => ?_) depth [first]
  refine consumeDotPathSeparator_keepsPending.bind fun found => ?_
  split_ifs
  · exact (Program.Only.perform trivial).bind fun _ =>
      expectPathSegmentAfterDot_keepsPending.bind fun _ => .pure _
  · exact .pure _

theorem parseImportPath_keepsPending (depth : ℕ) :
    Program.Only TypeInstr.KeepsPending (parseImportPath depth) := by
  refine (expectIdent_keepsPending _).bind fun first =>
    Program.Only.loop (.op _ _ trivial nofun) (fun parts => ?_) depth [first]
  refine consumeDotPathSeparator_keepsPending.bind fun found => ?_
  split_ifs
  · refine (Program.Only.perform trivial).bind fun _ => (Program.Only.perform trivial).bind fun token => ?_
    split_ifs
    · exact error_keepsPending ..
    · exact expectPathSegmentAfterDot_keepsPending.bind fun _ => .pure _
  · exact .pure _

theorem TypeCall.keepsPending (depth : ℕ) {function : TypeCall} (h : function ≠ .typeRef)
    {s t : TypeState} {r : function.Answer}
    (hrun : (function.program depth).run TypeInstr.handle s = .ok (r, t)) :
    t.pendingTypeGt = s.pendingTypeGt := by
  have honly : Program.Only TypeInstr.KeepsPending (function.program depth) := by
    cases function with
    | expectIdent message => exact expectIdent_keepsPending message
    | expectKind expected code message => exact expectKind_keepsPending expected code message
    | path => exact parsePath_keepsPending depth
    | importPath => exact parseImportPath_keepsPending depth
    | typeRef => exact absurd rfl h
  have htrans (s t u : TypeState) (hst : t.pendingTypeGt = s.pendingTypeGt)
      (htu : u.pendingTypeGt = t.pendingTypeGt) : u.pendingTypeGt = s.pendingTypeGt := htu.trans hst
  refine honly.run_invariant (P := fun s t => t.pendingTypeGt = s.pendingTypeGt) (fun _ => rfl) htrans
    (fun i s r t hi hhandle => ?_) hrun
  cases i with
  | takePendingGt | leavePendingGt => exact absurd hi id
  | stop reason => cases hhandle
  | peek | advance | consumeNewline | ask question =>
    cases hhandle
    rfl

/-! ## The types of a run -/

/-- Whether an instruction reads a type, or the type arguments of a call. -/
def ParseInstr.readsType : ParseInstr → Bool
  | .call .typeRef | .callTypeArgs => true
  | _ => false

/-- The tokens taken between two states. -/
def tokensTaken (s t : Parser) : List Token :=
  s.stream.rest.take (s.stream.rest.length - t.stream.rest.length)

theorem tokensTaken_eq {s t : Parser} {tokens : List Token} (h : Took s.typeState t.typeState tokens) :
    tokensTaken s t = tokens := by
  have hrest : s.stream.rest = tokens ++ t.stream.rest := h.1
  rw [tokensTaken, hrest]
  simp

variable {depth : ℕ} {i : ParseInstr} {s t : Parser} {r : i.Answer}

theorem ParseInstr.handle_keepsPending (hi : i.readsType = false) (h : i.handle depth s = .ok (r, t)) :
    t.pendingTypeGt = s.pendingTypeGt := by
  cases i with
  | call function =>
    have hfunction : function ≠ .typeRef := by
      rintro rfl
      cases hi
    exact TypeCall.keepsPending depth hfunction (Parser.runTypes_eq_ok.1 h).1
  | callTypeArgs => cases hi
  | stop reason => cases h
  | _ =>
    cases h
    rfl

theorem ParseInstr.handle_balanced (hi : i.readsType = true) (h : i.handle depth s = .ok (r, t))
    (hzero : s.pendingTypeGt = 0) (hclosed : ClosesOnlyOpen (tokensTaken s t)) :
    t.pendingTypeGt = 0 ∧ Balanced (tokensTaken s t) := by
  have hreads {α : Type} {p : TypeParse α} {a : α} (hp : ReadsType p) (hrun : s.runTypes p = .ok (a, t)) :
      t.pendingTypeGt = 0 ∧ Balanced (tokensTaken s t) := by
    have hrun := (Parser.runTypes_eq_ok.1 hrun).1
    obtain ⟨tokens, htook⟩ := took_of_run hrun
    rw [tokensTaken_eq htook] at hclosed ⊢
    exact hp.balanced hrun hzero htook hclosed
  cases i with
  | call function =>
    cases function with
    | typeRef => exact hreads (parseTypeRef_tracks depth) h
    | _ => cases hi
  | callTypeArgs =>
    simp only [handle] at h
    split_ifs at h
    · exact hreads (parseTypeArgs_tracks (parseTypeRef_tracks depth)) h
    · cases h
      rw [tokensTaken_eq (Took.refl s.typeState)]
      exact ⟨hzero, rfl⟩
  | _ => cases hi

/-- The types read on their own in a run of the parser, each as a step of the run. -/
def typesRead (depth : ℕ) (stream : TokenStream) : List (Program.Step ParseInstr ParseInstr.Answer Parser) :=
  ((parseSourceFile (recursive depth)).steps (ParseInstr.handle depth) (.start stream)).filter
    (·.instruction.readsType)

/-- **The types of a source file**: each starts with no `>` pending, leaves none and has balanced brackets,
if and only if none of them closes a bracket that it has not opened. -/
theorem typesRead_balanced_iff (depth : ℕ) (stream : TokenStream) :
    (∀ type ∈ typesRead depth stream, type.before.pendingTypeGt = 0 ∧ type.after.pendingTypeGt = 0 ∧
        Balanced (tokensTaken type.before type.after)) ↔
      ∀ type ∈ typesRead depth stream, ClosesOnlyOpen (tokensTaken type.before type.after) := by
  constructor
  · intro hbalanced type htype hnone
    rw [(hbalanced type htype).2.2] at hnone
    cases hnone
  intro hclosed type htype
  obtain ⟨hstep, hreads⟩ := List.mem_filter.1 htype
  -- every step of the run starts and ends with nothing pending
  have hzero := Program.steps_invariant (fun s => s.pendingTypeGt = 0)
    (fun step => step.instruction.readsType = true → ClosesOnlyOpen (tokensTaken step.before step.after))
    (fun i s r t hhandle hinv hmeets => by
      cases hi : i.readsType with
      | false => rw [ParseInstr.handle_keepsPending hi hhandle, hinv]
      | true => exact (ParseInstr.handle_balanced hi hhandle hinv (hmeets hi)).1)
    (p := parseSourceFile (recursive depth)) (s := .start stream) rfl
    (fun step hmem hi => hclosed step (List.mem_filter.2 ⟨hmem, hi⟩)) type hstep
  obtain ⟨hhandle, hbefore, hafter⟩ := hzero
  exact ⟨hbefore, hafter, (ParseInstr.handle_balanced hreads hhandle hbefore (hclosed type htype)).2⟩

/-! ## A type that closes too much -/

/-- The parameters `a: Array<i32>>, b: Option<i32`: the second type lacks the `>` that is too much in the
first. -/
def leakingTypes : TokenStream where
  rest :=
    lineTokens 1 "package main" [(1, .kwPackage), (9, .ident "main"), (13, .newline)] ++
    lineTokens 2 "fn f(a: Array<i32>>, b: Option<i32) \x7b"
      [(1, .kwFn), (4, .ident "f"), (5, .lParen), (6, .ident "a"), (7, .colon), (9, .ident "Array"),
        (14, .less), (15, .ident "i32"), (18, .greaterGreater), (20, .comma), (22, .ident "b"), (23, .colon),
        (25, .ident "Option"), (31, .less), (32, .ident "i32"), (35, .rParen), (37, .lBrace),
        (38, .newline)] ++
    lineTokens 3 "\x7d" [(1, .rBrace), (2, .newline)]
  eof := ⟨.eof, 4, 1, ""⟩
  eof_kind := rfl

/-- The file is parsed, and its first type leaves a `>` pending. -/
theorem leakingTypes_accepted :
    (parse 4 leakingTypes).isOk = true ∧
      ¬∀ type ∈ typesRead 4 leakingTypes, type.after.pendingTypeGt = 0 ∧
        Balanced (tokensTaken type.before type.after) := by
  decide +kernel

end Nomo.Syntax
