import Nomo.Fmt.Layout
import Nomo.Syntax.FileReads

/-!
# The items of a formatted file

The formatter takes the items that its scan finds from the vectors of the parsed file
(`nomo_fmt/src/lib.rs:85–129`). These are the items of the file in their order, exactly if no callback type
stands outside all brackets (`scan_matches_iff`).
-/

namespace Nomo.Fmt

open Nomo.Lib Nomo.Syntax Nomo.Syntax.Outside

/-- The item that `Formatter::item` formats, unless the index is out of bounds. -/
def item? (file : SourceFile) (entry : TopLevelItem) : Option Item :=
  match entry.kind with
  | .struct => file.structs[entry.index]?.map .struct
  | .«enum» => file.enums[entry.index]?.map .«enum»
  | .interface => file.interfaces[entry.index]?.map .interface
  | .externOpaque => file.externOpaqueTypes[entry.index]?.map .externOpaque
  | .externBlock => file.externBlocks[entry.index]?.map .externBlock
  | .impl => file.impls[entry.index]?.map .impl
  | .const => file.consts[entry.index]?.map .const
  | .function => file.functions[entry.index]?.map .function

/-! ## Numbered items -/

theorem filterMap_get? {α : Type} (items : List Item) (kind : ItemKind) (ofItem : Item → Option α)
    (toItem : α → Item) (h : ∀ item, (ofItem item).map toItem = if item.kind = kind then some item else none)
    (index : ℕ) :
    (items.filterMap ofItem)[index]?.map toItem = (items.filter (·.kind = kind))[index]? := by
  rw [← List.getElem?_map, List.map_filterMap]
  congr 1
  rw [← List.filterMap_eq_filter]
  refine List.filterMap_congr fun item _ => ?_
  rw [h item]
  simp [Option.guard]

theorem item?_ofItems (package : List String) (imports : List (List String)) (items : List Item)
    (scriptBody : List Stmt) (entry : TopLevelItem) :
    item? (.ofItems package imports items scriptBody) entry =
      (items.filter (·.kind = entry.kind))[entry.index]? := by
  obtain ⟨kind, index⟩ := entry
  cases kind with
  | _ => exact filterMap_get? items _ _ _ (fun item => by cases item <;> simp [Item.kind]) index

theorem numbered_picks (front back : List Item) :
    (numbered (fun kind => (front.filter (·.kind = kind)).length) (back.map Item.kind)).map
        (fun entry => ((front ++ back).filter (·.kind = entry.kind))[entry.index]?) = back.map some := by
  induction back generalizing front with
  | nil => rfl
  | cons item back ih =>
    have hcounts : Function.update (fun kind => (front.filter (·.kind = kind)).length) item.kind
        ((front.filter (·.kind = item.kind)).length + 1) =
          fun kind => ((front ++ [item]).filter (·.kind = kind)).length := by
      funext kind
      by_cases hkind : kind = item.kind
      · subst hkind
        simp
      · have hother : item.kind ≠ kind := fun h => hkind h.symm
        simp [Function.update_of_ne hkind, hother]
    have hih := ih (front ++ [item])
    rw [List.append_assoc, List.singleton_append] at hih
    rw [List.map_cons, numbered, List.map_cons, List.map_cons, hcounts, hih]
    simp

theorem length_numbered (counts : Counts) (kinds : List ItemKind) :
    (numbered counts kinds).length = kinds.length := by
  induction kinds generalizing counts with
  | nil => rfl
  | cons kind kinds ih => simp [numbered, ih]

/-! ## Callback types outside all brackets -/

/-- A `fn` outside all brackets has a parenthesis behind it, as only the `fn` of a callback type has. -/
def callbackOutside : ℕ → List Token → Bool
  | _, [] => false
  | depth, token :: rest =>
    if token.kind = .eof then false
    else
      depth = 0 && token.kind = .kwFn && kindIs rest 0 .lParen ||
        callbackOutside (depthAfter depth token.kind) rest

theorem callbacks_next {w w' : Outside} {token : Token} (h : w.next token = some w')
    (hw : w.awaits ≠ .nothing → w.depth = 0) :
    token.kind ≠ .eof ∧ w'.depth = depthAfter w.depth token.kind ∧
      (w'.awaits ≠ .nothing → w'.depth = 0) ∧
      (w'.awaits = .name ↔ w.depth = 0 ∧ token.kind = .kwFn) ∧
      w'.entries.callbacks =
        w.entries.callbacks + if w.awaits = .name ∧ token.kind = .lParen then 1 else 0 := by
  obtain ⟨depth, awaits, entries⟩ := w
  cases awaits with
  | nothing =>
    unfold Outside.next at h
    revert h
    cases depth with
    | zero =>
      cases token.kind with
      | _ =>
        rintro ⟨⟩ <;>
          simp [depthAfter, isOpening, isClosing, Entries.add]
    | succ depth =>
      cases token.kind with
      | _ =>
        rintro ⟨⟩ <;>
          simp [depthAfter, isOpening, isClosing]
  | item | fn | name =>
    obtain rfl : depth = 0 := hw (by simp)
    unfold Outside.next at h
    revert h
    cases token.kind with
    | _ =>
      rintro ⟨⟩ <;>
        simp [depthAfter, isOpening, isClosing, Entries.add, Entries.callback]
  | abi =>
    obtain rfl : depth = 0 := hw (by simp)
    rcases abi_cases h with ⟨⟨value, hvalue⟩, rfl⟩ | ⟨hhidden, rfl⟩
    · simp [hvalue, resting, depthAfter, isOpening, isClosing, Entries.add]
    · simp [hhidden, depthAfter, isOpening, isClosing]
  | typeWord =>
    obtain rfl : depth = 0 := hw (by simp)
    obtain ⟨htype, rfl⟩ := typeWord_cases h
    simp [htype, resting, depthAfter, isOpening, isClosing, Entries.add]

/-- The count of callback types grows where a `fn` outside all brackets has a parenthesis behind it. -/
theorem callbacks_of_read {rest : List Token}
    (hrest : rest = [] ∨ ∃ token tail, rest = token :: tail ∧ token.kind = .eof) {tokens : List Token}
    {w w' : Outside} (hw : w.awaits ≠ .nothing → w.depth = 0)
    (hread : tokens.foldlM Outside.next w = some w') (hw' : w'.awaits = .nothing) :
    w.entries.callbacks ≤ w'.entries.callbacks ∧
      (w'.entries.callbacks ≠ w.entries.callbacks ↔
        (w.awaits = .name ∧ kindIs (tokens ++ rest) 0 .lParen = true) ∨
          callbackOutside w.depth (tokens ++ rest) = true) := by
  induction tokens generalizing w with
  | nil =>
    obtain rfl := Option.some.inj hread
    refine ⟨le_rfl, ?_⟩
    have hnone : callbackOutside w.depth rest = false := by
      rcases hrest with rfl | ⟨token, tail, rfl, heof⟩
      · rfl
      · simp [callbackOutside, heof]
    simp [hw', hnone]
  | cons token tail ih =>
    rw [List.foldlM_cons] at hread
    obtain ⟨w₁, hnext, htail⟩ := Option.bind_eq_some_iff.1 hread
    obtain ⟨heof, hdepth, hw₁, hname, hcallbacks⟩ := callbacks_next hnext hw
    obtain ⟨hle, hiff⟩ := ih hw₁ htail
    have hparen : kindIs (token :: tail ++ rest) 0 .lParen = true ↔ token.kind = .lParen := by
      simp [kindIs]
    rw [hparen, List.cons_append, callbackOutside, if_neg heof, ← hdepth, Bool.or_eq_true,
      Bool.and_eq_true, Bool.and_eq_true, decide_eq_true_eq, decide_eq_true_eq, ← hname, ← hiff]
    by_cases hstep : w.awaits = .name ∧ token.kind = .lParen
    · rw [if_pos hstep] at hcallbacks
      refine ⟨by omega, ?_⟩
      simp only [hstep, and_self, true_or, iff_true]
      omega
    · rw [if_neg hstep, Nat.add_zero] at hcallbacks
      rw [← hcallbacks]
      exact ⟨hle, by simp only [hstep, false_or]⟩

/-! ## The items of a file -/

/-- The scan's entries are the items of the file, one for each, in their order and within bounds. -/
def ScanMatches (tokens : List Token) (file : SourceFile) (items : List Item) : Prop :=
  (topLevelItems tokens).map (item? file) = items.map some

/-- The parser accepts the tokens, as a file with these items. -/
def Accepts (depth : ℕ) (stream : TokenStream) (file : SourceFile) (items : List Item) : Prop :=
  ∃ final, (parseInOrder (recursive depth)).run (ParseInstr.handle depth) (.start stream) =
    .ok ((file, items), final)

/-- **The formatter's items** are those of the file in their order, if and only if no callback type stands
outside all brackets. -/
theorem scanMatches_iff {depth : ℕ} {stream : TokenStream} {file : SourceFile} {items : List Item}
    (h : Accepts depth stream file items) :
    ScanMatches (stream.rest ++ [stream.eof]) file items ↔ callbackOutside 0 stream.rest = false := by
  obtain ⟨final, hrun⟩ := h
  obtain ⟨tokens, entries, htokens, hend, ⟨package, imports, scriptBody, rfl⟩, hread, hmatches⟩ :=
    parseInOrder_reads hrun
  -- what the scan finds
  have hend' : final.stream.rest ++ [stream.eof] = [] ∨
      ∃ token tail, final.stream.rest ++ [stream.eof] = token :: tail ∧ token.kind = .eof := by
    refine .inr ?_
    rcases hend with hnil | ⟨token, tail, hcons, heof⟩
    · exact ⟨stream.eof, [], by rw [hnil]; rfl, stream.eof_kind⟩
    · exact ⟨token, tail ++ [stream.eof], by rw [hcons]; rfl, heof⟩
  obtain ⟨kinds, hkinds, hscan⟩ := from_reads hend' tokens.length tokens _ _ (fun _ => 0) le_rfl (.inl rfl)
    hread rfl
  have hkinds : entries.kinds = kinds := hkinds
  subst hkinds
  have hfound : topLevelItems (stream.rest ++ [stream.eof]) = numbered (fun _ => 0) entries.kinds := by
    rw [topLevelItems, htokens, List.append_assoc]
    exact hscan
  -- whether callback types stand outside all brackets
  have hcallbacks : callbackOutside 0 stream.rest = false ↔ entries.callbacks = 0 := by
    obtain ⟨-, hiff⟩ := callbacks_of_read hend (w := resting 0 ⟨[], 0⟩) (fun h => absurd rfl h) hread rfl
    rw [← htokens] at hiff
    have hiff : entries.callbacks ≠ 0 ↔ (Awaits.nothing = .name ∧ kindIs stream.rest 0 .lParen = true) ∨
          callbackOutside 0 stream.rest = true := hiff
    cases hcallback : callbackOutside 0 stream.rest with
    | true | false => simpa [hcallback] using hiff
  rw [hcallbacks, ScanMatches, hfound]
  constructor
  · intro hmap
    by_contra hmore
    have hlength := congrArg List.length hmap
    rw [List.length_map, List.length_map, length_numbered] at hlength
    have hlt := hmatches.more hmore
    rw [List.length_map] at hlt
    omega
  · intro hzero
    rw [hmatches.same hzero]
    have hpicks := numbered_picks [] items
    simp only [List.nil_append] at hpicks
    rw [← hpicks]
    exact List.map_congr_left fun entry _ => item?_ofItems package imports items scriptBody entry

/-! ## A function that returns a worker -/

/-- A file with a constant and a function that returns a value of a given type. -/
def fileReturning (type : String) (tokens : List (ℕ × TokenKind)) (brace : ℕ) : TokenStream where
  rest :=
    lineTokens 1 "package main" [(1, .kwPackage), (9, .ident "main"), (13, .newline)] ++
    lineTokens 2 "const limit: i32 = 8"
      [(1, .kwConst), (7, .ident "limit"), (12, .colon), (14, .ident "i32"), (18, .equal), (20, .int 8),
        (21, .newline)] ++
    lineTokens 3 s!"fn worker() -> {type} \x7b"
      ([(1, .kwFn), (4, .ident "worker"), (10, .lParen), (11, .rParen), (13, .arrow)] ++ tokens ++
        [(brace, .lBrace), (brace + 1, .newline)]) ++
    lineTokens 4 "\x7d" [(1, .rBrace), (2, .newline)]
  eof := ⟨.eof, 5, 1, ""⟩
  eof_kind := rfl

/-- `fn worker() -> i32`. -/
def returningNumber : TokenStream := fileReturning "i32" [(16, .ident "i32")] 20

/-- `fn worker() -> task fn() -> void`. -/
def returningWorker : TokenStream :=
  fileReturning "task fn() -> void"
    [(16, .ident "task"), (21, .kwFn), (23, .lParen), (24, .rParen), (26, .arrow), (29, .kwVoid)] 34

/-- How many items the parser finds, if it accepts the tokens. -/
def itemCount (depth : ℕ) (stream : TokenStream) : Option ℕ :=
  match (parseInOrder (recursive depth)).run (ParseInstr.handle depth) (.start stream) with
  | .ok ((_, items), _) => some items.length
  | .error _ => none

theorem accepts_of_itemCount {depth : ℕ} {stream : TokenStream} {count : ℕ}
    (h : itemCount depth stream = some count) :
    ∃ file items, Accepts depth stream file items ∧ items.length = count := by
  unfold itemCount at h
  split at h
  · rename_i file items final hrun
    exact ⟨file, items, ⟨final, hrun⟩, Option.some.inj h⟩
  · cases h

theorem returning_evaluated :
    itemCount 3 returningNumber = some 2 ∧ callbackOutside 0 returningNumber.rest = false ∧
      itemCount 3 returningWorker = some 2 ∧
      topLevelItems (returningWorker.rest ++ [returningWorker.eof]) =
        [⟨.const, 0⟩, ⟨.function, 0⟩, ⟨.function, 1⟩] := by
  decide +kernel

theorem scanMatches_returningNumber :
    ∃ file items, Accepts 3 returningNumber file items ∧
      ScanMatches (returningNumber.rest ++ [returningNumber.eof]) file items := by
  obtain ⟨hcount, hnone, -⟩ := returning_evaluated
  obtain ⟨file, items, haccepts, -⟩ := accepts_of_itemCount hcount
  exact ⟨file, items, haccepts, (scanMatches_iff haccepts).2 hnone⟩

theorem parseInOrder_balanced_returningNumber : ∃ tokens rest,
    returningNumber.rest = tokens ++ rest ∧ brackets isClosing tokens = brackets isOpening tokens := by
  obtain ⟨_, _, ⟨_, hrun⟩, -⟩ := accepts_of_itemCount returning_evaluated.1
  obtain ⟨tokens, htokens, -, hbalanced, -⟩ := parseInOrder_balanced hrun
  exact ⟨tokens, _, htokens, hbalanced⟩

/-- The formatter looks for a second function in a file with one. -/
theorem not_scanMatches_returningWorker :
    ∃ file items, Accepts 3 returningWorker file items ∧
      ¬ScanMatches (returningWorker.rest ++ [returningWorker.eof]) file items := by
  obtain ⟨-, -, hcount, hscan⟩ := returning_evaluated
  obtain ⟨file, items, haccepts, hlength⟩ := accepts_of_itemCount hcount
  refine ⟨file, items, haccepts, fun hmatches => ?_⟩
  have hmap := congrArg List.length hmatches
  rw [hscan, List.length_map, List.length_map, hlength] at hmap
  cases hmap

end Nomo.Fmt
