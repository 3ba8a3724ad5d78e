import Nomo.Syntax.Outside

/-!
# The formatter's scan for items

`top_level_items` (`nomo_fmt/src/layout.rs:3–207`). It looks for the words that start a declaration where
no bracket is open, without the grammar. `topLevelItems_eq`: on tokens that the reader of `Outside` takes,
it finds what that reader notes.
-/

namespace Nomo.Fmt

open Nomo.Syntax Nomo.Syntax.Outside

/-! ## The scan -/

/-- `TopLevelItem`: a kind of items, and which of the items of its kind it is. -/
structure TopLevelItem where
  kind : ItemKind
  index : ℕ
deriving DecidableEq

/-- The counters of the scan: how many items of a kind it has found. -/
abbrev Counts : Type := ItemKind → ℕ

/-- `public_top_level_item`. -/
def publicTopLevelItem : TokenKind → Option ItemKind
  | .kwStruct => some .struct
  | .kwEnum => some .«enum»
  | .kwInterface => some .interface
  | .kwConst => some .const
  | .kwFn => some .function
  | _ => none

/-- `top_level_item`. -/
def topLevelItem : TokenKind → Option ItemKind
  | .kwStruct => some .struct
  | .kwEnum => some .«enum»
  | .kwInterface => some .interface
  | .kwExtern => some .externBlock
  | .kwImpl => some .impl
  | .kwConst => some .const
  | .kwFn => some .function
  | _ => none

/-- The kind of a token further on is a certain one. -/
def kindIs (tokens : List Token) (offset : ℕ) (kind : TokenKind) : Bool :=
  tokens[offset]?.any (·.kind = kind)

/-- The item that starts with a token outside all brackets, by the tokens behind it, and how many of these
to skip. -/
def itemAt (kind : TokenKind) (rest : List Token) : Option (ItemKind × ℕ) :=
  if kind = .kwPub ∧ kindIs rest 0 .kwSuspend ∧ kindIs rest 1 .kwFn then some (.function, 2)
  else if kind = .kwSuspend ∧ kindIs rest 0 .kwFn then some (.function, 1)
  -- `is_extern_opaque_start`
  else if kind = .kwExtern ∧ kindIs rest 0 (.ident "opaque") ∧ kindIs rest 1 (.ident "type") then
    some (.externOpaque, 0)
  else if kind = .kwPub then (rest.head?.bind (publicTopLevelItem ·.kind)).map (·, 1)
  else (topLevelItem kind).map (·, 0)

/-- The brackets open after a token. -/
def depthAfter (depth : ℕ) (kind : TokenKind) : ℕ :=
  if isOpening kind then depth + 1 else if isClosing kind then depth - 1 else depth

/-- The scan, with the brackets open and the tokens to skip. -/
def topLevelItemsFrom : Counts → ℕ → ℕ → List Token → List TopLevelItem
  | _, _, _, [] => []
  | counts, depth, skip + 1, _ :: rest => topLevelItemsFrom counts depth skip rest
  | counts, depth, 0, token :: rest =>
    if token.kind = .eof then []
    else
      match (if depth = 0 then itemAt token.kind rest else none) with
      | some (kind, skip) =>
        ⟨kind, counts kind⟩ ::
          topLevelItemsFrom (Function.update counts kind (counts kind + 1)) depth skip rest
      | none => topLevelItemsFrom counts (depthAfter depth token.kind) 0 rest

/-- `top_level_items`. -/
def topLevelItems (tokens : List Token) : List TopLevelItem := topLevelItemsFrom (fun _ => 0) 0 0 tokens

/-- Items of these kinds, counted. -/
def numbered : Counts → List ItemKind → List TopLevelItem
  | _, [] => []
  | counts, kind :: kinds =>
    ⟨kind, counts kind⟩ :: numbered (Function.update counts kind (counts kind + 1)) kinds

/-! ## What the scan finds -/

variable {counts : Counts} {token : Token} {rest : List Token} {depth : ℕ}

theorem from_eof (h : rest = [] ∨ ∃ token tail, rest = token :: tail ∧ token.kind = .eof) :
    topLevelItemsFrom counts depth 0 rest = [] := by
  rcases h with rfl | ⟨token, tail, rfl, heof⟩
  · rfl
  · simp [topLevelItemsFrom, heof]

theorem from_inside (heof : token.kind ≠ .eof) (hdepth : depth ≠ 0) :
    topLevelItemsFrom counts depth 0 (token :: rest) =
      topLevelItemsFrom counts (depthAfter depth token.kind) 0 rest := by
  simp [topLevelItemsFrom, heof, hdepth]

theorem from_none (heof : token.kind ≠ .eof) (hitem : itemAt token.kind rest = none) :
    topLevelItemsFrom counts 0 0 (token :: rest) =
      topLevelItemsFrom counts (depthAfter 0 token.kind) 0 rest := by
  simp [topLevelItemsFrom, heof, hitem]

theorem from_some {kind : ItemKind} {skip : ℕ} (heof : token.kind ≠ .eof)
    (hitem : itemAt token.kind rest = some (kind, skip)) :
    topLevelItemsFrom counts 0 0 (token :: rest) = ⟨kind, counts kind⟩ ::
      topLevelItemsFrom (Function.update counts kind (counts kind + 1)) 0 skip rest := by
  simp [topLevelItemsFrom, heof, hitem]

theorem from_skip {skip : ℕ} : topLevelItemsFrom counts depth (skip + 1) (token :: rest) =
    topLevelItemsFrom counts depth skip rest := rfl

theorem itemAt_eq_none (hpub : token.kind ≠ .kwPub) (hsuspend : token.kind ≠ .kwSuspend)
    (hitem : topLevelItem token.kind = none) : itemAt token.kind rest = none := by
  have hforeign : token.kind ≠ .kwExtern := by
    intro h
    rw [h] at hitem
    cases hitem
  simp [itemAt, hpub, hsuspend, hforeign, hitem]

theorem itemAt_eq_some {kind : ItemKind} (hpub : token.kind ≠ .kwPub) (hsuspend : token.kind ≠ .kwSuspend)
    (hforeign : token.kind = .kwExtern → kindIs rest 0 (.ident "opaque") = false)
    (hitem : topLevelItem token.kind = some kind) : itemAt token.kind rest = some (kind, 0) := by
  by_cases h : token.kind = .kwExtern
  · simp [itemAt, hpub, hsuspend, hforeign h, hitem]
  · simp [itemAt, hpub, hsuspend, h, hitem]

/-! ## What the reader notes -/

section Steps

variable {entries : Entries} {w : Outside}

theorem resting_cases (h : (resting depth entries).next token = some w) :
    token.kind ≠ .eof ∧
      (w = resting (depthAfter depth token.kind) entries ∧
          (depth = 0 → token.kind ≠ .kwPub ∧ token.kind ≠ .kwSuspend ∧ topLevelItem token.kind = none) ∨
        depth = 0 ∧ (∃ kind, topLevelItem token.kind = some kind ∧ token.kind ≠ .kwPub ∧
          token.kind ≠ .kwSuspend ∧ token.kind ≠ .kwExtern ∧ w.depth = 0 ∧
          (w.awaits = .nothing ∨ w.awaits = .name) ∧ w.entries = entries.add kind) ∨
        depth = 0 ∧ token.kind = .kwPub ∧ w = ⟨0, .item, entries⟩ ∨
        depth = 0 ∧ token.kind = .kwSuspend ∧ w = ⟨0, .fn, entries⟩ ∨
        depth = 0 ∧ token.kind = .kwExtern ∧ w = ⟨0, .abi, entries⟩) := by
  unfold Outside.next resting at h
  unfold resting
  revert h
  cases depth with
  | zero =>
    cases token.kind with
    | _ => simp +contextual [nextFree, start, topLevelItem, depthAfter, isOpening, isClosing, eq_comm]
  | succ depth =>
    cases token.kind with
    | _ => simp +contextual [nextFree, depthAfter, isOpening, isClosing, eq_comm]

theorem name_cases (h : (⟨0, .name, entries⟩ : Outside).next token = some w) :
    token.kind ≠ .eof ∧ token.kind ≠ .kwPub ∧ token.kind ≠ .kwSuspend ∧ topLevelItem token.kind = none ∧
      w.depth = depthAfter 0 token.kind ∧ w.awaits = .nothing ∧ w.entries.kinds = entries.kinds := by
  unfold Outside.next at h
  revert h
  cases token.kind with
  | _ =>
    simp +contextual [topLevelItem, depthAfter, isOpening, isClosing, eq_comm, Entries.callback]

theorem item_cases (h : (⟨0, .item, entries⟩ : Outside).next token = some w) :
    (∃ kind, publicTopLevelItem token.kind = some kind ∧ token.kind ≠ .kwSuspend ∧ w.depth = 0 ∧
        (w.awaits = .nothing ∨ w.awaits = .name) ∧ w.entries = entries.add kind) ∨
      token.kind = .kwSuspend ∧ w = ⟨0, .fn, entries⟩ := by
  unfold Outside.next at h
  revert h
  cases token.kind with
  | _ => simp +contextual [start, publicTopLevelItem, eq_comm]

theorem fn_cases (h : (⟨0, .fn, entries⟩ : Outside).next token = some w) :
    token.kind = .kwFn ∧ w = ⟨0, .name, entries.add .function⟩ := by
  unfold Outside.next at h
  revert h
  cases token.kind with
  | _ => simp +contextual [start, eq_comm]

theorem abi_cases (h : (⟨0, .abi, entries⟩ : Outside).next token = some w) :
    (∃ value, token.kind = .string value) ∧ w = resting 0 (entries.add .externBlock) ∨
      token.kind = .ident "opaque" ∧ w = ⟨0, .typeWord, entries⟩ := by
  unfold Outside.next at h
  split at h
  all_goals simp_all [resting]

theorem typeWord_cases (h : (⟨0, .typeWord, entries⟩ : Outside).next token = some w) :
    token.kind = .ident "type" ∧ w = resting 0 (entries.add .externOpaque) := by
  unfold Outside.next at h
  split at h
  all_goals simp_all [resting]

end Steps

theorem exists_cons {tokens : List Token} {w w' : Outside} (h : tokens.foldlM Outside.next w = some w')
    (hw : w.awaits ≠ .nothing) (hw' : w'.awaits = .nothing) :
    ∃ token tail w₁, tokens = token :: tail ∧ w.next token = some w₁ ∧
      tail.foldlM Outside.next w₁ = some w' := by
  cases tokens with
  | nil =>
    cases h
    exact absurd hw' hw
  | cons token tail =>
    rw [List.foldlM_cons] at h
    obtain ⟨w₁, hnext, htail⟩ := Option.bind_eq_some_iff.1 h
    exact ⟨token, tail, w₁, rfl, hnext, htail⟩

/-- **The scan finds what the reader notes**, on tokens that the reader takes. -/
theorem from_reads (hrest : rest = [] ∨ ∃ token tail, rest = token :: tail ∧ token.kind = .eof) (n : ℕ) :
    ∀ tokens w w' counts, tokens.length ≤ n →
      (w.awaits = .nothing ∨ w.awaits = .name ∧ w.depth = 0) →
      tokens.foldlM Outside.next w = some w' → w'.awaits = .nothing →
      ∃ kinds, w'.entries.kinds = w.entries.kinds ++ kinds ∧
        topLevelItemsFrom counts w.depth 0 (tokens ++ rest) = numbered counts kinds := by
  induction n with
  | zero =>
    intro tokens w w' counts hlength _ hread _
    obtain rfl := List.length_eq_zero_iff.1 (Nat.le_zero.1 hlength)
    cases hread
    exact ⟨[], by simp, from_eof hrest⟩
  | succ n ih =>
    intro tokens w w' counts hlength hw hread hw'
    cases tokens with
    | nil =>
      cases hread
      exact ⟨[], by simp, from_eof hrest⟩
    | cons token tail =>
      rw [List.foldlM_cons] at hread
      obtain ⟨w₁, hnext, htail⟩ := Option.bind_eq_some_iff.1 hread
      have hlength : tail.length ≤ n := Nat.le_of_succ_le_succ hlength
      -- an item has been found, and the scan goes on after some tokens
      have hitem (kind : ItemKind) (after : List Token) (w₂ : Outside) (hafter : after.length ≤ n)
          (hw₂ : w₂.awaits = .nothing ∨ w₂.awaits = .name) (hdepth : w₂.depth = 0)
          (hentries : w₂.entries = w.entries.add kind) (hread : after.foldlM Outside.next w₂ = some w') :
          ∃ kinds, w'.entries.kinds = w.entries.kinds ++ kinds ∧ ⟨kind, counts kind⟩ ::
            topLevelItemsFrom (Function.update counts kind (counts kind + 1)) 0 0 (after ++ rest) =
              numbered counts kinds := by
        obtain ⟨kinds, hkinds, hscan⟩ := ih after w₂ w' (Function.update counts kind (counts kind + 1)) hafter
          (hw₂.imp_right fun hname => ⟨hname, hdepth⟩) hread hw'
        refine ⟨kind :: kinds, by rw [hkinds, hentries]; simp [Entries.add], ?_⟩
        rw [numbered, ← hscan, hdepth]
      rcases hw with hnothing | ⟨hname, hdepth⟩
      · obtain ⟨depth, awaits, entries⟩ := w
        obtain rfl : awaits = .nothing := hnothing
        obtain ⟨heof, hplain | hstart | hpub | hsuspend | hforeign⟩ := resting_cases hnext
        · -- a token that starts no item
          obtain ⟨rfl, hplain⟩ := hplain
          obtain ⟨kinds, hkinds, hscan⟩ := ih tail _ w' counts hlength (.inl rfl) htail hw'
          refine ⟨kinds, hkinds, ?_⟩
          rw [← hscan, List.cons_append]
          by_cases hdepth : depth = 0
          · subst hdepth
            obtain ⟨hpub, hsuspend, hnone⟩ := hplain rfl
            exact from_none heof (itemAt_eq_none hpub hsuspend hnone)
          · exact from_inside heof hdepth
        · obtain ⟨rfl, kind, hkind, hpub, hsuspend, hforeign, hdepth, hawaits, hentries⟩ := hstart
          rw [List.cons_append, from_some heof (itemAt_eq_some hpub hsuspend (absurd · hforeign) hkind)]
          exact hitem kind tail w₁ hlength hawaits hdepth hentries htail
        · -- `pub`, and the scan looks ahead
          obtain ⟨rfl, hkind, rfl⟩ := hpub
          obtain ⟨second, tail, w₂, rfl, hnext, htail⟩ := exists_cons htail nofun hw'
          rcases item_cases hnext with ⟨kind, hpublic, hsuspend, hdepth, hawaits, hentries⟩ |
            ⟨hsuspend, rfl⟩
          · have hat : itemAt token.kind (second :: tail ++ rest) = some (kind, 1) := by
              simp [itemAt, hkind, kindIs, hsuspend, hpublic]
            rw [List.cons_append, from_some heof hat, List.cons_append, from_skip]
            exact hitem kind tail w₂ (Nat.le_of_succ_le hlength) hawaits hdepth hentries htail
          · obtain ⟨third, tail, w₃, rfl, hnext, htail⟩ := exists_cons htail nofun hw'
            obtain ⟨hfn, rfl⟩ := fn_cases hnext
            have hat : itemAt token.kind (second :: third :: tail ++ rest) = some (.function, 2) := by
              simp [itemAt, hkind, kindIs, hsuspend, hfn]
            rw [List.cons_append, from_some heof hat, List.cons_append, List.cons_append, from_skip,
              from_skip]
            exact hitem .function tail _ (by simp at hlength; omega) (.inr rfl) rfl rfl htail
        · obtain ⟨rfl, hkind, rfl⟩ := hsuspend
          obtain ⟨second, tail, w₂, rfl, hnext, htail⟩ := exists_cons htail nofun hw'
          obtain ⟨hfn, rfl⟩ := fn_cases hnext
          have hat : itemAt token.kind (second :: tail ++ rest) = some (.function, 1) := by
            simp [itemAt, hkind, kindIs, hfn]
          rw [List.cons_append, from_some heof hat, List.cons_append, from_skip]
          exact hitem .function tail _ (Nat.le_of_succ_le hlength) (.inr rfl) rfl rfl htail
        · -- `extern`, and the scan looks ahead
          obtain ⟨rfl, hkind, rfl⟩ := hforeign
          obtain ⟨second, tail, w₂, rfl, hnext, htail⟩ := exists_cons htail nofun hw'
          rcases abi_cases hnext with ⟨⟨value, hvalue⟩, rfl⟩ | ⟨hhidden, rfl⟩
          · have hat : itemAt token.kind (second :: tail ++ rest) = some (.externBlock, 0) := by
              simp [itemAt, hkind, kindIs, hvalue, topLevelItem]
            have hsecond : itemAt second.kind (tail ++ rest) = none :=
              itemAt_eq_none (by simp [hvalue]) (by simp [hvalue]) (by simp [hvalue, topLevelItem])
            rw [List.cons_append, from_some heof hat, List.cons_append,
              from_none (by simp [hvalue]) hsecond, hvalue]
            exact hitem .externBlock tail _ (Nat.le_of_succ_le hlength) (.inl rfl) rfl rfl htail
          · obtain ⟨third, tail, w₃, rfl, hnext, htail⟩ := exists_cons htail nofun hw'
            obtain ⟨htype, rfl⟩ := typeWord_cases hnext
            have hat : itemAt token.kind (second :: third :: tail ++ rest) = some (.externOpaque, 0) := by
              simp [itemAt, hkind, kindIs, hhidden, htype]
            have hword (word : Token) (value : String) (after : List Token) (h : word.kind = .ident value) :
                itemAt word.kind after = none :=
              itemAt_eq_none (by simp [h]) (by simp [h]) (by simp [h, topLevelItem])
            rw [List.cons_append, from_some heof hat, List.cons_append, List.cons_append,
              from_none (by simp [hhidden]) (hword _ _ _ hhidden), hhidden,
              show depthAfter 0 (.ident "opaque") = 0 from rfl,
              from_none (by simp [htype]) (hword _ _ _ htype), htype]
            exact hitem .externOpaque tail _ (by simp at hlength; omega) (.inl rfl) rfl rfl htail
      · -- behind `fn`: a name, or the parenthesis of a callback type
        obtain ⟨depth, awaits, entries⟩ := w
        obtain rfl : awaits = .name := hname
        obtain rfl : depth = 0 := hdepth
        obtain ⟨heof, hpub, hsuspend, hnone, hdepth, hawaits, hkinds⟩ := name_cases hnext
        obtain ⟨kinds, hkinds', hscan⟩ := ih tail w₁ w' counts hlength (.inl hawaits) htail hw'
        refine ⟨kinds, by rw [hkinds', hkinds], ?_⟩
        rw [List.cons_append, from_none heof (itemAt_eq_none hpub hsuspend hnone), ← hdepth]
        exact hscan

end Nomo.Fmt
